import ChartTree.Proofs.Node.Setters
import ChartTree.Proofs.Value.Writing
import ChartTree.Session

/-!
# The objects that a node holds

A rule sorts the objects of a node: those that a write behind its setters can change, and the
others. No path leads into the data themselves and the inner nodes, so their objects may be of
either sort. If what is handed over to a node is sorted by the rule, then so is what every setter
and every write leaves in it; and a write has changed no objects but such as the rule lets it
change.
-/

namespace ChartTree

variable {P P' : Rule}

/-! ### What is sorted -/

/-- Something holds of what a place for data has in common with its copies. -/
def DataSlot.Common (Q : Value → Prop) : DataSlot → Prop
  | .empty => True
  | .reference r => Q r.url ∧ ∀ held ∈ r.values, Q held.value
  | .other v => Q v

/-- The objects in a place for data are sorted by a rule: a path leads into the options only. -/
def DataSlot.Sorted (P : Rule) (slot : DataSlot) : Prop :=
  slot.Common (Value.Within P) ∧ ∀ r, slot = .reference r → r.options.Sorted P

/-- The objects in what a node holds are sorted by a rule. -/
structure Spec.Sorted (P : Rule) (s : Spec) : Prop where
  properties : s.properties.Sorted P
  data : s.data.Sorted P
  repeatChannels : s.repeatChannels.Sorted P

/-- The objects in a node are sorted by a rule: no path leads to what stands for its inner nodes. -/
structure Node.Sorted (P : Rule) (n : Node) : Prop where
  spec : n.toSpec.Sorted P
  children : n.children.Within P
  child : n.child.Within P

/-- The objects in what a call leaves in a node are sorted by a rule. -/
def Call.Sorted (P : Rule) : Call → Prop
  | .data source options => source.value.Within P ∧ Dict.Sorted P options
  | .inner _ => True
  | .mark _ options => Dict.Sorted P options
  | .encode _ field _ options => field.Sorted P ∧ Dict.Sorted P options
  | .bindAxis _ _ fields => fields.Sorted P
  | .transform items => ∀ v ∈ items, v.Sorted P
  | .projection type options => type.Sorted P ∧ Dict.Sorted P options
  | .property _ value => value.Sorted P

/-- The objects in what a node is made with are sorted by a rule. -/
def Construction.Sorted (P : Rule) : Construction → Prop
  | .unit (some source) options => (Call.data source options).Sorted P
  | _ => True

/-- The objects in what a write leaves in a node are sorted by a rule. A path leads somewhere. -/
def Write.Sorted (P : Rule) : Write → Prop
  | .properties v | .repeatChannels v => v.Sorted P
  | .data slot => slot.Sorted P
  | .children v | .child v => v.Within P
  | .inside _ path v => path ≠ [] ∧ (∀ key ∈ path, key.Sorted P) ∧ v.Sorted P
  | .remove _ path => path ≠ []

/-! ### Other rules -/

theorem DataSlot.Common.imp₂ {slot : DataSlot} {Q Q' R : Value → Prop} (h : slot.Common Q)
    (h' : slot.Common Q') (implies : ∀ v, Q v → Q' v → R v) : slot.Common R := by
  cases slot with
  | empty => trivial
  | reference r =>
    exact ⟨implies _ h.1 h'.1, fun held mem => implies _ (h.2 held mem) (h'.2 held mem)⟩
  | other v => exact implies v h h'

theorem DataSlot.Common.imp {slot : DataSlot} {Q R : Value → Prop} (h : slot.Common Q)
    (implies : ∀ v, Q v → R v) : slot.Common R :=
  h.imp₂ h fun v held _ => implies v held

theorem DataSlot.Sorted.imp {slot : DataSlot} (h : slot.Sorted P) (implies : P.Implies P') :
    slot.Sorted P' :=
  ⟨h.1.imp fun _ held => held.imp implies.holds, fun r eq => (h.2 r eq).imp implies.sorts⟩

theorem Node.Sorted.imp {n : Node} (h : n.Sorted P) (implies : P.Implies P') : n.Sorted P' where
  spec :=
    { properties := h.spec.properties.imp implies.sorts
      data := h.spec.data.imp implies
      repeatChannels := h.spec.repeatChannels.imp implies.sorts }
  children := h.children.imp implies.holds
  child := h.child.imp implies.holds

theorem Dict.Sorted.imp {d : Dict} (h : d.Sorted P) (implies : ∀ i b, P i b → P' i b) :
    d.Sorted P' :=
  fun e he => ⟨(h e he).1.imp implies, (h e he).2.imp implies⟩

theorem Call.Sorted.imp {call : Call} (h : call.Sorted P) (implies : P.Implies P') :
    call.Sorted P' := by
  have sorts := implies.sorts
  cases call with
  | data source options => exact ⟨h.1.imp implies.holds, Dict.Sorted.imp h.2 sorts⟩
  | inner args => trivial
  | mark type options => exact Dict.Sorted.imp h sorts
  | encode channel field dataType options => exact ⟨h.1.imp sorts, Dict.Sorted.imp h.2 sorts⟩
  | bindAxis axis channel fields => exact Value.Sorted.imp h sorts
  | transform items => exact fun v hv => (h v hv).imp sorts
  | projection type options => exact ⟨h.1.imp sorts, Dict.Sorted.imp h.2 sorts⟩
  | property p value => exact Value.Sorted.imp h sorts

theorem Construction.Sorted.imp {construction : Construction} (h : construction.Sorted P)
    (implies : P.Implies P') : construction.Sorted P' := by
  cases construction with
  | ofKind kind => trivial
  | composite kind args => trivial
  | unit source options =>
    cases source with
    | none => trivial
    | some source =>
      have call : (Call.data source options).Sorted P := h
      exact call.imp implies

theorem Write.Sorted.imp {w : Write} (h : w.Sorted P) (implies : P.Implies P') :
    w.Sorted P' := by
  have sorts := implies.sorts
  cases w with
  | properties v => exact Value.Sorted.imp h sorts
  | repeatChannels v => exact Value.Sorted.imp h sorts
  | data slot => exact DataSlot.Sorted.imp h implies
  | children v => exact Value.Within.imp h implies.holds
  | child v => exact Value.Within.imp h implies.holds
  | inside place path v =>
    obtain ⟨nonempty, keys, value⟩ := h
    exact ⟨nonempty, fun key mem => (keys key mem).imp sorts, value.imp sorts⟩
  | remove place path => exact h

/-! ### Setters -/

theorem DataSlot.sorted_empty : DataSlot.Sorted P .empty :=
  ⟨trivial, fun _ eq => (nomatch eq)⟩

theorem DataSlot.sorted_reference {r : DataReference} (url : r.url.Within P)
    (values : ∀ held ∈ r.values, held.value.Within P) (options : r.options.Sorted P) :
    (DataSlot.reference r).Sorted P :=
  ⟨⟨url, values⟩, fun _ eq => by cases eq; exact options⟩

theorem Node.fresh_sorted (kind : Kind) (schemaUrl : String) :
    (Node.fresh kind schemaUrl).Sorted P where
  spec :=
    { properties := by
        have empty : Value.Sorted P (.dict []) := Value.sorted_newDict (List.forall_mem_nil _)
        have type : Dict.Sorted P (Dict.ofFields [("type", Mark.point.name)]) :=
          Dict.sorted_ofFields (List.forall_mem_singleton.2 (Value.sorted_string _))
        have point := Value.sorted_newDict type
        have kinds : ∀ f ∈ Spec.kindProperties kind, f.2.Sorted P := by
          cases kind with
          | unit => exact List.forall_mem_cons.2 ⟨empty, List.forall_mem_singleton.2 point⟩
          | layer | facet | repeated => exact List.forall_mem_singleton.2 empty
          | hconcat | vconcat => exact List.forall_mem_nil _
        exact Value.sorted_newDict
          (Dict.sorted_ofFields (List.forall_mem_cons.2 ⟨Value.sorted_string _, kinds⟩))
      data := DataSlot.sorted_empty
      repeatChannels := Value.sorted_newDict (List.forall_mem_nil _) }
  children := Value.within_newList (List.forall_mem_nil _)
  child := Value.within_null

namespace Edit

theorem put_sorted (key : String) {v : Value} (hv : v.Sorted P) :
    Keeps (Node.Sorted P) (put key v) := by
  refine keeps_get fun n hn => keeps_reached fun properties written => keeps_set ?_
  have writes := Value.writes_withEntry (Value.sorted_string key) hv
  obtain ⟨_, sorted, _⟩ := writes _ _ hn.spec.properties written
  exact ⟨⟨sorted, hn.spec.data, hn.spec.repeatChannels⟩, hn.children, hn.child⟩

theorem drop_sorted (key : String) : Keeps (Node.Sorted P) (drop key) := by
  refine keeps_get fun n hn => keeps_reached fun properties written => keeps_set ?_
  have sorted := hn.spec.properties.withoutName written
  exact ⟨⟨sorted, hn.spec.data, hn.spec.repeatChannels⟩, hn.children, hn.child⟩

theorem putChannel_sorted (axis : Axis) (channel : String) :
    Keeps (Node.Sorted P) (putChannel axis channel) := by
  refine keeps_get fun n hn => keeps_reached fun channels written => keeps_set ?_
  have writes : Value.Writes P fun v => v.withEntry (.string axis.name) (.string channel) :=
    Value.writes_withEntry (Value.sorted_string _) (Value.sorted_string _)
  obtain ⟨_, sorted, _⟩ := writes _ _ hn.spec.repeatChannels written
  exact ⟨⟨hn.spec.properties, hn.spec.data, sorted⟩, hn.children, hn.child⟩

theorem dropChannel_sorted (axis : Axis) : Keeps (Node.Sorted P) (dropChannel axis) := by
  refine keeps_get fun n hn => keeps_reached fun channels written => keeps_set ?_
  have sorted := hn.spec.repeatChannels.withoutName written
  exact ⟨⟨hn.spec.properties, hn.spec.data, sorted⟩, hn.children, hn.child⟩

theorem ofSource_sorted {source : Shared} {options : Dict} {r : DataReference}
    (hsource : source.value.Within P) (hoptions : Dict.Sorted P options)
    (made : DataReference.ofSource source options = .ok r) :
    (DataSlot.reference r).Sorted P := by
  have dict := Value.sorted_newDict hoptions
  have inline : ∀ held ∈ some source, held.value.Within P := by
    intro held mem
    cases mem
    exact hsource
  simp only [DataReference.ofSource] at made
  split at made
  · cases made
  · split at made <;> cases made
    · exact DataSlot.sorted_reference hsource (fun _ mem => absurd mem (Option.not_mem_none _)) dict
    · exact DataSlot.sorted_reference Value.within_null inline dict
    · exact DataSlot.sorted_reference Value.within_null inline dict
    · exact DataSlot.sorted_reference Value.within_null inline dict

theorem data_sorted {source : Shared} {options : Dict} (hsource : source.value.Within P)
    (hoptions : Dict.Sorted P options) : Keeps (Node.Sorted P) (data source options) := by
  refine keeps_get fun n _ => keeps_require fun _ => ?_
  split
  · refine keeps_modify fun n hn => ?_
    exact ⟨⟨hn.spec.properties, DataSlot.sorted_empty, hn.spec.repeatChannels⟩, hn.children,
      hn.child⟩
  · refine keeps_checked fun r made => keeps_modify fun n hn => ?_
    exact ⟨⟨hn.spec.properties, ofSource_sorted hsource hoptions made, hn.spec.repeatChannels⟩,
      hn.children, hn.child⟩

theorem inner_sorted (nodes : ∀ n, P (.node n) false) (args : List Value) :
    Keeps (Node.Sorted P) (inner args) := by
  have ofNode (m : NodeRef) : (Value.ofNode m).Within P :=
    List.forall_mem_singleton.2 (P.holds_of_sorts _ false (nodes m.id))
  have listed (refs : List NodeRef) : (Value.list (refs.map Value.ofNode)).Within P :=
    Value.within_newList (List.forall_mem_map.2 fun m _ => ofNode m)
  refine keeps_get fun n _ => keeps_require fun _ => ?_
  split
  · exact keeps_modify fun n hn => ⟨hn.spec, listed [], Value.within_null⟩
  · refine keeps_checked fun refs _ => ?_
    split
    · split
      · exact keeps_modify fun n hn => ⟨hn.spec, hn.children, Value.within_null⟩
      · exact keeps_require fun _ => keeps_modify fun n hn => ⟨hn.spec, hn.children, ofNode _⟩
    · split
      · exact keeps_throw _
      · exact keeps_modify fun n hn => ⟨hn.spec, listed refs, hn.child⟩

theorem mark_sorted (type : Value) {options : Dict} (hoptions : Dict.Sorted P options) :
    Keeps (Node.Sorted P) (mark type options) := by
  refine keeps_get fun n _ => keeps_require fun _ => ?_
  split
  · exact drop_sorted "mark"
  · refine keeps_checked fun m _ => put_sorted "mark" (Value.sorted_newDict ?_)
    have named : Dict.Sorted P (Dict.ofFields [("type", m.name)]) :=
      Dict.sorted_ofFields (List.forall_mem_singleton.2 (Value.sorted_string _))
    exact named.merge hoptions

theorem fieldArg_sorted {v : Value} (hv : v.Sorted P) {binding : List (String × Value)}
    (checked : fieldArg v = .ok binding) : ∀ f ∈ binding, f.2.Sorted P := by
  simp only [fieldArg] at checked
  split at checked
  · cases checked
    exact List.forall_mem_singleton.2 (Value.sorted_string _)
  · cases checked
    split
    · exact List.forall_mem_nil _
    · exact List.forall_mem_singleton.2 hv
  · split at checked
    · cases checked
    · cases checked
      exact List.forall_mem_nil _

theorem encode_sorted (channel dataType : Value) {field : Value} {options : Dict}
    (hfield : field.Sorted P) (hoptions : Dict.Sorted P options) :
    Keeps (Node.Sorted P) (encode channel field dataType options) := by
  refine keeps_get fun n hn => keeps_require fun _ => keeps_checked fun c _ =>
    keeps_require fun _ => keeps_reached fun channels held => ?_
  have definitions : channels.Sorted P := hn.spec.properties.entryAt held
  split
  · exact keeps_reached fun rest removed => put_sorted _ (definitions.withoutName removed)
  · refine keeps_checked fun binding bound => keeps_checked fun type _ =>
      keeps_reached fun written done => put_sorted _ ?_
    have fields : ∀ f ∈ binding ++ [("type", Value.string type.name)], f.2.Sorted P := by
      intro f hf
      rcases List.mem_append.1 hf with bindings | typed
      · exact fieldArg_sorted hfield bound f bindings
      · cases List.mem_singleton.1 typed
        exact Value.sorted_string _
    have definition := Value.sorted_newDict ((Dict.sorted_ofFields fields).merge hoptions)
    have writes := Value.writes_withEntry (Value.sorted_string c.storedName) definition
    exact (writes _ _ definitions done).2.1

theorem fieldNames_eq {vs names : List Value} (checked : fieldNames vs = .ok names) :
    names = vs := by
  induction vs generalizing names with
  | nil =>
    cases checked
    rfl
  | cons v vs ih =>
    rw [fieldNames] at checked
    split at checked
    · obtain ⟨others, rest, checked⟩ := bind_eq_ok_iff.1 checked
      cases checked
      rw [ih rest]
    · cases checked

theorem fieldsArg_sorted {v : Value} (hv : v.Sorted P) {names : List Value}
    (checked : fieldsArg v = .ok names) : ∀ w ∈ names, w.Sorted P := by
  obtain ⟨id, content⟩ := v
  cases content <;> try cases checked
  case list items => exact fieldNames_eq checked ▸ (Value.sorted_list.1 hv).2
  case tuple items => exact fieldNames_eq checked ▸ (Value.sorted_tuple.1 hv).2

theorem bindAxis_sorted (axis : Axis) (channel : Value) {fields : Value}
    (hfields : fields.Sorted P) : Keeps (Node.Sorted P) (bindAxis axis channel fields) := by
  refine keeps_get fun n hn => keeps_require fun _ => ?_
  split
  · refine keeps_reached fun axes held => keeps_reached fun rest removed => ?_
    have axes_sorted : axes.Sorted P := hn.spec.properties.entryAt held
    exact keeps_bind (put_sorted _ (axes_sorted.withoutName removed)) fun _ =>
      dropChannel_sorted axis
  · refine keeps_checked fun c _ => keeps_checked fun names given => keeps_reached fun axes held =>
      keeps_reached fun written done => ?_
    have axes_sorted : axes.Sorted P := hn.spec.properties.entryAt held
    have listed := Value.sorted_newList (fieldsArg_sorted hfields given)
    have writes := Value.writes_withEntry (Value.sorted_string axis.name) listed
    exact keeps_bind (put_sorted _ (writes _ _ axes_sorted done).2.1) fun _ =>
      putChannel_sorted axis c.storedName

theorem transformArgs_eq {vs items : List Value} (checked : transformArgs vs = .ok items) :
    items = vs := by
  induction vs generalizing items with
  | nil =>
    cases checked
    rfl
  | cons v vs ih =>
    rw [transformArgs] at checked
    split at checked
    · obtain ⟨others, rest, checked⟩ := bind_eq_ok_iff.1 checked
      cases checked
      rw [ih rest]
    · cases checked

theorem transform_sorted {items : List Value} (hitems : ∀ v ∈ items, v.Sorted P) :
    Keeps (Node.Sorted P) (transform items) := by
  rw [transform]
  split
  · exact drop_sorted "transform"
  · refine keeps_checked fun transforms given => put_sorted _ (Value.sorted_newList ?_)
    exact transformArgs_eq given ▸ hitems

theorem projection_sorted {type : Value} {options : Dict} (htype : type.Sorted P)
    (hoptions : Dict.Sorted P options) : Keeps (Node.Sorted P) (projection type options) := by
  refine keeps_get fun n _ => keeps_require fun _ => ?_
  split
  · exact drop_sorted "projection"
  · split
    · refine put_sorted _ (Value.sorted_newDict ?_)
      exact (Dict.sorted_ofFields (List.forall_mem_singleton.2 htype)).merge hoptions
    · exact keeps_throw _

theorem property_sorted (p : Property) {value : Value} (hvalue : value.Sorted P) :
    Keeps (Node.Sorted P) (property p value) := by
  refine keeps_get fun n _ => keeps_require fun _ => ?_
  split
  · exact drop_sorted p.key
  · split
    · exact keeps_require fun _ => put_sorted p.key hvalue
    · exact keeps_throw _

end Edit

/-- A setter that is given sorted values leaves a sorted node behind, also where it refuses. -/
theorem Call.Sorted.edit {call : Call} (h : call.Sorted P) (nodes : ∀ n, P (.node n) false) :
    Edit.Keeps (Node.Sorted P) call.edit := by
  cases call with
  | data source options => exact Edit.data_sorted h.1 h.2
  | inner args => exact Edit.inner_sorted nodes args
  | mark type options => exact Edit.mark_sorted type h
  | encode channel field dataType options => exact Edit.encode_sorted channel dataType h.1 h.2
  | bindAxis axis channel fields => exact Edit.bindAxis_sorted axis channel h
  | transform items => exact Edit.transform_sorted h
  | projection type options => exact Edit.projection_sorted h.1 h.2
  | property p value => exact Edit.property_sorted p h

theorem Construction.Sorted.build {construction : Construction} (h : construction.Sorted P)
    (nodes : ∀ n, P (.node n) false) {schemaUrl : String} {n : Node}
    (built : construction.build schemaUrl = .ok n) : n.Sorted P := by
  have edited {kind : Kind} {edit : Edit Unit} (keeps : Edit.Keeps (Node.Sorted P) edit)
      (built : Construction.edited (.fresh kind schemaUrl) edit = .ok n) : n.Sorted P := by
    rw [Construction.edited] at built
    split at built
    · rename_i run
      cases built
      exact keeps.of_ok (Node.fresh_sorted kind schemaUrl) run
    · cases built
  cases construction with
  | ofKind kind =>
    obtain ⟨k, _, made⟩ := bind_eq_ok_iff.1 built
    cases made
    exact Node.fresh_sorted k schemaUrl
  | unit source options =>
    cases source with
    | none =>
      cases built
      exact Node.fresh_sorted .unit schemaUrl
    | some source =>
      simp only [Construction.build] at built
      split at built
      · cases built
        exact Node.fresh_sorted .unit schemaUrl
      · exact edited (Edit.data_sorted h.1 h.2) built
  | composite kind args =>
    simp only [Construction.build] at built
    split at built
    · cases built
      exact Node.fresh_sorted kind schemaUrl
    · exact edited (Edit.inner_sorted nodes args) built

/-! ### Writes -/

namespace Edit

theorem run_changePlace (place : Place) (path : List Value)
    (change : Value → Except Misuse Value) (n : Node) :
    (changePlace place path change).run n = match valueAt n place with
      | .error reason => .error (.misuse reason) n
      | .ok v => match Value.changedAt path change v with
        | .error reason => .error (.misuse reason) n
        | .ok (v, objects) => .ok objects (withValueAt n v place) := by
  change (reached (valueAt n place) >>= _).run n = _
  rw [EStateM.run_bind]
  cases valueAt n place with
  | error reason => rfl
  | ok v =>
    change (reached (Value.changedAt path change v) >>= _).run n = _
    rw [EStateM.run_bind]
    dsimp only
    cases Value.changedAt path change v with
    | error reason => rfl
    | ok r => rfl

theorem valueAt_sorted {n : Node} (hn : n.Sorted P) {place : Place} {v : Value}
    (found : valueAt n place = .ok v) : v.Sorted P := by
  cases place with
  | properties =>
    cases found
    exact hn.spec.properties
  | repeatChannels =>
    cases found
    exact hn.spec.repeatChannels
  | options =>
    have data := hn.spec.data
    rw [valueAt] at found
    cases slot : n.data with
    | empty =>
      rw [slot] at found
      cases found
    | other w =>
      rw [slot] at found
      cases found
    | reference r =>
      rw [slot] at found data
      cases found
      exact data.2 r rfl

theorem withValueAt_sorted {n : Node} (hn : n.Sorted P) {v : Value} (hv : v.Sorted P)
    (place : Place) : (withValueAt n v place).Sorted P := by
  obtain ⟨⟨properties, data, channels⟩, children, child⟩ := hn
  cases place with
  | properties => exact ⟨⟨hv, data, channels⟩, children, child⟩
  | repeatChannels => exact ⟨⟨properties, data, hv⟩, children, child⟩
  | options =>
    have options : (n.data.withOptions v).Sorted P := by
      cases slot : n.data with
      | empty => exact DataSlot.sorted_empty
      | other w =>
        rw [slot] at data
        exact data
      | reference r =>
        rw [slot] at data
        exact DataSlot.sorted_reference data.1.1 data.1.2 hv
    exact ⟨⟨properties, options, channels⟩, children, child⟩

/-- What a change of sorted nodes leaves of one: a sorted node, and as changed objects only such as
a write can change. -/
def Leaves (P : Rule) (n : Node) (change : Edit (List Value)) : Prop :=
  match change.run n with
  | .ok objects m => m.Sorted P ∧ ∀ object ∈ objects, object.Sorted P ∧ object.changes = true
  | .error _ m => m = n

theorem changePlace_leaves {n : Node} (hn : n.Sorted P) {place : Place} {path : List Value}
    {change : Value → Except Misuse Value}
    (changes : ∀ v r, valueAt n place = .ok v → v.Sorted P →
      Value.changedAt path change v = .ok r → Value.Changed P r.1 r.2) :
    Leaves P n (changePlace place path change) := by
  rw [Leaves, run_changePlace]
  cases found : valueAt n place with
  | error reason => rfl
  | ok v =>
    simp only
    cases done : Value.changedAt path change v with
    | error reason => rfl
    | ok r =>
      have left := changes v r found (valueAt_sorted hn found) done
      exact ⟨withValueAt_sorted hn left.sorted place, left.objects⟩

theorem write_leaves {n : Node} (hn : n.Sorted P) {w : Write} (h : w.Sorted P) :
    Leaves P n (write w) := by
  have ⟨⟨properties, data, channels⟩, children, child⟩ := hn
  cases w with
  | properties v => exact ⟨⟨⟨h, data, channels⟩, children, child⟩, List.forall_mem_nil _⟩
  | repeatChannels v => exact ⟨⟨⟨properties, data, h⟩, children, child⟩, List.forall_mem_nil _⟩
  | data slot => exact ⟨⟨⟨properties, h, channels⟩, children, child⟩, List.forall_mem_nil _⟩
  | children v => exact ⟨⟨⟨properties, data, channels⟩, h, child⟩, List.forall_mem_nil _⟩
  | child v => exact ⟨⟨⟨properties, data, channels⟩, children, h⟩, List.forall_mem_nil _⟩
  | inside place path v =>
    obtain ⟨nonempty, keys, value⟩ := h
    exact changePlace_leaves hn fun w r _ sorted done => sorted.written nonempty keys value done
  | remove place path =>
    exact changePlace_leaves hn fun w r _ sorted done => sorted.removed h done

/-- Taking hold of a list or a dictionary gives it a name that a write can change. -/
theorem named_leaves {n : Node} (hn : n.Sorted P) {place : Place} {path : List Value}
    {part : Value} (leads : (valueAt n place >>= Value.partAt path) = .ok part)
    (collection : part.isCollection = true) {id : Identity} (fits : P id true) :
    Leaves P n (changePlace place path (Value.namedAt path id)) := by
  refine changePlace_leaves hn fun v r found sorted done => ?_
  rw [found] at leads
  exact sorted.namedAt leads (Value.changes_of_isCollection collection) fits done

end Edit

/-! ### Entries along a path -/

theorem Value.Sorted.entriesAlong {v : Value} (h : v.Sorted P) {names : List String}
    {e : Value × String} (mem : e ∈ v.entriesAlong names) :
    e.1.Sorted P ∧ e.1.changes = true := by
  induction names generalizing v with
  | nil => exact (List.not_mem_nil mem).elim
  | cons name names ih =>
    obtain ⟨id, c⟩ := v
    cases c with
    | dict entries =>
      rw [Value.entriesAlong, List.mem_cons] at mem
      rcases mem with rfl | mem
      · exact ⟨h, rfl⟩
      · cases held : Dict.get? entries (.string name) with
        | none =>
          rw [held] at mem
          exact (List.not_mem_nil mem).elim
        | some w =>
          rw [held] at mem
          exact ih ((Value.sorted_dict.1 h).2.get? held) mem
    | _ => exact (List.not_mem_nil mem).elim

/-- The dictionaries that paths lead through in a sorted node are such as a write can change. -/
theorem Node.Sorted.entriesAlong {n : Node} (h : n.Sorted P)
    {paths : List (Place × List String)} {e : Value × String} (mem : e ∈ n.entriesAlong paths) :
    e.1.Sorted P ∧ e.1.changes = true := by
  obtain ⟨⟨place, names⟩, _, mem⟩ := List.mem_flatMap.1 mem
  cases found : Edit.valueAt n place with
  | error reason =>
    simp only [found] at mem
    exact (List.not_mem_nil mem).elim
  | ok v =>
    simp only [found] at mem
    exact (Edit.valueAt_sorted h found).entriesAlong mem

/-! ### Renewal -/

section Renewal

variable {object : Identity} {change : Value → Value}

theorem Shared.value_renewed (object : Identity) (change : Value → Value) (held : Shared) :
    (held.renewed object change).value =
      ⟨some ((Value.renewed object change held.value).identity?.getD held.id),
        (Value.renewed object change held.value).content⟩ := rfl

theorem Shared.renewed_of_eq {held : Shared}
    (same : Value.renewed object change held.value = held.value) :
    held.renewed object change = held := by
  rw [Shared.renewed, same]
  rfl

theorem Shared.within_renewed (holding : Value.Holding P change) {held : Shared}
    (h : held.value.Within P) : (held.renewed object change).value.Within P := by
  have new : (Value.renewed object change held.value).Within P := h.renewed holding
  rw [Shared.value_renewed]
  refine new.rename fun i same => ?_
  cases Option.some.inj same
  generalize Value.renewed object change held.value = v at new
  obtain ⟨id, content⟩ := v
  cases id with
  | none => exact h held.id (held.value.mem_ids_self rfl)
  | some j => exact new j (Value.mem_ids_self _ rfl)

theorem DataSlot.Sorted.renewed (holding : Value.Holding P change)
    (keeps : ∀ v : Value, v.Sorted P → (Value.renewed object change v).Sorted P)
    {slot : DataSlot} (h : slot.Sorted P) : (slot.renewed object change).Sorted P := by
  cases slot with
  | empty => exact h
  | other v =>
    have common : v.Within P := h.1
    exact ⟨common.renewed holding, fun r eq => (nomatch eq)⟩
  | reference r =>
    obtain ⟨⟨url, values⟩, options⟩ := h
    refine DataSlot.sorted_reference (url.renewed holding) (fun held mem => ?_)
      (keeps _ (options r rfl))
    obtain ⟨source, there, rfl⟩ := Option.map_eq_some_iff.1 mem
    exact Shared.within_renewed holding (values source there)

end Renewal

namespace Node

variable {object : Identity} {change : Value → Value} {n : Node}

/-- An object that may stand nowhere in a node leaves the node as it is. -/
theorem Sorted.renewed_of_foreign (h : n.Sorted P) (foreign : ¬P.holds object) :
    n.renewed object change = n := by
  have all (v : Value) (hv : v.Within P) : Value.renewed object change v = v :=
    Value.renewed_of_not_mem fun mem => foreign (hv object mem)
  have data : n.data.renewed object change = n.data := by
    have held := h.spec.data
    cases slot : n.data with
    | empty => rfl
    | other v =>
      rw [slot] at held
      exact congrArg DataSlot.other (all v held.1)
    | reference r =>
      rw [slot] at held
      obtain ⟨⟨url, values⟩, options⟩ := held
      have inline : r.values.map (Shared.renewed object change) = r.values := by
        cases source : r.values with
        | none => rfl
        | some held =>
          exact congrArg some (Shared.renewed_of_eq (all _ (values held source)))
      refine congrArg DataSlot.reference ?_
      rw [DataReference.renewed, all _ url, inline, all _ (options r rfl).within]
  rw [Node.renewed, Spec.renewed, all _ h.spec.properties.within, data,
    all _ h.spec.repeatChannels.within, all _ h.children, all _ h.child]

/-- A sorted node stays sorted when an object is changed wherever it stands, if whatever a path may
come to does. -/
theorem Sorted.renewed (holding : Value.Holding P change)
    (keeps : ∀ v : Value, v.Sorted P → (Value.renewed object change v).Sorted P)
    (h : n.Sorted P) : (Node.renewed object change n).Sorted P :=
  ⟨⟨keeps _ h.spec.properties, h.spec.data.renewed holding keeps, keeps _ h.spec.repeatChannels⟩,
    h.children.renewed holding, h.child.renewed holding⟩

end Node

/-! ### Copies -/

/-- Something holds of what a node has in common with its copies, apart from its channels. -/
def Node.Common (Q : Value → Prop) (n : Node) : Prop :=
  n.data.Common Q ∧ Q n.children ∧ Q n.child

theorem Node.Common.imp₂ {n : Node} {Q Q' R : Value → Prop} (h : n.Common Q) (h' : n.Common Q')
    (implies : ∀ v, Q v → Q' v → R v) : n.Common R :=
  ⟨h.1.imp₂ h'.1 implies, implies _ h.2.1 h'.2.1, implies _ h.2.2 h'.2.2⟩

theorem Node.Sorted.common {n : Node} (h : n.Sorted P) : n.Common (Value.Within P) :=
  ⟨h.spec.data.1, h.children, h.child⟩

/-- No channel that a repeated axis is bound to is something in which a write can change
something. -/
def Spec.BindsPlainly (s : Spec) : Prop :=
  ∀ entries, Dict.ofValue s.repeatChannels = .ok entries →
    ∀ e ∈ entries, e.1.changes = false ∧ e.2.changes = false

theorem DataSlot.Sorted.copied {slot copy : DataSlot} (h : slot.Sorted P)
    (common : slot.Common (Value.Within P')) {k : Nat} (implies : ∀ i, P i false → P' i false)
    (fresh : ∀ i b, P i b → P' (.copy i k) b) (copied : slot.copied (some k) = .ok copy) :
    copy.Sorted P' := by
  cases slot with
  | empty =>
    cases copied
    exact DataSlot.sorted_empty
  | reference r =>
    cases copied
    exact DataSlot.sorted_reference common.1 common.2 ((h.2 r rfl).copied implies fresh).2
  | other v =>
    obtain ⟨w, self, copied⟩ := bind_eq_ok_iff.1 copied
    cases copied
    exact ⟨Value.Within.selfCopy common self, fun r eq => (nomatch eq)⟩

/-- The copy of what a node holds is sorted by a rule that sorts the copies of objects like them,
and what lasts like itself. The channels are not copied, so none of them may be able to change,
unless the rule sorts them all like themselves; and the data are the same. -/
theorem Spec.Sorted.copied {s t : Spec} (h : s.Sorted P) {j k : Nat}
    (plain : s.BindsPlainly ∨ ∀ i b, P i b → P' i b) (common : s.data.Common (Value.Within P'))
    (implies : ∀ i, P i false → P' i false)
    (fresh : ∀ i b, P i b → P' (.copy i j) b ∧ P' (.copy i k) b)
    (copy : s.copied (some j) (some k) = .ok t) : t.Sorted P' := by
  obtain ⟨entries, data, channels, slot, rfl⟩ := Spec.copied_eq_ok copy
  have first := (h.properties.copied implies fun i b sorted => (fresh i b sorted).1).2
  have second := h.data.copied common implies (fun i b sorted => (fresh i b sorted).2) slot
  have bound : Dict.Sorted P' entries := by
    intro e he
    obtain ⟨key, value⟩ := Dict.Sorted.ofValue h.repeatChannels channels e he
    rcases plain with plain | same
    · obtain ⟨key_plain, value_plain⟩ := plain entries channels e he
      exact ⟨key.of_unchanging key_plain implies, value.of_unchanging value_plain implies⟩
    · exact ⟨key.imp same, value.imp same⟩
  exact ⟨first, second, Value.sorted_newDict bound⟩

end ChartTree
