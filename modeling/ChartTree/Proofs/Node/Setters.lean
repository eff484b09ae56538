import ChartTree.Proofs.Node.Regular

/-!
# What setters keep

A property of nodes is kept by an edit if the edit leaves it behind whether it goes through or is
refused. It is enough to look at the changes that the edit is put together from. Every setter keeps
nodes regular and of their kind.
-/

namespace ChartTree

namespace Edit

variable {α β : Type} {P : Node → Prop}

/-- An edit leaves nodes with a property behind, also where it is refused. -/
def Keeps (P : Node → Prop) (e : Edit α) : Prop :=
  ∀ n, P n → match e.run n with
    | .ok _ m => P m
    | .error _ m => P m

theorem Keeps.of_ok {e : Edit α} (h : Keeps P e) {n m : Node} {a : α} (hn : P n)
    (run : e.run n = .ok a m) : P m := by
  have kept := h n hn
  rwa [run] at kept

theorem Keeps.of_error {e : Edit α} (h : Keeps P e) {n m : Node} {reason : BuildError} (hn : P n)
    (run : e.run n = .error reason m) : P m := by
  have kept := h n hn
  rwa [run] at kept

theorem keeps_throw (reason : BuildError) : Keeps P (throw reason : Edit α) :=
  fun _ hn => hn

theorem keeps_bind {e : Edit α} {f : α → Edit β} (he : Keeps P e) (hf : ∀ a, Keeps P (f a)) :
    Keeps P (e >>= f) := by
  intro n hn
  have first := he n hn
  simp only [EStateM.run, bind, EStateM.bind] at first ⊢
  cases run : e n with
  | ok a m =>
    rw [run] at first
    exact hf a m first
  | error reason m =>
    rw [run] at first
    exact first

/-- What is read is the node itself, so it has the property. -/
theorem keeps_get {f : Node → Edit β} (hf : ∀ n, P n → Keeps P (f n)) : Keeps P (get >>= f) :=
  fun n hn => hf n hn n hn

theorem keeps_set {n : Node} (h : P n) : Keeps P (set n : Edit Unit) :=
  fun _ _ => h

theorem keeps_modify {g : Node → Node} (h : ∀ n, P n → P (g n)) :
    Keeps P (modify g : Edit Unit) :=
  fun n hn => h n hn

theorem keeps_require {condition : Bool} {reason : BuildError} {f : Unit → Edit β}
    (hf : condition = true → Keeps P (f ())) : Keeps P (require condition reason >>= f) := by
  cases condition with
  | false => exact keeps_throw reason
  | true => exact hf rfl

theorem keeps_checked {result : Except BuildError α} {f : α → Edit β}
    (hf : ∀ a, result = .ok a → Keeps P (f a)) : Keeps P (checked result >>= f) := by
  cases result with
  | error reason => exact keeps_throw reason
  | ok a => exact hf a rfl

theorem keeps_reached {result : Except Misuse α} {f : α → Edit β}
    (hf : ∀ a, result = .ok a → Keeps P (f a)) : Keeps P (reached result >>= f) := by
  cases result with
  | error reason => exact keeps_throw _
  | ok a => exact hf a rfl

/-! ### Changes of one place -/

variable {k : Kind}

/-- A node is regular, holds its dictionaries alone and is of a kind. -/
def RegularOf (k : Kind) (n : Node) : Prop :=
  n.Unshared ∧ n.kind = k

/-- What is written under the key of a dictionary of definitions or axes has to be unshared. -/
theorem keeps_put {key : String} (mem : key ∈ propertyKeys) {v : Value}
    (fits : key ∈ mapKeys → v.IsUnshared) : Keeps (RegularOf k) (put key v) := by
  refine keeps_get fun n hn => keeps_reached fun properties written => keeps_set ?_
  obtain ⟨⟨⟨⟨⟨id, entries, eq, under⟩, data, channels, unshared⟩, children, child⟩, once⟩, kind⟩ :=
    hn
  rw [eq] at written
  cases written
  exact ⟨⟨⟨⟨⟨id, _, rfl, under.insert mem v⟩, data, channels, unshared.insert eq fits⟩, children,
    child⟩, once⟩, kind⟩

theorem keeps_drop (key : String) : Keeps (RegularOf k) (drop key) := by
  refine keeps_get fun n hn => keeps_reached fun properties written => keeps_set ?_
  obtain ⟨⟨⟨⟨⟨id, entries, eq, under⟩, data, channels, unshared⟩, children, child⟩, once⟩, kind⟩ :=
    hn
  rw [eq] at written
  cases written
  exact ⟨⟨⟨⟨⟨id, _, rfl, under.erase _⟩, data, channels, unshared.erase eq key⟩, children,
    child⟩, once⟩, kind⟩

theorem keeps_putChannel (axis : Axis) (channel : String) :
    Keeps (RegularOf k) (putChannel axis channel) := by
  refine keeps_get fun n hn => keeps_reached fun channels written => keeps_set ?_
  obtain ⟨⟨⟨⟨properties, data, ⟨id, entries, eq, texts⟩, held, maps⟩, children, child⟩, once⟩,
    kind⟩ := hn
  rw [eq] at written once
  cases written
  refine ⟨⟨⟨⟨properties, data, ⟨id, _, rfl, fun e he => ?_⟩, held, maps⟩, children, child⟩, once⟩,
    kind⟩
  rcases Dict.mem_insert he with old | ⟨_, eq, _⟩
  · exact texts e old
  · exact ⟨channel, congrArg Value.content eq⟩

theorem keeps_dropChannel (axis : Axis) : Keeps (RegularOf k) (dropChannel axis) := by
  refine keeps_get fun n hn => keeps_reached fun channels written => keeps_set ?_
  obtain ⟨⟨⟨⟨properties, data, ⟨id, entries, eq, texts⟩, held, maps⟩, children, child⟩, once⟩,
    kind⟩ := hn
  rw [eq] at written once
  cases written
  exact ⟨⟨⟨⟨properties, data, ⟨id, _, rfl, fun e he => texts e (Dict.mem_of_mem_erase he)⟩, held,
    maps⟩, children, child⟩, once⟩, kind⟩

/-- What stands under the key of a dictionary of definitions or axes is unshared. -/
theorem keeps_held {n : Node} (hn : n.Regular) {key : String} (mem : key ∈ mapKeys)
    {f : Value → Edit Unit} (hf : ∀ v, v.IsUnshared → Keeps P (f v)) :
    Keeps P (reached (held n key) >>= f) := by
  refine keeps_reached fun v found => hf v (hn.spec.unshared.maps key mem v ?_)
  obtain ⟨id, entries, eq, _⟩ := hn.spec.properties
  have looked : Dict.lookUp? entries (.string key) = .ok (Dict.get? entries (.string key)) := rfl
  rw [held, eq] at found
  simp only [Value.entryAt, Value.content, looked, bind, Except.bind] at found
  rw [eq]
  show Dict.get? entries (.string key) = some v
  cases stands : Dict.get? entries (.string key) with
  | none =>
    rw [stands] at found
    cases found
  | some w =>
    rw [stands] at found
    exact congrArg some (Except.ok.inj found)

/-! ### Setters -/

/-- A reference made from a source with options under different names is regular. -/
theorem ofSource_regular {source : Shared} {fields : List (String × Value)} {r : DataReference}
    (distinct : (fields.map Prod.fst).Nodup)
    (made : DataReference.ofSource source (Dict.ofFields fields) = .ok r) : r.Regular := by
  simp only [DataReference.ofSource] at made
  split at made
  · cases made
  · rename_i unreserved
    have free : ∀ key ∈ DataReference.reservedKeys, key ∉ fields.map Prod.fst := by
      intro key mem among
      have absent : Dict.get? (Dict.ofFields fields) (.string key) = none := by
        simp only [Bool.not_eq_true', Bool.not_eq_false, List.isEmpty_iff,
          List.filter_eq_nil_iff, Dict.hasKey, Option.not_isSome_iff_eq_none] at unreserved
        exact unreserved key mem
      obtain ⟨field, hfield, eq⟩ := List.mem_map.1 among
      rw [Dict.get?_eq_none_iff] at absent
      have entry : (Value.string field.1, field.2) ∈ Dict.ofFields fields :=
        List.mem_map.2 ⟨field, hfield, rfl⟩
      exact absent _ entry (by rw [eq]; rfl)
    have options : ∃ id fields',
        Value.dict (Dict.ofFields fields) = ⟨id, .dict (Dict.ofFields fields')⟩ ∧
        (fields'.map Prod.fst).Nodup ∧
          ∀ key ∈ DataReference.reservedKeys, key ∉ fields'.map Prod.fst :=
      ⟨none, fields, rfl, distinct, free⟩
    split at made
    · rename_i s content
      cases made
      exact ⟨fun _ => ⟨s, content⟩, options⟩
    · cases made
      exact ⟨fun h => (Option.some_ne_none _ h).elim, options⟩
    · cases made
      exact ⟨fun h => (Option.some_ne_none _ h).elim, options⟩
    · cases made
      exact ⟨fun h => (Option.some_ne_none _ h).elim, options⟩
    · cases made

theorem keeps_data (source : Shared) {fields : List (String × Value)}
    (distinct : (fields.map Prod.fst).Nodup) :
    Keeps (RegularOf k) (data source (Dict.ofFields fields)) := by
  refine keeps_get fun n hn => keeps_require fun carries => ?_
  split
  · refine keeps_modify fun m hm => ?_
    obtain ⟨⟨⟨⟨properties, _, channels, once, maps⟩, children, child⟩, alone⟩, kind⟩ := hm
    exact ⟨⟨⟨⟨properties, .inl rfl, channels, once, maps⟩, children, child⟩, alone⟩, kind⟩
  · refine keeps_checked fun r made => keeps_modify fun m hm => ?_
    obtain ⟨⟨⟨⟨properties, _, channels, once, maps⟩, children, child⟩, alone⟩, kind⟩ := hm
    have carried : m.kind.carriesData = true := by
      rw [kind, ← hn.2]
      exact carries
    exact ⟨⟨⟨⟨properties, .inr ⟨carried, r, rfl, ofSource_regular distinct made⟩, channels, once,
      maps⟩, children, child⟩, alone⟩, kind⟩

theorem keeps_inner (args : List Value) : Keeps (RegularOf k) (inner args) := by
  have single : ∀ child : Value, (child = .null ∨ ∃ m, child = .ofNode m) →
      Keeps (RegularOf k) (modify fun n => { n with child := child }) := by
    intro child node
    refine keeps_modify fun n hn => ?_
    exact ⟨⟨⟨hn.1.regular.spec, hn.1.regular.children, node⟩, hn.1.channels⟩, hn.2⟩
  have many : ∀ nodes : List NodeRef,
      Keeps (RegularOf k)
        (modify fun n => { n with children := .list (nodes.map Value.ofNode) }) := by
    intro nodes
    refine keeps_modify fun n hn => ?_
    exact ⟨⟨⟨hn.1.regular.spec, ⟨none, nodes, rfl⟩, hn.1.regular.child⟩, hn.1.channels⟩, hn.2⟩
  refine keeps_get fun n _ => keeps_require fun _ => ?_
  split
  · refine keeps_modify fun n hn => ?_
    exact ⟨⟨⟨hn.1.regular.spec, ⟨none, [], rfl⟩, .inl rfl⟩, hn.1.channels⟩, hn.2⟩
  · refine keeps_checked fun nodes _ => ?_
    split
    · split
      · exact single .null (.inl rfl)
      · exact keeps_require fun _ => single _ (.inr ⟨_, rfl⟩)
    · split
      · exact keeps_throw _
      · exact many nodes

theorem keeps_mark (type : Value) (options : Dict) : Keeps (RegularOf k) (mark type options) := by
  refine keeps_get fun n _ => keeps_require fun _ => ?_
  split
  · exact keeps_drop "mark"
  · exact keeps_checked fun m _ => keeps_put (by decide) fun mem => absurd mem (by decide)

theorem channelsKey_mem (kind : Kind) : kind.channelsKey ∈ propertyKeys := by
  cases kind <;> decide

theorem keeps_encode (channel field dataType : Value) (options : Dict) :
    Keeps (RegularOf k) (encode channel field dataType options) := by
  refine keeps_get fun n hn => keeps_require fun _ => keeps_checked fun c _ =>
    keeps_require fun _ =>
      keeps_held hn.1.regular n.kind.channelsKey_mem_mapKeys fun channels once => ?_
  split
  · exact keeps_reached fun _ removed => keeps_put (channelsKey_mem n.kind)
      fun _ => once.withoutName c.storedName removed
  · exact keeps_checked fun _ _ => keeps_checked fun _ _ => keeps_reached fun _ written =>
      keeps_put (channelsKey_mem n.kind) fun _ => once.withEntry c.storedName rfl written

theorem keeps_bindAxis (axis : Axis) (channel fields : Value) :
    Keeps (RegularOf k) (bindAxis axis channel fields) := by
  refine keeps_get fun n hn => keeps_require fun _ => ?_
  split
  · exact keeps_held hn.1.regular (by decide) fun axes once => keeps_reached fun _ removed =>
      keeps_bind (keeps_put (by decide) fun _ => once.withoutName axis.name removed)
        fun _ => keeps_dropChannel axis
  · exact keeps_checked fun c _ => keeps_checked fun _ _ => keeps_held hn.1.regular (by decide)
      fun axes once => keeps_reached fun _ written =>
        keeps_bind (keeps_put (by decide) fun _ => once.withEntry axis.name rfl written)
          fun _ => keeps_putChannel axis c.storedName

theorem keeps_transform (items : List Value) : Keeps (RegularOf k) (transform items) := by
  rw [transform]
  split
  · exact keeps_drop "transform"
  · exact keeps_checked fun _ _ => keeps_put (by decide) fun mem => absurd mem (by decide)

theorem keeps_projection (type : Value) (options : Dict) :
    Keeps (RegularOf k) (projection type options) := by
  refine keeps_get fun n _ => keeps_require fun _ => ?_
  split
  · exact keeps_drop "projection"
  · split
    · exact keeps_put (by decide) fun mem => absurd mem (by decide)
    · exact keeps_throw _

theorem key_mem (p : Property) : p.key ∈ propertyKeys := by
  cases p <;> decide

theorem keeps_property (p : Property) (value : Value) :
    Keeps (RegularOf k) (property p value) := by
  refine keeps_get fun n _ => keeps_require fun _ => ?_
  split
  · exact keeps_drop p.key
  · split
    · exact keeps_require fun _ =>
        keeps_put (key_mem p) fun mem => absurd mem p.key_not_mem_mapKeys
    · exact keeps_throw _

end Edit

end ChartTree
