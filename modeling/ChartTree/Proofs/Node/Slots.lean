import ChartTree.Node.Call
import ChartTree.Proofs.Data.Rendering
import ChartTree.Proofs.Node.Shape

/-!
# Slots of a node

A node is a record of slots, each of which can be read and written: its data, its inner nodes,
single properties, channel definitions and repeated axes. Writing a slot is read back there and
nowhere else. A call is decided by the kind of the node and its arguments alone; one that goes
through writes one slot, and one that is refused leaves the node as it is.
-/

namespace ChartTree

/-- A property that is written as a whole. -/
inductive Entry where
  | mark
  | transform
  | projection
  | simple (p : Property)
deriving DecidableEq, Repr

def Entry.key : Entry → String
  | .mark => "mark"
  | .transform => "transform"
  | .projection => "projection"
  | .simple p => p.key

/-- A place of a node that a call writes. -/
inductive Slot where
  | data
  | inner
  | entry (e : Entry)
  | channel (c : Channel)
  | axis (a : Axis)
deriving DecidableEq, Repr

/-- What a slot holds: the list and the single place of inner nodes, the fields and the channel of
an axis, and one value or none in the others. -/
def Slot.Content : Slot → Type
  | .data => DataSlot
  | .inner => Value × Value
  | .entry _ | .channel _ => Option Value
  | .axis _ => Option Value × Option Value

/-! ### Fields of a dictionary -/

/-- The dictionary with something under a text, or with nothing there. -/
def Dict.assign (d : Dict) (key : String) : Option Value → Dict
  | some v => Dict.insert d (.string key) v
  | none => Dict.erase d (.string key)

namespace Value

/-- What stands under a text in something that may be absent. -/
def fieldIn? (held? : Option Value) (key : String) : Option Value :=
  held?.bind (·.field? key)

def assign (v : Value) (key : String) (new : Option Value) : Value :=
  match v with
  | ⟨id, .dict d⟩ => ⟨id, .dict (Dict.assign d key new)⟩
  | v => v

/-- The value with a change of what stands under a text. -/
def update (v : Value) (key : String) (change : Value → Value) : Value :=
  match v.field? key with
  | some w => v.assign key (some (change w))
  | none => v

end Value

namespace Dict

variable (d : Dict) {key other : String} (new : Option Value)

theorem get?_assign_self (key : String) : get? (d.assign key new) (.string key) = new := by
  cases new with
  | some v => exact get?_insert_self d key v
  | none => exact get?_erase_self d key

theorem get?_assign_of_ne (differ : key ≠ other) :
    get? (d.assign key new) (.string other) = get? d (.string other) := by
  cases new with
  | some v => exact get?_insert_of_ne d differ v
  | none => exact get?_erase_of_ne d differ

end Dict

namespace Value

variable {v : Value} {key other : String}

def IsDict (v : Value) : Prop :=
  ∃ d, v = .dict d

theorem field?_assign_self (h : v.IsDict) (key : String) (new : Option Value) :
    (v.assign key new).field? key = new := by
  obtain ⟨d, rfl⟩ := h
  exact d.get?_assign_self new key

theorem field?_assign_of_ne (h : v.IsDict) (differ : key ≠ other) (new : Option Value) :
    (v.assign key new).field? other = v.field? other := by
  obtain ⟨d, rfl⟩ := h
  exact d.get?_assign_of_ne new differ

theorem field?_update_self (h : v.IsDict) (key : String) (change : Value → Value) :
    (v.update key change).field? key = (v.field? key).map change := by
  rw [update]
  cases held : v.field? key with
  | none => exact held
  | some w => exact field?_assign_self h key _

theorem field?_update_of_ne (h : v.IsDict) (differ : key ≠ other) (change : Value → Value) :
    (v.update key change).field? other = v.field? other := by
  rw [update]
  cases v.field? key with
  | none => rfl
  | some w => exact field?_assign_of_ne h differ _

theorem update_dict {d : Dict} {w : Value} (held : Dict.get? d (.string key) = some w)
    (change : Value → Value) :
    update (.dict d) key change = .dict (Dict.insert d (.string key) (change w)) := by
  have found : (Value.dict d).field? key = some w := held
  rw [update, found]
  exact rfl

end Value

/-! ### Keys -/

theorem Property.key_injective {p q : Property} (h : p.key = q.key) : p = q := by
  revert h
  cases p <;> cases q <;> decide

theorem Axis.name_injective {a b : Axis} (h : a.name = b.name) : a = b := by
  revert h
  cases a <;> cases b <;> decide

namespace Entry

theorem key_not_mem_mapKeys (e : Entry) : e.key ∉ mapKeys := by
  cases e with
  | simple p => cases p <;> decide
  | _ => decide

theorem key_injective {e f : Entry} (h : e.key = f.key) : e = f := by
  have simple : ∀ p : Property, (simple p).key ∉ ["mark", "transform", "projection"] := by
    intro p
    cases p <;> decide
  cases e with
  | simple p =>
    cases f with
    | simple q => rw [Property.key_injective h]
    | _ => exact absurd (h ▸ (by decide)) (simple p)
  | _ =>
    cases f with
    | simple q => exact absurd (h.symm ▸ (by decide)) (simple q)
    | _ => first | rfl | exact absurd h (by decide)

end Entry

theorem Kind.channelsKey_ne_repeat (k : Kind) : k.channelsKey ≠ "repeat" := by
  cases k <;> decide

theorem Kind.channelsKey_eq_encoding_iff {k : Kind} (carries : k.carriesChannels = true) :
    k.channelsKey = "encoding" ↔ k = .unit ∨ k = .layer := by
  revert carries
  cases k <;> decide

theorem Kind.channelsKey_eq_facet_iff (k : Kind) : k.channelsKey = "facet" ↔ k = .facet := by
  cases k <;> decide

theorem Entry.key_ne {e : Entry} {key : String} (mem : key ∈ mapKeys) : e.key ≠ key :=
  fun eq => e.key_not_mem_mapKeys (eq ▸ mem)

/-! ### Reading and writing -/

namespace Node

/-- What a node holds in a slot. -/
def read (n : Node) : (s : Slot) → s.Content
  | .data => n.data
  | .inner => (n.children, n.child)
  | .entry e => n.properties.field? e.key
  | .channel c => Value.fieldIn? (n.properties.field? n.kind.channelsKey) c.storedName
  | .axis a =>
    (Value.fieldIn? (n.properties.field? "repeat") a.name, n.repeatChannels.field? a.name)

/-- The node with other content in a slot. -/
def put (n : Node) : (s : Slot) → s.Content → Node
  | .data, place => { n with data := place }
  | .inner, (children, child) => { n with children := children, child := child }
  | .entry e, v => { n with properties := n.properties.assign e.key v }
  | .channel c, v =>
    { n with properties := n.properties.update n.kind.channelsKey (·.assign c.storedName v) }
  | .axis a, (fields, channel) =>
    { n with
      properties := n.properties.update "repeat" (·.assign a.name fields)
      repeatChannels := n.repeatChannels.assign a.name channel }

variable (n : Node) (s : Slot) (content : s.Content)

@[simp]
theorem kind_put : (n.put s content).kind = n.kind := by
  cases s <;> rfl

end Node

/-- A slot is one that nodes of a kind have, and it may hold a content there. -/
def Slot.Fits (k : Kind) : (s : Slot) → s.Content → Prop
  | .data, place => k.carriesData = true ∧
    (place = .empty ∨ ∃ r, place = .reference r ∧ r.OneSource)
  | .inner, (children, child) => ∃ nodes node?, children = .list (nodes.map Value.ofNode) ∧
    child = (node?.map Value.ofNode).getD .null ∧ k.Seats nodes node?
  | .entry _, _ => True
  | .channel c, v => k.carriesChannels = true ∧ (k = .facet → c.isFacetChannel = true) ∧
    ∀ w, v = some w → ∃ fields, w = .dict fields
  | .axis _, (fields, bound) => k = .repeated ∧ (fields = none ∧ bound = none ∨
    ∃ (names : List Value) (c : Channel), fields = some (.list names) ∧
      bound = some (.string c.storedName) ∧ ∀ v ∈ names, v.IsText)

namespace Spec.ShapedAs

variable {s : Spec} {entries definitions : Dict} {bindings : List AxisBinding}
  (h : s.ShapedAs entries definitions bindings)

include h

theorem field?_properties (key : String) :
    s.properties.field? key = Dict.get? entries (.string key) := by
  rw [h.properties]
  rfl

theorem get?_channelsKey (carries : s.kind.carriesChannels = true) :
    Dict.get? entries (.string s.kind.channelsKey) = some (.dict definitions) := by
  cases kind : s.kind <;> rw [kind] at carries
  · exact h.encoding.trans (if_pos (.inl kind))
  · exact h.encoding.trans (if_pos (.inr kind))
  · cases carries
  · cases carries
  · exact h.facet.trans (if_pos kind)
  · cases carries

theorem get?_repeat (kind : s.kind = .repeated) :
    Dict.get? entries (.string "repeat") =
      some (.dict (AxisBinding.repeatedFields bindings)) :=
  h.axes.trans (if_pos kind)

theorem isDict_of_mem {key : String} {w : Value} (held : s.properties.field? key = some w)
    (mem : key ∈ mapKeys) : w.IsDict := by
  rw [h.field?_properties] at held
  have maps : ∀ {p : Prop} [Decidable p] {d : Dict},
      (if p then some (Value.dict d) else none) = some w → w.IsDict := by
    intro p _ d eq
    split at eq <;> cases eq
    exact ⟨d, rfl⟩
  simp only [mapKeys, List.mem_cons, List.not_mem_nil, or_false] at mem
  rcases mem with rfl | rfl | rfl
  · exact maps (h.encoding.symm.trans held)
  · exact maps (h.facet.symm.trans held)
  · exact maps (h.axes.symm.trans held)

end Spec.ShapedAs

namespace Node

variable {n : Node} {s t : Slot}

theorem fieldIn?_assign_of_ne {held? : Option Value} {key other : String}
    (dict : ∀ w, held? = some w → w.IsDict) (differ : key ≠ other) (new : Option Value) :
    Value.fieldIn? (held?.map (·.assign key new)) other = Value.fieldIn? held? other := by
  cases held? with
  | none => rfl
  | some w => exact Value.field?_assign_of_ne (dict w rfl) differ new

theorem read_put_self (h : n.toSpec.Shaped) {content : s.Content} (fits : s.Fits n.kind content) :
    (n.put s content).read s = content := by
  obtain ⟨entries, definitions, bindings, shaped⟩ := h
  have dict : n.properties.IsDict := ⟨entries, shaped.properties⟩
  cases s with
  | data => rfl
  | inner => rfl
  | entry e => exact Value.field?_assign_self dict e.key content
  | channel c =>
    have held := (shaped.field?_properties _).trans (shaped.get?_channelsKey fits.1)
    show Value.fieldIn? ((n.properties.update n.kind.channelsKey _).field? n.kind.channelsKey)
      c.storedName = content
    rw [Value.field?_update_self dict, held]
    exact Value.field?_assign_self ⟨definitions, rfl⟩ c.storedName content
  | axis a =>
    obtain ⟨fields, channel⟩ := content
    have held := (shaped.field?_properties _).trans (shaped.get?_repeat fits.1)
    show (Value.fieldIn? ((n.properties.update "repeat" _).field? "repeat") a.name,
      (n.repeatChannels.assign a.name channel).field? a.name) = (fields, channel)
    rw [Value.field?_update_self dict, held,
      Value.field?_assign_self ⟨_, shaped.channels⟩ a.name channel]
    exact congrArg (·, channel)
      (Value.field?_assign_self (v := .dict _) ⟨_, rfl⟩ a.name fields)

theorem read_put_of_ne (h : n.toSpec.Shaped) (content : s.Content) (differ : s ≠ t) :
    (n.put s content).read t = n.read t := by
  obtain ⟨entries, definitions, bindings, shaped⟩ := h
  have dict : n.properties.IsDict := ⟨entries, shaped.properties⟩
  cases s with
  | data => cases t <;> first | rfl | exact absurd rfl differ
  | inner => cases t <;> first | rfl | exact absurd rfl differ
  | entry e =>
    have other {key : String} (apart : e.key ≠ key) :
        (n.properties.assign e.key content).field? key = n.properties.field? key :=
      Value.field?_assign_of_ne dict apart content
    cases t with
    | data => rfl
    | inner => rfl
    | entry f => exact other fun same => differ (congrArg Slot.entry (Entry.key_injective same))
    | channel c =>
      exact congrArg (Value.fieldIn? · c.storedName)
        (other (Entry.key_ne n.kind.channelsKey_mem_mapKeys))
    | axis a =>
      have apart : e.key ≠ "repeat" := Entry.key_ne (by decide)
      exact congrArg (Value.fieldIn? · a.name, n.repeatChannels.field? a.name) (other apart)
  | channel c =>
    have other {key : String} (apart : n.kind.channelsKey ≠ key) :
        (n.properties.update n.kind.channelsKey (·.assign c.storedName content)).field? key =
          n.properties.field? key := Value.field?_update_of_ne dict apart _
    cases t with
    | data => rfl
    | inner => rfl
    | entry f => exact other (Entry.key_ne n.kind.channelsKey_mem_mapKeys).symm
    | channel d =>
      have apart : c.storedName ≠ d.storedName :=
        fun same => differ (congrArg Slot.channel (Channel.storedName_injective same))
      show Value.fieldIn? ((n.properties.update n.kind.channelsKey _).field? n.kind.channelsKey)
        d.storedName = _
      rw [Value.field?_update_self dict]
      exact fieldIn?_assign_of_ne
        (fun w held => shaped.isDict_of_mem held n.kind.channelsKey_mem_mapKeys) apart content
    | axis a =>
      exact congrArg (Value.fieldIn? · a.name, n.repeatChannels.field? a.name)
        (other n.kind.channelsKey_ne_repeat)
  | axis a =>
    obtain ⟨fields, channel⟩ := content
    have other {key : String} (apart : "repeat" ≠ key) :
        (n.properties.update "repeat" (·.assign a.name fields)).field? key =
          n.properties.field? key := Value.field?_update_of_ne dict apart _
    cases t with
    | data => rfl
    | inner => rfl
    | entry f => exact other (Entry.key_ne (by decide)).symm
    | channel d =>
      exact congrArg (Value.fieldIn? · d.storedName) (other n.kind.channelsKey_ne_repeat.symm)
    | axis b =>
      have apart : a.name ≠ b.name :=
        fun same => differ (congrArg Slot.axis (Axis.name_injective same))
      show (Value.fieldIn? ((n.properties.update "repeat" _).field? "repeat") b.name,
        (n.repeatChannels.assign a.name channel).field? b.name) = _
      rw [Value.field?_update_self dict,
        Value.field?_assign_of_ne ⟨_, shaped.channels⟩ apart channel]
      exact congrArg (·, n.repeatChannels.field? b.name) (fieldIn?_assign_of_ne
        (fun w held => shaped.isDict_of_mem held (by decide)) apart fields)

end Node

/-! ### Axes -/

namespace AxisBinding

variable (part : AxisBinding → Value) (bindings : List AxisBinding) (b : AxisBinding)

/-- The bindings with another one for an axis, in its place or at the end. -/
def bind : List AxisBinding → AxisBinding → List AxisBinding
  | [], b => [b]
  | c :: rest, b => if c.axis = b.axis then b :: rest else c :: bind rest b

def unbind (a : Axis) : List AxisBinding :=
  bindings.filter (·.axis ≠ a)

theorem insert_underAxes :
    Dict.insert (underAxes part bindings) (.string b.axis.name) (part b) =
      underAxes part (bind bindings b) := by
  induction bindings with
  | nil => rfl
  | cons c rest ih =>
    by_cases same : c.axis = b.axis
    · rw [bind, if_pos same]
      have content : (Value.string c.axis.name).content = .string b.axis.name := by rw [same]; rfl
      refine (Dict.insert_cons_of_content content).trans ?_
      show (Value.string c.axis.name, part b) :: underAxes part rest = _
      rw [same]
      rfl
    · rw [bind, if_neg same]
      have content : (Value.string c.axis.name).content ≠ .string b.axis.name :=
        fun eq => same (Axis.name_injective (Content.string.inj eq))
      exact (Dict.insert_cons_of_content_ne content).trans (congrArg _ ih)

theorem erase_underAxes (a : Axis) :
    Dict.erase (underAxes part bindings) (.string a.name) =
      underAxes part (unbind bindings a) := by
  induction bindings with
  | nil => rfl
  | cons c rest ih =>
    by_cases same : c.axis = a
    · have content : (Value.string c.axis.name).content = .string a.name := by rw [same]; rfl
      rw [unbind, List.filter_cons_of_neg (by simp [same])]
      exact (Dict.erase_cons_of_content content).trans ih
    · have content : (Value.string c.axis.name).content ≠ .string a.name :=
        fun eq => same (Axis.name_injective (Content.string.inj eq))
      rw [unbind, List.filter_cons_of_pos (by simpa using same)]
      exact (Dict.erase_cons_of_content_ne content).trans (congrArg _ ih)

variable {bindings b}

theorem mem_bind {x : AxisBinding} (mem : x ∈ bind bindings b) : x = b ∨ x ∈ bindings := by
  induction bindings with
  | nil => exact .inl (List.mem_singleton.1 mem)
  | cons c rest ih =>
    rw [bind] at mem
    split at mem
    · rcases List.mem_cons.1 mem with rfl | mem
      · exact .inl rfl
      · exact .inr (List.mem_cons_of_mem _ mem)
    · rcases List.mem_cons.1 mem with rfl | mem
      · exact .inr (List.mem_cons_self ..)
      · exact (ih mem).imp_right (List.mem_cons_of_mem _)

theorem nodup_axes_bind (distinct : (bindings.map axis).Nodup) :
    ((bind bindings b).map axis).Nodup := by
  induction bindings with
  | nil => exact List.nodup_cons.2 ⟨List.not_mem_nil, List.nodup_nil⟩
  | cons c rest ih =>
    obtain ⟨absent, rest_distinct⟩ := List.nodup_cons.1 distinct
    rw [bind]
    split
    · rename_i same
      exact List.nodup_cons.2 ⟨same ▸ absent, rest_distinct⟩
    · rename_i differ
      refine List.nodup_cons.2 ⟨fun mem => ?_, ih rest_distinct⟩
      obtain ⟨x, hx, eq⟩ := List.mem_map.1 mem
      rcases mem_bind hx with rfl | hx
      · exact differ eq.symm
      · exact absent (List.mem_map.2 ⟨x, hx, eq⟩)

theorem nodup_axes_unbind (distinct : (bindings.map axis).Nodup) (a : Axis) :
    ((unbind bindings a).map axis).Nodup :=
  distinct.sublist (List.Sublist.map _ List.filter_sublist)

end AxisBinding

/-! ### Shape -/

theorem Dict.Defines.assign {k : Kind} {definitions : Dict} (h : definitions.Defines k)
    {c : Channel} {v : Option Value} (fits : (Slot.channel c).Fits k v) :
    Dict.Defines k (definitions.assign c.storedName v) := by
  obtain ⟨_, may, dict⟩ := fits
  cases v with
  | none => exact fun e he => h e (Dict.mem_of_mem_erase he)
  | some w =>
    obtain ⟨fields, rfl⟩ := dict w rfl
    rintro ⟨key, value⟩ he
    rcases Dict.mem_insert he with he | ⟨content, rfl, rfl | ⟨f, hf, rfl⟩⟩
    · exact h _ he
    · exact ⟨c, fields, rfl, may⟩
    · obtain ⟨d, _, rfl, _⟩ := h f hf
      exact ⟨c, fields, by rw [← Content.string.inj content], may⟩

namespace Spec.ShapedAs

variable {s : Spec} {entries definitions : Dict} {bindings : List AxisBinding}
  (h : s.ShapedAs entries definitions bindings)

include h

theorem assign_entry (e : Entry) (v : Option Value) :
    { s with properties := s.properties.assign e.key v : Spec }.ShapedAs (entries.assign e.key v)
      definitions bindings :=
  have apart {key : String} (mem : key ∈ mapKeys) :=
    Dict.get?_assign_of_ne entries v (Entry.key_ne (e := e) mem)
  { h with
    properties := by
      show s.properties.assign e.key v = _
      rw [h.properties]
      rfl
    encoding := (apart (by decide)).trans h.encoding
    facet := (apart (by decide)).trans h.facet
    axes := (apart (by decide)).trans h.axes }

theorem assign_channel {c : Channel} {v : Option Value} (fits : (Slot.channel c).Fits s.kind v) :
    { s with
      properties := s.properties.update s.kind.channelsKey (·.assign c.storedName v) : Spec
      }.ShapedAs
      (Dict.insert entries (.string s.kind.channelsKey) (.dict (definitions.assign c.storedName v)))
      (definitions.assign c.storedName v) bindings := by
  have held := h.get?_channelsKey fits.1
  have written {p : Prop} [Decidable p] {key : String}
      (before : Dict.get? entries (.string key) = if p then some (.dict definitions) else none)
      (iff : p ↔ s.kind.channelsKey = key) :
      Dict.get? (Dict.insert entries (.string s.kind.channelsKey)
        (.dict (definitions.assign c.storedName v))) (.string key) =
        if p then some (.dict (definitions.assign c.storedName v)) else none := by
    by_cases here : p
    · rw [if_pos here, ← iff.1 here]
      exact Dict.get?_insert_self ..
    · rw [if_neg here, Dict.get?_insert_of_ne _ (mt iff.2 here), before, if_neg here]
  refine { h with properties := ?_, encoding := ?_, facet := ?_, axes := ?_, defines := ?_ }
  · show s.properties.update s.kind.channelsKey _ = _
    rw [h.properties]
    exact Value.update_dict held _
  · exact written h.encoding (Kind.channelsKey_eq_encoding_iff fits.1).symm
  · exact written h.facet (Kind.channelsKey_eq_facet_iff s.kind).symm
  · exact (Dict.get?_insert_of_ne entries s.kind.channelsKey_ne_repeat _).trans h.axes
  · exact h.defines.assign fits

theorem assign_axis (kind : s.kind = .repeated) {a : Axis} {fields bound : Option Value}
    {changed : List AxisBinding}
    (repeated : (AxisBinding.repeatedFields bindings).assign a.name fields =
      AxisBinding.repeatedFields changed)
    (channels : (AxisBinding.boundChannels bindings).assign a.name bound =
      AxisBinding.boundChannels changed)
    (distinct : (changed.map AxisBinding.axis).Nodup)
    (texts : ∀ b ∈ changed, ∀ v ∈ b.fields, v.IsText) :
    { s with
      properties := s.properties.update "repeat" (·.assign a.name fields)
      repeatChannels := s.repeatChannels.assign a.name bound : Spec }.ShapedAs
      (Dict.insert entries (.string "repeat") (.dict (AxisBinding.repeatedFields changed)))
      definitions changed := by
  have held := h.get?_repeat kind
  have apart {key : String} (differ : "repeat" ≠ key) :=
    Dict.get?_insert_of_ne entries differ (.dict (AxisBinding.repeatedFields changed))
  refine { h with
    properties := ?_
    encoding := (apart (by decide)).trans h.encoding
    facet := (apart (by decide)).trans h.facet
    axes := ?_
    channels := ?_
    distinct := distinct
    texts := texts
    unbound := fun other => absurd kind other }
  · show s.properties.update "repeat" _ = _
    rw [h.properties, Value.update_dict held, ← repeated]
    rfl
  · exact (Dict.get?_insert_self ..).trans (if_pos kind).symm
  · show s.repeatChannels.assign a.name bound = _
    rw [h.channels, ← channels]
    rfl

end Spec.ShapedAs

/-- A node keeps its shape where a slot that it has takes a content that fits. -/
theorem Node.Shaped.put {n : Node} (h : n.Shaped) {s : Slot} {content : s.Content}
    (fits : s.Fits n.kind content) : (n.put s content).Shaped := by
  obtain ⟨⟨entries, definitions, bindings, shaped⟩, inner⟩ := h
  cases s with
  | data =>
    obtain ⟨carries, place⟩ := fits
    exact ⟨⟨entries, definitions, bindings,
      { shaped with data := place.imp_right fun one => ⟨carries, one⟩ }⟩, inner⟩
  | inner => exact ⟨⟨entries, definitions, bindings, shaped⟩, fits⟩
  | entry e => exact ⟨⟨_, _, _, shaped.assign_entry e content⟩, inner⟩
  | channel c => exact ⟨⟨_, _, _, shaped.assign_channel fits⟩, inner⟩
  | axis a =>
    obtain ⟨fields, bound⟩ := content
    obtain ⟨kind, ⟨rfl, rfl⟩ | ⟨names, c, rfl, rfl, texts⟩⟩ := fits
    · exact ⟨⟨_, _, _, shaped.assign_axis kind
        (AxisBinding.erase_underAxes _ bindings a) (AxisBinding.erase_underAxes _ bindings a)
        (AxisBinding.nodup_axes_unbind shaped.distinct a)
        fun b hb => shaped.texts b (List.mem_filter.1 hb).1⟩, inner⟩
    · let b : AxisBinding := ⟨a, names, c⟩
      have bound_texts : ∀ x ∈ AxisBinding.bind bindings b, ∀ v ∈ x.fields, v.IsText := by
        intro x hx
        rcases AxisBinding.mem_bind hx with rfl | hx
        · exact texts
        · exact shaped.texts x hx
      exact ⟨⟨_, _, _, shaped.assign_axis kind
        (AxisBinding.insert_underAxes _ bindings b) (AxisBinding.insert_underAxes _ bindings b)
        (AxisBinding.nodup_axes_bind shaped.distinct) bound_texts⟩, inner⟩

end ChartTree
