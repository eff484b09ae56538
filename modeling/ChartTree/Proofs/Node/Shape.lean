import ChartTree.Proofs.Node.Regular

/-!
# The shape of a node

Which of its places a node of each kind fills, and with what: the dictionaries of channel
definitions and repeated axes, the bound channels in step with the axes, the one source of its
data and its inner nodes. Fresh nodes have this shape, and copies of what they hold keep it.
-/

namespace ChartTree

/-- An axis of a repeat with its fields and the channel that it is bound to. -/
structure AxisBinding where
  axis : Axis
  fields : List Value
  channel : Channel

namespace AxisBinding

/-- A dictionary with one entry for each axis. -/
def underAxes (part : AxisBinding → Value) (bindings : List AxisBinding) : Dict :=
  bindings.map fun b => (.string b.axis.name, part b)

def repeatedFields (bindings : List AxisBinding) : Dict :=
  underAxes (fun b => .list b.fields) bindings

def boundChannels (bindings : List AxisBinding) : Dict :=
  underAxes (fun b => .string b.channel.storedName) bindings

/-- The fields are copied and the channel is shared. -/
def copied (occasion : Option Nat) (b : AxisBinding) : AxisBinding :=
  { b with fields := Value.copiedItems occasion b.fields }

theorem copiedEntries_repeatedFields (occasion : Option Nat) (bindings : List AxisBinding) :
    Value.copiedEntries occasion (repeatedFields bindings) =
      repeatedFields (bindings.map (copied occasion)) := by
  induction bindings with
  | nil => rfl
  | cons b bindings ih =>
    show Value.copiedEntries occasion
      ((.string b.axis.name, .list b.fields) :: repeatedFields bindings) = _
    rw [Value.copiedEntries, ih]
    rfl

theorem boundChannels_copied (occasion : Option Nat) (bindings : List AxisBinding) :
    boundChannels (bindings.map (copied occasion)) = boundChannels bindings := by
  rw [boundChannels, underAxes, List.map_map]
  rfl

theorem axes_copied (occasion : Option Nat) (bindings : List AxisBinding) :
    (bindings.map (copied occasion)).map axis = bindings.map axis := by
  rw [List.map_map]
  rfl

end AxisBinding

def Shared.IsCollection (s : Shared) : Prop :=
  (∃ items, s.content = .list items) ∨ (∃ items, s.content = .tuple items) ∨
    ∃ entries, s.content = .dict entries

/-- A reference has either an address or an inline collection, and options beside it. -/
structure DataReference.OneSource (r : DataReference) : Prop where
  source : r.url.IsText ∧ r.values = none ∨
    r.url = .null ∧ ∃ blob, r.values = some blob ∧ blob.IsCollection
  options : ∃ entries, r.options = .dict entries ∧
    ∀ key ∈ reservedKeys, Dict.get? entries (.string key) = none

/-- Every definition is a dictionary under the stored name of a channel that the kind has. -/
def Dict.Defines (k : Kind) (definitions : Dict) : Prop :=
  ∀ e ∈ definitions, ∃ c fields, e = (.string (Channel.storedName c), .dict fields) ∧
    (k = .facet → c.isFacetChannel = true)

/-- What a node holds apart from its inner nodes, with the entries of its dictionaries. -/
structure Spec.ShapedAs (s : Spec) (entries definitions : Dict) (bindings : List AxisBinding) :
    Prop where
  properties : s.properties = .dict entries
  encoding : Dict.get? entries (.string "encoding") =
    if s.kind = .unit ∨ s.kind = .layer then some (.dict definitions) else none
  facet : Dict.get? entries (.string "facet") =
    if s.kind = .facet then some (.dict definitions) else none
  axes : Dict.get? entries (.string "repeat") =
    if s.kind = .repeated then some (.dict (AxisBinding.repeatedFields bindings)) else none
  channels : s.repeatChannels = .dict (AxisBinding.boundChannels bindings)
  defines : definitions.Defines s.kind
  distinct : (bindings.map AxisBinding.axis).Nodup
  texts : ∀ b ∈ bindings, ∀ v ∈ b.fields, v.IsText
  unbound : s.kind ≠ .repeated → bindings = []
  data : s.data = .empty ∨
    s.kind.carriesData = true ∧ ∃ r, s.data = .reference r ∧ r.OneSource

def Spec.Shaped (s : Spec) : Prop :=
  ∃ entries definitions bindings, s.ShapedAs entries definitions bindings

/-- The inner nodes that a node of a kind may have: a list of them or a single one. -/
structure Kind.Seats (k : Kind) (nodes : List NodeRef) (node? : Option NodeRef) : Prop where
  concat : k.isConcat = false → nodes = []
  single : k.isSingle = false → node? = none
  layer : k = .layer → ∀ m ∈ nodes, m.kind.canLayer = true
  repeated : k = .repeated → ∀ m, node? = some m → m.kind.canRepeat = true

structure Node.Shaped (n : Node) : Prop where
  spec : n.toSpec.Shaped
  inner : ∃ nodes node?, n.children = .list (nodes.map Value.ofNode) ∧
    n.child = (node?.map Value.ofNode).getD .null ∧ n.kind.Seats nodes node?

/-- The dictionaries of a node of the proper shape are held once. -/
theorem Spec.Shaped.unshared {s : Spec} (h : s.Shaped) : s.Unshared := by
  obtain ⟨entries, definitions, bindings, shaped⟩ := h
  have defined : (Value.dict definitions).IsUnshared := by
    refine ⟨definitions, rfl, fun e he => ?_⟩
    obtain ⟨c, fields, rfl, _⟩ := shaped.defines e he
    exact ⟨⟨_, rfl⟩, rfl⟩
  have repeated : (Value.dict (AxisBinding.repeatedFields bindings)).IsUnshared := by
    refine ⟨_, rfl, fun e he => ?_⟩
    obtain ⟨b, _, rfl⟩ := List.mem_map.1 he
    exact ⟨⟨_, rfl⟩, rfl⟩
  refine ⟨by rw [shaped.properties]; rfl, fun key mem v found => ?_⟩
  rw [shaped.properties] at found
  replace found : Dict.get? entries (.string key) = some v := found
  simp only [mapKeys, List.mem_cons, List.not_mem_nil, or_false] at mem
  rcases mem with rfl | rfl | rfl
  · rw [shaped.encoding] at found
    split at found <;> cases found
    exact defined
  · rw [shaped.facet] at found
    split at found <;> cases found
    exact defined
  · rw [shaped.axes] at found
    split at found <;> cases found
    exact repeated

theorem Spec.Shaped.channels_once {s : Spec} (h : s.Shaped) :
    s.repeatChannels.identity? = none := by
  obtain ⟨entries, definitions, bindings, shaped⟩ := h
  rw [shaped.channels]
  rfl

/-! ### Fresh nodes -/

theorem Spec.fresh_shaped (kind : Kind) (schemaUrl : String) : (fresh kind schemaUrl).Shaped := by
  refine ⟨freshProperties kind schemaUrl, [], [], rfl, ?_, ?_, ?_, rfl, fun e he => ?_,
    List.nodup_nil, fun b hb => ?_, fun _ => rfl, .inl rfl⟩
  · cases kind <;> rfl
  · cases kind <;> rfl
  · cases kind <;> rfl
  · cases he
  · cases hb

theorem Kind.seats_none (k : Kind) : k.Seats [] none where
  concat _ := rfl
  single _ := rfl
  layer _ := fun m hm => by cases hm
  repeated _ := fun m hm => by cases hm

theorem Node.fresh_shaped (kind : Kind) (schemaUrl : String) : (fresh kind schemaUrl).Shaped :=
  ⟨Spec.fresh_shaped kind schemaUrl, [], none, rfl, rfl, kind.seats_none⟩

/-! ### Copies -/

namespace Value

theorem isText_of_mem_copiedItems {occasion : Option Nat} {vs : List Value}
    (texts : ∀ v ∈ vs, v.IsText) : ∀ v ∈ copiedItems occasion vs, v.IsText := by
  induction vs with
  | nil => exact fun v hv => by cases hv
  | cons w vs ih =>
    obtain ⟨first, rest⟩ := List.forall_mem_cons.1 texts
    rw [copiedItems]
    refine List.forall_mem_cons.2 ⟨?_, ih rest⟩
    obtain ⟨s, text⟩ := first
    exact ⟨s, content_copied_eq_string.2 text⟩

end Value

theorem Dict.Defines.copied {k : Kind} {definitions : Dict} (h : definitions.Defines k)
    (occasion : Option Nat) : Dict.Defines k (Value.copiedEntries occasion definitions) := by
  induction definitions with
  | nil => exact fun e he => by cases he
  | cons d definitions ih =>
    obtain ⟨first, rest⟩ := List.forall_mem_cons.1 h
    obtain ⟨c, fields, rfl, may⟩ := first
    rw [Value.copiedEntries, Value.copied_dict]
    exact List.forall_mem_cons.2 ⟨⟨c, _, rfl, may⟩, ih rest⟩

theorem DataReference.OneSource.copied {r : DataReference} (h : r.OneSource)
    (occasion : Option Nat) : (r.copied occasion).OneSource where
  source := h.source
  options := by
    obtain ⟨entries, eq, free⟩ := h.options
    refine ⟨Value.copiedEntries occasion entries, ?_, fun key mem => ?_⟩
    · rw [DataReference.copied, eq]
      exact Value.copied_dict occasion entries
    · rw [Dict.get?_copiedEntries, free key mem]
      rfl

theorem Spec.ShapedAs.copied {s : Spec} {entries definitions : Dict} {bindings : List AxisBinding}
    (h : s.ShapedAs entries definitions bindings) (first second : Option Nat) :
    ∃ t, s.copied first second = .ok t ∧ t.kind = s.kind ∧
      t.ShapedAs (Value.copiedEntries first entries) (Value.copiedEntries first definitions)
        (bindings.map (AxisBinding.copied first)) := by
  have data : ∃ d, s.data.copied second = .ok d ∧ (d = .empty ∨
      s.kind.carriesData = true ∧ ∃ r, d = .reference r ∧ r.OneSource) := by
    rcases h.data with empty | ⟨carries, r, reference, one⟩
    · exact ⟨.empty, by rw [empty]; rfl, .inl rfl⟩
    · exact ⟨_, by rw [reference]; rfl, .inr ⟨carries, _, rfl, one.copied second⟩⟩
  obtain ⟨d, copy, shaped⟩ := data
  have channels : Dict.ofValue s.repeatChannels = .ok (AxisBinding.boundChannels bindings) := by
    rw [h.channels]
    rfl
  refine ⟨{ s with
    properties := Value.copied first s.properties
    data := d
    repeatChannels := .dict (AxisBinding.boundChannels bindings) }, ?_, rfl, ?_⟩
  · rw [Spec.copied, channels, copy]
    rfl
  · refine ⟨?_, ?_, ?_, ?_, ?_, h.defines.copied first, ?_, ?_, ?_, shaped⟩
    · exact (congrArg (Value.copied first) h.properties).trans (Value.copied_dict first entries)
    · rw [Dict.get?_copiedEntries, h.encoding]
      split
      · exact congrArg some (Value.copied_dict first definitions)
      · rfl
    · rw [Dict.get?_copiedEntries, h.facet]
      split
      · exact congrArg some (Value.copied_dict first definitions)
      · rfl
    · rw [Dict.get?_copiedEntries, h.axes]
      split
      · rw [Option.map_some, Value.copied_dict, AxisBinding.copiedEntries_repeatedFields]
      · rfl
    · exact congrArg Value.dict (AxisBinding.boundChannels_copied first bindings).symm
    · rw [AxisBinding.axes_copied]
      exact h.distinct
    · intro b hb
      obtain ⟨a, ha, rfl⟩ := List.mem_map.1 hb
      exact Value.isText_of_mem_copiedItems (h.texts a ha)
    · intro other
      rw [h.unbound other]
      rfl

theorem Spec.Shaped.copied {s t : Spec} (h : s.Shaped) {first second : Option Nat}
    (copy : s.copied first second = .ok t) : t.Shaped ∧ t.kind = s.kind := by
  obtain ⟨entries, definitions, bindings, shaped⟩ := h
  obtain ⟨u, eq, kind, shaped⟩ := shaped.copied first second
  rw [copy] at eq
  cases eq
  exact ⟨⟨_, _, _, shaped⟩, kind⟩

end ChartTree
