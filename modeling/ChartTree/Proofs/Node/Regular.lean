import ChartTree.Node.Construction
import ChartTree.Proofs.Value.Fields

/-!
# Regular nodes

What the setters leave in a node: dictionaries in the places of dictionaries, properties under the
keys that setters write and no others, data on units and facets only, nodes in the places of nodes.
The dictionaries that the setters write in are made by them and held once. A fresh node is regular,
a copy of what a regular node holds is regular, and every setter keeps nodes regular and of their
kind, whether it goes through or is refused.
-/

namespace ChartTree

/-- Every entry of a dictionary stands under one of the names. -/
def Dict.Under (names : List String) (d : Dict) : Prop :=
  ∀ e ∈ d, ∃ name ∈ names, e.1 = .string name

/-- The keys under which setters write properties. -/
def propertyKeys : List String :=
  ["mark", "encoding", "facet", "repeat", "transform", "projection"] ++
    Property.all.map Property.key

/-- The keys under which a node keeps a dictionary of definitions or of axes. -/
def mapKeys : List String :=
  ["encoding", "facet", "repeat"]

theorem Kind.channelsKey_mem_mapKeys (k : Kind) : k.channelsKey ∈ mapKeys := by
  cases k <;> decide

theorem Property.key_not_mem_mapKeys (p : Property) : p.key ∉ mapKeys := by
  cases p <;> decide

/-- A reference as it is made from a source: an address that is a text or an inline collection, and
options under different names, none of them that of the address or the collection. -/
structure DataReference.Regular (r : DataReference) : Prop where
  source : r.values = none → ∃ s, r.url.content = .string s
  options : ∃ id fields, r.options = ⟨id, .dict (Dict.ofFields fields)⟩ ∧
    (fields.map Prod.fst).Nodup ∧ ∀ key ∈ DataReference.reservedKeys, key ∉ fields.map Prod.fst

/-- A dictionary under texts without an identity, like all that stands in it. -/
def Value.IsUnshared (v : Value) : Prop :=
  ∃ parts : Dict, v = .dict parts ∧ ∀ e ∈ parts, e.1.IsText ∧ e.2.identity? = none

/-- The properties and the dictionaries of definitions and axes in them have no identity. -/
structure Spec.Unshared (s : Spec) : Prop where
  properties : s.properties.identity? = none
  maps : ∀ key ∈ mapKeys, ∀ v, s.properties.field? key = some v → v.IsUnshared

/-- What setters leave in a node apart from its inner nodes. -/
structure Spec.Regular (s : Spec) : Prop where
  properties : ∃ id entries, s.properties = ⟨id, .dict entries⟩ ∧ Dict.Under propertyKeys entries
  data : s.data = .empty ∨
    s.kind.carriesData = true ∧ ∃ r, s.data = .reference r ∧ r.Regular
  repeatChannels : ∃ id entries, s.repeatChannels = ⟨id, .dict entries⟩ ∧
    ∀ e ∈ entries, e.2.IsText
  unshared : s.Unshared

/-- What setters leave in a node. -/
structure Node.Regular (n : Node) : Prop where
  spec : n.toSpec.Regular
  children : ∃ id, ∃ nodes : List NodeRef, n.children = ⟨id, .list (nodes.map Value.ofNode)⟩
  child : n.child = .null ∨ ∃ m, n.child = .ofNode m

/-- A regular node whose dictionary of channels has no identity either. -/
structure Node.Unshared (n : Node) : Prop where
  regular : n.Regular
  channels : n.repeatChannels.identity? = none

/-! ### Dictionaries under names -/

namespace Dict.Under

variable {names : List String} {d : Dict}

/-- Nothing stands under a text that is none of the names. -/
theorem get?_eq_none (h : d.Under names) {name : String} (other : name ∉ names) :
    Dict.get? d (.string name) = none := by
  rw [Dict.get?_eq_none_iff]
  intro e he content
  obtain ⟨key, mem, eq⟩ := h e he
  rw [eq] at content
  have same : key = name := by simpa [Value.content] using content
  exact other (same ▸ mem)

theorem insert (h : d.Under names) {name : String} (mem : name ∈ names) (v : Value) :
    (Dict.insert d (.string name) v).Under names := by
  intro e he
  rcases Dict.key_of_mem_insert he with eq | ⟨f, hf, eq⟩
  · exact ⟨name, mem, eq⟩
  · obtain ⟨key, hkey, hf⟩ := h f hf
    exact ⟨key, hkey, eq.symm.trans hf⟩

theorem erase (h : d.Under names) (key : Value) : (Dict.erase d key).Under names :=
  fun e he => h e (Dict.mem_of_mem_erase he)

theorem copied (h : d.Under names) (occasion : Option Nat) :
    Dict.Under names (Value.copiedEntries occasion d) := by
  intro e he
  obtain ⟨f, hf, eq⟩ := Dict.key_of_mem_copiedEntries he
  obtain ⟨key, mem, hkey⟩ := h f hf
  exact ⟨key, mem, by rw [eq, hkey, Value.copied_string]⟩

end Dict.Under

/-! ### Dictionaries held once -/

theorem Value.copyIdentity_of_none {v : Value} (h : v.identity? = none) (occasion : Option Nat) :
    Value.copyIdentity occasion v = none := by
  rw [Value.copyIdentity, h]
  split <;> rfl

theorem Value.identity?_copied_of_none {v : Value} (h : v.identity? = none)
    (occasion : Option Nat) : (Value.copied occasion v).identity? = none := by
  have kept := Value.copyIdentity_of_none h occasion
  obtain ⟨id, c⟩ := v
  cases c <;> exact kept

namespace Value.IsUnshared

variable {v new : Value}

theorem identity?_eq (h : v.IsUnshared) : v.identity? = none := by
  obtain ⟨parts, rfl, _⟩ := h
  rfl

theorem empty : (Value.dict []).IsUnshared :=
  ⟨[], rfl, List.forall_mem_nil _⟩

theorem withEntry (h : v.IsUnshared) (key : String) (fresh : new.identity? = none) {w : Value}
    (written : v.withEntry (.string key) new = .ok w) : w.IsUnshared := by
  obtain ⟨parts, rfl, unshared⟩ := h
  cases written
  refine ⟨_, rfl, fun e he => ?_⟩
  rcases Dict.mem_insert he with old | ⟨text, eq, _⟩
  · exact unshared e old
  · exact ⟨⟨key, text⟩, (congrArg Value.identity? eq).trans fresh⟩

theorem withoutName (h : v.IsUnshared) (key : String) {w : Value}
    (removed : v.withoutName key = .ok w) : w.IsUnshared := by
  obtain ⟨parts, rfl, unshared⟩ := h
  cases removed
  exact ⟨_, rfl, fun e he => unshared e (Dict.mem_of_mem_erase he)⟩

theorem copied (h : v.IsUnshared) (occasion : Option Nat) :
    (Value.copied occasion v).IsUnshared := by
  obtain ⟨parts, rfl, unshared⟩ := h
  refine ⟨Value.copiedEntries occasion parts, rfl, fun e he => ?_⟩
  obtain ⟨f, hf, rfl⟩ := Dict.mem_copiedEntries he
  obtain ⟨⟨s, text⟩, fresh⟩ := unshared f hf
  exact ⟨⟨s, Value.content_copied_eq_string.2 text⟩,
    Value.identity?_copied_of_none fresh occasion⟩

end Value.IsUnshared

/-! ### Fresh nodes and copies -/

/-- A fresh node has empty dictionaries of definitions and axes. -/
theorem Spec.fresh_unshared (kind : Kind) (schemaUrl : String) :
    (Spec.fresh kind schemaUrl).Unshared where
  properties := rfl
  maps := by
    intro key mem v found
    simp only [mapKeys, List.mem_cons, List.not_mem_nil, or_false] at mem
    rcases mem with rfl | rfl | rfl <;> cases kind <;> cases found <;> exact .empty

theorem Node.fresh_regular (kind : Kind) (schemaUrl : String) :
    (Node.fresh kind schemaUrl).Regular where
  spec :=
    { properties := ⟨none, Spec.freshProperties kind schemaUrl, rfl, by
        intro e he
        cases kind <;>
          simp only [Spec.freshProperties, Spec.kindProperties, Dict.ofFields, List.map_cons,
            List.map_nil, List.mem_cons, List.not_mem_nil, or_false] at he <;>
          (rcases he with rfl | rfl | rfl) <;> exact ⟨_, by decide, rfl⟩⟩
      data := .inl rfl
      repeatChannels := ⟨none, [], rfl, List.forall_mem_nil _⟩
      unshared := Spec.fresh_unshared kind schemaUrl }
  children := ⟨none, [], rfl⟩
  child := .inl rfl

theorem Node.fresh_unshared (kind : Kind) (schemaUrl : String) :
    (Node.fresh kind schemaUrl).Unshared :=
  ⟨Node.fresh_regular kind schemaUrl, rfl⟩

theorem DataReference.Regular.copied {r : DataReference} (h : r.Regular) (occasion : Option Nat) :
    (r.copied occasion).Regular where
  source := h.source
  options := by
    obtain ⟨id, fields, eq, distinct, free⟩ := h.options
    have names : (fields.map fun field => (field.1, Value.copied occasion field.2)).map Prod.fst =
        fields.map Prod.fst := by
      rw [List.map_map]
      rfl
    refine ⟨Value.copyIdentity occasion r.options,
      fields.map fun field => (field.1, Value.copied occasion field.2), ?_, ?_, ?_⟩
    · show Value.copied occasion r.options = _
      rw [eq, Value.copied, Dict.copiedEntries_ofFields]
    · rwa [names]
    · rwa [names]

namespace Spec.Unshared

variable {s : Spec}

theorem insert (h : s.Unshared) {id : Option Identity} {entries : Dict}
    (eq : s.properties = ⟨id, .dict entries⟩) {key : String} {v : Value}
    (fits : key ∈ mapKeys → v.IsUnshared) :
    Spec.Unshared { s with properties := ⟨id, .dict (Dict.insert entries (.string key) v)⟩ } where
  properties := by
    have once := h.properties
    rwa [eq] at once
  maps := by
    intro other mem w found
    replace found :
      Dict.get? (Dict.insert entries (.string key) v) (.string other) = some w := found
    by_cases same : key = other
    · subst same
      rw [Dict.get?_insert_self] at found
      exact Option.some.inj found ▸ fits mem
    · rw [Dict.get?_insert_of_ne _ same] at found
      exact h.maps other mem w (by rw [eq]; exact found)

theorem erase (h : s.Unshared) {id : Option Identity} {entries : Dict}
    (eq : s.properties = ⟨id, .dict entries⟩) (key : String) :
    Spec.Unshared { s with properties := ⟨id, .dict (Dict.erase entries (.string key))⟩ } where
  properties := by
    have once := h.properties
    rwa [eq] at once
  maps := by
    intro other mem w found
    replace found : Dict.get? (Dict.erase entries (.string key)) (.string other) = some w := found
    by_cases same : key = other
    · subst same
      rw [Dict.get?_erase_self] at found
      cases found
    · rw [Dict.get?_erase_of_ne _ same] at found
      exact h.maps other mem w (by rw [eq]; exact found)

end Spec.Unshared

/-- A copy of what is held once is held once. -/
theorem Spec.Unshared.copied {s t : Spec} (h : s.Unshared) {occasion : Option Nat}
    (properties : t.properties = Value.copied occasion s.properties) : t.Unshared where
  properties := by
    rw [properties]
    exact Value.identity?_copied_of_none h.properties occasion
  maps := by
    intro key mem v found
    rw [properties, Value.field?_copied] at found
    obtain ⟨w, held, rfl⟩ := Option.map_eq_some_iff.1 found
    exact (h.maps key mem w held).copied occasion

/-- A regular node can be copied, and what the copy holds is regular. -/
theorem Spec.Regular.copied {s : Spec} (h : s.Regular) (first second : Option Nat) :
    ∃ t, s.copied first second = .ok t ∧ t.Regular ∧ t.kind = s.kind ∧
      t.properties = Value.copied first s.properties ∧ t.repeatChannels.identity? = none := by
  obtain ⟨_, entries, channels, texts⟩ := h.repeatChannels
  obtain ⟨id', properties, eq, under⟩ := h.properties
  have properties_regular : ∃ id entries, Value.copied first s.properties = ⟨id, .dict entries⟩ ∧
      Dict.Under propertyKeys entries := by
    refine ⟨Value.copyIdentity first s.properties, Value.copiedEntries first properties, ?_,
      under.copied first⟩
    rw [eq, Value.copied]
  rcases h.data with empty | ⟨carries, r, reference, regular⟩
  · refine ⟨{ s with
      properties := Value.copied first s.properties
      data := .empty
      repeatChannels := .dict entries }, ?_, ⟨properties_regular, .inl rfl,
      ⟨none, entries, rfl, texts⟩, h.unshared.copied rfl⟩, rfl, rfl, rfl⟩
    rw [Spec.copied, channels, empty]
    rfl
  · refine ⟨{ s with
      properties := Value.copied first s.properties
      data := .reference (r.copied second)
      repeatChannels := .dict entries }, ?_,
      ⟨properties_regular, .inr ⟨carries, _, rfl, regular.copied second⟩,
        ⟨none, entries, rfl, texts⟩, h.unshared.copied rfl⟩, rfl, rfl, rfl⟩
    rw [Spec.copied, channels, reference]
    rfl

theorem Spec.copied_eq_ok {s t : Spec} {first second : Option Nat}
    (copy : s.copied first second = .ok t) :
    ∃ channels data, Dict.ofValue s.repeatChannels = .ok channels ∧
      s.data.copied second = .ok data ∧ t = { s with
        properties := Value.copied first s.properties
        data := data
        repeatChannels := .dict channels } := by
  obtain ⟨channels, bound, copy⟩ := bind_eq_ok_iff.1 copy
  obtain ⟨data, slot, made⟩ := bind_eq_ok_iff.1 copy
  exact ⟨channels, data, bound, slot, (Except.ok.inj made).symm⟩

end ChartTree
