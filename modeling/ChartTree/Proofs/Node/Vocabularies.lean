import ChartTree.Proofs.Node.Fluent
import ChartTree.Proofs.Session.Built
import ChartTree.Proofs.Value.Objects

/-!
# Types from vocabularies

Marks, projections and channel definitions have a type each, taken from a vocabulary: the marks, the
data types, any text. A setter checks the type that it is given and then writes the options beside
it over what it checked, so an option can put another type in its place. A call that goes through
keeps the types of a node in their vocabularies exactly if it takes something away or gives no
option of that kind.
-/

namespace ChartTree

/-- Where the type of something is taken from. -/
inductive Vocabulary where
  | marks
  | dataTypes
  | texts
deriving DecidableEq, Repr

/-- A value is a text of a vocabulary. -/
def Vocabulary.Has : Vocabulary → Value → Prop
  | .marks, v => ∃ m : Mark, v.content = .string m.name
  | .dataTypes, v => ∃ t : DataType, v.content = .string t.name
  | .texts, v => v.IsText

namespace Value

/-- Something has a type of a vocabulary. -/
def TypedBy (v : Value) (vocabulary : Vocabulary) : Prop :=
  ∃ type, v.field? "type" = some type ∧ vocabulary.Has type

/-- A value is a dictionary of definitions that have types of a vocabulary. -/
def AllTypedBy (v : Value) (vocabulary : Vocabulary) : Prop :=
  ∃ definitions, v.content = .dict definitions ∧ ∀ e ∈ definitions, e.2.TypedBy vocabulary

/-- What stands under a key of an object has types of the vocabulary that belongs to the key: a
mark, a projection or channel definitions. -/
def TypedUnder (key : String) (v : Value) : Prop :=
  match key with
  | "mark" => v.TypedBy .marks
  | "projection" => v.TypedBy .texts
  | "encoding" | "facet" => v.AllTypedBy .dataTypes
  | _ => True

/-- In an object the mark, the projection and every channel definition that there are have types of
their vocabularies. -/
def ClosedTypes (object : Value) : Prop :=
  ∀ key v, object.field? key = some v → v.TypedUnder key

end Value

def Node.ClosedTypes (n : Node) : Prop :=
  n.properties.ClosedTypes

/-- What is written into a slot has a type of the vocabulary that belongs to the slot, if one
does. -/
def Slot.Typed : (s : Slot) → s.Content → Prop
  | .entry e, v => ∀ w, v = some w → w.TypedUnder e.key
  | .channel _, v => ∀ w, v = some w → w.TypedBy .dataTypes
  | _, _ => True

namespace Call

/-- The vocabulary from which a call takes the type that it writes, and the options beside it. -/
def typing? : Call → Option (Vocabulary × Dict)
  | .mark _ options => some (.marks, options)
  | .encode _ _ _ options => some (.dataTypes, options)
  | .projection _ options => some (.texts, options)
  | _ => none

/-- A call takes something away, or it has no option that puts a type in the place of the checked
one, other than one of the same vocabulary. -/
def KeepsType (call : Call) : Prop :=
  call.clears = true ∨ ∀ vocabulary options, call.typing? = some (vocabulary, options) →
    ∀ type, Dict.get? options (.string "type") = some type → vocabulary.Has type

end Call

/-! ### Typed values -/

/-- The keys to which a vocabulary belongs. -/
def typedKeys : List String :=
  ["mark", "projection", "encoding", "facet"]

namespace Value

variable {v w : Value} {key : String}

theorem typedUnder_of_not_mem (other : key ∉ typedKeys) (v : Value) : v.TypedUnder key := by
  simp only [typedKeys, List.mem_cons, List.not_mem_nil, or_false, not_or] at other
  obtain ⟨mark, projection, encoding, facet⟩ := other
  rw [TypedUnder] <;> first
    | exact trivial
    | assumption

theorem typedUnder_channelsKey (k : Kind) :
    v.TypedUnder k.channelsKey ↔ v.AllTypedBy .dataTypes := by
  cases k <;> exact Iff.rfl

theorem allTypedBy_dict {definitions : Dict} {vocabulary : Vocabulary} :
    (dict definitions).AllTypedBy vocabulary ↔ ∀ e ∈ definitions, e.2.TypedBy vocabulary :=
  ⟨fun ⟨_, same, typed⟩ => Content.dict.inj same ▸ typed, fun typed => ⟨definitions, rfl, typed⟩⟩

/-- Whether types are in their vocabularies depends on what stands under their keys alone. -/
theorem closedTypes_congr (same : ∀ key ∈ typedKeys, w.field? key = v.field? key) :
    w.ClosedTypes ↔ v.ClosedTypes := by
  refine forall_congr' fun key => ?_
  by_cases mem : key ∈ typedKeys
  · rw [same key mem]
  · exact iff_of_true (fun u _ => typedUnder_of_not_mem mem u)
      fun u _ => typedUnder_of_not_mem mem u

/-- Objects of which all types are in their vocabularies stay so with something else under a key
just if that is typed as the key demands. -/
theorem ClosedTypes.assign_iff (closed : v.ClosedTypes) (dict : v.IsDict) (key : String)
    (new : Option Value) :
    (v.assign key new).ClosedTypes ↔ ∀ w, new = some w → w.TypedUnder key := by
  constructor
  · intro h w eq
    exact h key w ((field?_assign_self dict key new).trans eq)
  · intro typed other w held
    by_cases here : key = other
    · subst here
      exact typed w ((field?_assign_self dict key new).symm.trans held)
    · exact closed other w ((field?_assign_of_ne dict here new).symm.trans held)

end Value

/-! ### Copies -/

namespace Value

variable {v : Value} (occasion : Option Nat)

theorem has_copied {vocabulary : Vocabulary} :
    vocabulary.Has (copied occasion v) ↔ vocabulary.Has v := by
  cases vocabulary <;> simp only [Vocabulary.Has, IsText, content_copied_eq_string]

theorem typedBy_copied {vocabulary : Vocabulary} :
    (copied occasion v).TypedBy vocabulary ↔ v.TypedBy vocabulary := by
  constructor
  · rintro ⟨type, held, has⟩
    rw [field?_copied] at held
    obtain ⟨w, here, rfl⟩ := Option.map_eq_some_iff.1 held
    exact ⟨w, here, (has_copied occasion).1 has⟩
  · rintro ⟨type, held, has⟩
    exact ⟨copied occasion type, by rw [field?_copied, held]; rfl, (has_copied occasion).2 has⟩

theorem allTypedBy_copied {vocabulary : Vocabulary} :
    (copied occasion v).AllTypedBy vocabulary ↔ v.AllTypedBy vocabulary := by
  obtain ⟨id, c⟩ := v
  cases c with
  | dict d =>
    have entries : (∀ e ∈ copiedEntries occasion d, e.2.TypedBy vocabulary) ↔
        ∀ e ∈ d, e.2.TypedBy vocabulary := by
      rw [copiedEntries_eq_map, List.forall_mem_map]
      simp only [typedBy_copied]
    constructor
    · rintro ⟨_, content, typed⟩
      cases content
      exact ⟨d, rfl, entries.1 typed⟩
    · rintro ⟨_, content, typed⟩
      cases content
      exact ⟨_, rfl, entries.2 typed⟩
  | _ =>
    constructor <;>
      · rintro ⟨_, content, _⟩
        cases content

theorem typedUnder_copied {key : String} :
    (copied occasion v).TypedUnder key ↔ v.TypedUnder key := by
  simp only [TypedUnder]
  split
  · exact typedBy_copied occasion
  · exact typedBy_copied occasion
  · exact allTypedBy_copied occasion
  · exact allTypedBy_copied occasion
  · exact Iff.rfl

/-- A copy has types of their vocabularies just where the original has. -/
theorem closedTypes_copied : (copied occasion v).ClosedTypes ↔ v.ClosedTypes := by
  refine forall_congr' fun key => ?_
  rw [field?_copied]
  cases v.field? key with
  | none => exact iff_of_true (fun _ => nofun) fun _ => nofun
  | some w => simp only [Option.map_some, Option.some.injEq, forall_eq', typedUnder_copied]

end Value

/-! ### Slots -/

theorem Dict.exists_mem_of_get? {d : Dict} {name : String} {v : Value}
    (held : Dict.get? d (.string name) = some v) :
    ∃ e ∈ d, e.1.content = .string name ∧ e.2 = v := by
  rw [Dict.get?, Option.map_eq_some_iff] at held
  obtain ⟨e, found, rfl⟩ := held
  have like : (Value.string name).alike e.1 = true := by simpa using List.find?_some found
  exact ⟨e, List.mem_of_find?_eq_some found, Value.alike_string.1 like, rfl⟩

/-- Typed definitions with another one for a channel are typed just if that one is. -/
theorem Dict.typed_assign_iff {definitions : Dict} {vocabulary : Vocabulary}
    (typed : ∀ e ∈ definitions, e.2.TypedBy vocabulary) (key : String) (new : Option Value) :
    (∀ e ∈ Dict.assign definitions key new, e.2.TypedBy vocabulary) ↔
      ∀ w, new = some w → w.TypedBy vocabulary := by
  cases new with
  | none => exact iff_of_true (fun e mem => typed e (mem_of_mem_erase mem)) fun _ => nofun
  | some w =>
    constructor
    · intro all v eq
      cases eq
      obtain ⟨e, mem, _, rfl⟩ := exists_mem_of_get? (get?_insert_self definitions key w)
      exact all e mem
    · intro has e mem
      rcases mem_insert mem with old | ⟨_, value, _⟩
      · exact typed e old
      · exact value ▸ has w rfl

namespace Node

variable {n : Node} {s : Slot} {content : s.Content}

/-- A node of which all types are in their vocabularies stays so with other content in a slot just
if that is typed as the slot demands. -/
theorem closedTypes_put (h : n.Shaped) (closed : n.ClosedTypes) (fits : s.Fits n.kind content) :
    (n.put s content).ClosedTypes ↔ s.Typed content := by
  obtain ⟨entries, definitions, bindings, shaped⟩ := h.spec
  have dict : n.properties.IsDict := ⟨entries, shaped.properties⟩
  cases s with
  | data | inner => exact iff_of_true closed trivial
  | entry e => exact closed.assign_iff dict e.key content
  | channel c =>
    have held := (shaped.field?_properties _).trans (shaped.get?_channelsKey fits.1)
    obtain ⟨_, same, typed⟩ := (Value.typedUnder_channelsKey n.kind).1 (closed _ _ held)
    cases same
    show (n.properties.update n.kind.channelsKey _).ClosedTypes ↔ _
    rw [Value.update, held]
    refine (closed.assign_iff dict _ _).trans ?_
    refine Iff.trans ?_ (Dict.typed_assign_iff typed c.storedName content)
    rw [← Value.allTypedBy_dict, ← Value.typedUnder_channelsKey n.kind]
    exact ⟨fun h => h _ rfl, fun h w eq => Option.some.inj eq ▸ h⟩
  | axis a =>
    obtain ⟨fields, bound⟩ := content
    refine iff_of_true ((Value.closedTypes_congr fun key mem => ?_).2 closed) trivial
    refine Value.field?_update_of_ne dict (fun same => ?_) _
    subst same
    revert mem
    decide

end Node

/-! ### Calls -/

namespace Edit

/-- What a definition says about its field does not stand under the name of its type. -/
theorem lookup_fieldArg {v : Value} {fields : List (String × Value)}
    (checked : fieldArg v = .ok fields) : fields.lookup "type" = none := by
  rw [fieldArg] at checked
  split at checked
  · cases checked
    rfl
  · cases checked
    split <;> rfl
  · split at checked <;> cases checked
    rfl

end Edit

/-- Options under different names over something typed leave it typed just if none of them gives
another type than one of the vocabulary. -/
theorem Dict.typedBy_merge {base : Dict} {vocabulary : Vocabulary} {type : Value}
    (held : Dict.get? base (.string "type") = some type) (has : vocabulary.Has type)
    {fields : List (String × Value)} (distinct : (fields.map Prod.fst).Nodup) :
    (Value.dict (Dict.merge base (Dict.ofFields fields))).TypedBy vocabulary ↔
      ∀ t, Dict.get? (Dict.ofFields fields) (.string "type") = some t → vocabulary.Has t := by
  have written := Dict.get?_merge_ofFields base distinct "type"
  rw [held, ← Dict.get?_ofFields] at written
  show (∃ t, Dict.get? (Dict.merge base _) _ = some t ∧ vocabulary.Has t) ↔ _
  rw [written]
  cases Dict.get? (Dict.ofFields fields) (.string "type") with
  | none => exact iff_of_true ⟨type, rfl, has⟩ fun _ => nofun
  | some t => simp

namespace Call

variable {k : Kind} {s : Slot} {content : s.Content}

/-- The options beside the type that a call writes stand under different names. -/
def Named (call : Call) : Prop :=
  ∀ vocabulary options, call.typing? = some (vocabulary, options) →
    ∃ fields, options = Dict.ofFields fields ∧ (fields.map Prod.fst).Nodup

theorem typed_absent (s : Slot) : s.Typed s.absent := by
  cases s with
  | entry e => exact fun _ => nofun
  | channel c => exact fun _ => nofun
  | _ => exact trivial

/-- A call without a type of its own writes nothing that has to be typed. -/
theorem typed_of_typing?_none {call : Call} (none : call.typing? = none)
    (verdict : call.verdict k = .ok ⟨s, content⟩) : s.Typed content := by
  have slot := (settles_of_verdict verdict).slot
  cases call with
  | mark | encode | projection => cases none
  | transform items =>
    cases slot
    exact fun w _ => Value.typedUnder_of_not_mem (by decide) w
  | property p value =>
    cases slot
    exact fun w _ => Value.typedUnder_of_not_mem (by cases p <;> decide) w
  | _ =>
    cases slot
    exact trivial

/-- A call with a type of its own writes its options over something with a type of the
vocabulary. -/
theorem typed_iff_of_typing? {call : Call} {vocabulary : Vocabulary} {options : Dict}
    (typing : call.typing? = some (vocabulary, options)) (given : call.clears = false)
    (verdict : call.verdict k = .ok ⟨s, content⟩) :
    ∃ base type, Dict.get? base (.string "type") = some type ∧ vocabulary.Has type ∧
      (s.Typed content ↔ (Value.dict (Dict.merge base options)).TypedBy vocabulary) := by
  have only {w : Value} {P : Value → Prop} : (∀ v, some w = some v → P v) ↔ P w :=
    ⟨fun h => h w rfl, fun h v eq => Option.some.inj eq ▸ h⟩
  cases call with
  | mark type _ =>
    cases typing
    obtain ⟨_, verdict⟩ := of_ensure_bind verdict
    rw [if_neg (by rw [show type.isNull = false from given]; decide)] at verdict
    obtain ⟨m, _, eq⟩ := of_bind verdict
    cases eq
    exact ⟨_, _, rfl, ⟨m, rfl⟩, only⟩
  | encode channel field dataType _ =>
    cases typing
    obtain ⟨_, verdict⟩ := of_ensure_bind verdict
    obtain ⟨c, _, verdict⟩ := of_bind verdict
    obtain ⟨_, verdict⟩ := of_ensure_bind verdict
    rw [if_neg (by rw [show field.isNull = false from given]; decide)] at verdict
    obtain ⟨binding, checked, verdict⟩ := of_bind verdict
    obtain ⟨type, _, eq⟩ := of_bind verdict
    cases eq
    refine ⟨_, .string type.name, ?_, ⟨type, rfl⟩, only⟩
    rw [Dict.get?_ofFields, List.lookup_append, Edit.lookup_fieldArg checked]
    rfl
  | projection type _ =>
    cases typing
    obtain ⟨_, verdict⟩ := of_ensure_bind verdict
    rw [if_neg (by rw [show type.isNull = false from given]; decide)] at verdict
    split at verdict
    · rename_i name content
      cases verdict
      exact ⟨_, _, rfl, ⟨name, content⟩, only⟩
    · cases verdict
  | _ => cases typing

/-- What a call writes is typed as its slot demands just if the call keeps the type. -/
theorem typed_iff_of_verdict {call : Call} (named : call.Named)
    (verdict : call.verdict k = .ok ⟨s, content⟩) : s.Typed content ↔ call.KeepsType := by
  cases typing : call.typing? with
  | none =>
    exact iff_of_true (typed_of_typing?_none typing verdict) (.inr fun vocabulary options eq =>
      nomatch typing.symm.trans eq)
  | some p =>
    obtain ⟨vocabulary, options⟩ := p
    cases clears : call.clears with
    | true =>
      have absent := (settles_of_verdict verdict).content
      rw [if_pos clears] at absent
      have same : content = s.absent := absent
      exact iff_of_true (same ▸ typed_absent s) (.inl clears)
    | false =>
      obtain ⟨base, type, held, has, typed⟩ := typed_iff_of_typing? typing clears verdict
      obtain ⟨fields, rfl, distinct⟩ := named vocabulary options typing
      rw [typed, Dict.typedBy_merge held has distinct, KeepsType, clears, typing]
      simp

variable {n : Node} (h : n.Shaped)

include h

/-- A call leaves all types of a node in their vocabularies just if it is refused or keeps the
type. -/
theorem closedTypes_on (closed : n.ClosedTypes) {call : Call} (named : call.Named) :
    (call.on n).ClosedTypes ↔ (call.answer n = .ok () → call.KeepsType) := by
  rw [call.on_eq h, call.answer_eq h]
  cases verdict : call.verdict n.kind with
  | error reason => exact iff_of_true closed fun through => by cases through
  | ok r =>
    obtain ⟨s, content⟩ := r
    have written := Node.closedTypes_put h closed (settles_of_verdict verdict).fits
    exact (written.trans (typed_iff_of_verdict named verdict)).trans
      ⟨fun keeps _ => keeps, fun keeps => keeps rfl⟩

end Call

/-! ### Fresh nodes and arguments -/

theorem Value.closedTypes_ofFields {fields : List (String × Value)}
    (typed : ∀ field ∈ fields, field.2.TypedUnder field.1) :
    (Value.dict (Dict.ofFields fields)).ClosedTypes := by
  intro key v held
  obtain ⟨_, among, content, rfl⟩ := Dict.exists_mem_of_get? held
  obtain ⟨field, mem, rfl⟩ := List.mem_map.1 among
  cases content
  exact typed field mem

theorem Node.fresh_closedTypes (kind : Kind) (url : String) : (fresh kind url).ClosedTypes := by
  have point : Value.TypedBy (.dict (Dict.ofFields [("type", Mark.point.name)])) .marks :=
    ⟨_, rfl, .point, rfl⟩
  have empty : Value.AllTypedBy (.dict []) .dataTypes := ⟨[], rfl, List.forall_mem_nil _⟩
  refine Value.closedTypes_ofFields (List.forall_mem_cons.2 ⟨trivial, ?_⟩)
  cases kind with
  | unit => exact List.forall_mem_cons.2 ⟨empty, List.forall_mem_singleton.2 point⟩
  | layer | facet => exact List.forall_mem_singleton.2 empty
  | repeated => exact List.forall_mem_singleton.2 trivial
  | hconcat | vconcat => exact List.forall_mem_nil _

namespace Arguments

variable {a : Arguments}

theorem takeOr_distinct (distinct : a.Distinct) (parameter : String) (default : Value) :
    (a.takeOr parameter default).2.Distinct := by
  rw [takeOr]
  cases taken : a.take? parameter with
  | none => exact distinct
  | some p => exact take?_distinct distinct taken

end Arguments

/-- The options of a call that arguments were bound to stand under different names. -/
theorem Method.named_of_bind? {method : Method} {args : Arguments} {call : Call}
    (distinct : args.Distinct) (fits : method.bind? args = some call) : call.Named := by
  intro vocabulary options typing
  cases method with
  | mark =>
    simp only [bind?, Option.bind_eq_bind, Option.bind_eq_some_iff, Option.pure_def,
      Option.some.injEq] at fits
    obtain ⟨⟨type, rest⟩, take, _, bound, rfl⟩ := fits
    cases typing
    exact Arguments.options?_distinct (Arguments.take?_distinct distinct take) bound
  | markOf m =>
    obtain ⟨_, bound, rfl⟩ := Option.map_eq_some_iff.1 fits
    cases typing
    exact Arguments.options?_distinct distinct bound
  | encode =>
    simp only [bind?, Option.bind_eq_bind, Option.bind_eq_some_iff, Option.pure_def,
      Option.some.injEq] at fits
    obtain ⟨⟨target, rest⟩, take, ⟨field, rest'⟩, take', _, bound, rfl⟩ := fits
    cases typing
    have left := Arguments.take?_distinct (Arguments.take?_distinct distinct take) take'
    exact Arguments.options?_distinct (Arguments.takeOr_distinct left _ _) bound
  | channel c =>
    simp only [bind?, Option.bind_eq_bind, Option.bind_eq_some_iff, Option.pure_def,
      Option.some.injEq] at fits
    obtain ⟨⟨field, rest⟩, take, _, bound, rfl⟩ := fits
    cases typing
    have left := Arguments.take?_distinct distinct take
    exact Arguments.options?_distinct (Arguments.takeOr_distinct left _ _) bound
  | projection =>
    simp only [bind?, Option.bind_eq_bind, Option.bind_eq_some_iff, Option.pure_def,
      Option.some.injEq] at fits
    obtain ⟨_, bound, rfl⟩ := fits
    cases typing
    exact Arguments.options?_distinct (Arguments.takeOr_distinct distinct _ _) bound
  | inner | transform =>
    obtain ⟨_, _, rfl⟩ := Option.map_eq_some_iff.1 fits
    cases typing
  | data =>
    simp only [bind?, Option.bind_eq_bind, Option.bind_eq_some_iff, Option.pure_def,
      Option.some.injEq] at fits
    obtain ⟨_, _, _, _, rfl⟩ := fits
    cases typing
  | bindAxis axis =>
    simp only [bind?, Option.bind_eq_bind, Option.bind_eq_some_iff] at fits
    obtain ⟨_, _, fits⟩ := fits
    split at fits
    · cases fits
      cases typing
    · cases fits
  | property p =>
    simp only [bind?, Option.bind_eq_bind, Option.bind_eq_some_iff] at fits
    obtain ⟨_, _, fits⟩ := fits
    split at fits
    · cases fits
      cases typing
    · cases fits

end ChartTree
