import ChartTree.Proofs.Chart.Assembly
import ChartTree.Proofs.Value.Copies
import ChartTree.Proofs.Value.Writing

/-!
# Binding in place

The channels of a repeated node are bound in the copy that the walk makes of the node, wherever
their definitions stand there. In what setters leave, every definition stands in one place and has
no identity. Binding a channel then comes to writing one definition, and it does not matter whether
the identities of the copy are released before that or afterwards.
-/

namespace ChartTree

namespace Chart

/-! ### Definitions that stand in one place -/

/-- The definition of a bound channel: an existing one with its field replaced, or a new one. -/
def boundDefinition (axis : Value) : Option Value → Except Misuse Value
  | none => .ok (newDefinition axis)
  | some v =>
    if v.isNull then .ok (newDefinition axis)
    else v.withEntry (.string "field") (axisField axis)

/-- The definitions of channels with that of one channel bound to an axis. -/
def definitionsWith (channel axis : Value) (held : Option Value) : Except Misuse Value := do
  let definitions ← match held with
    | none => .ok []
    | some v => v.entriesFor "get"
  let definition ← boundDefinition axis (← Dict.lookUp? definitions channel)
  pure (.dict (Dict.insert definitions channel definition))

/-- The object of a repeated node with a channel bound to an axis, if its definitions stand in one
place. -/
def withBindingApart (key : String) (channel axis inner : Value) : Except Misuse Value := do
  let fields ← inner.entriesFor "setdefault"
  let definitions ← definitionsWith channel axis (Dict.get? fields (.string key))
  pure (.dict (Dict.insert fields (.string key) definitions))

/-- The channel that an axis is bound to on a node of a kind, the absent value if there is none. -/
def boundChannel (kind : Kind) (channels axis : Value) : Except CompileError Value := do
  let bound ← (do Dict.lookUp? (← channels.entriesFor "get") axis).mapError .misuse
  let channel := bound.getD .null
  if kind = .facet then
    channel.lookable.mapError fun reason => .misuse (.notLookable reason)
    if !isFacetChannel channel then throw (.notFacetChannel channel)
  pure channel

/-- The object of a repeated node with the channel of an axis bound, if its definitions stand in
one place. -/
def bindAxisApart (kind : Kind) (channels inner axis : Value) : Except CompileError Value := do
  let channel ← boundChannel kind channels axis
  if channel.isNull then pure inner
  else (withBindingApart kind.channelsKey channel axis inner).mapError .misuse

/-- The object of a repeated node with the channels of all axes bound, if its definitions stand in
one place. -/
def bindAxesApart (own channels : Value) (kind : Kind) (inner : Value) :
    Except CompileError Value := do
  let axes ← (axesOf own).mapError .misuse
  axes.foldlM (bindAxisApart kind channels) inner

theorem withBindingApart_dict (key : String) (channel axis : Value) (id : Option Identity)
    (fields : Dict) :
    withBindingApart key channel axis ⟨id, .dict fields⟩ =
      (definitionsWith channel axis (Dict.get? fields (.string key))).map fun definitions =>
        .dict (Dict.insert fields (.string key) definitions) := rfl

/-- Binding an axis leaves an object as it is, or writes definitions of channels into it. -/
theorem bindAxisApart_ok {kind : Kind} {channels inner axis bound : Value}
    (h : bindAxisApart kind channels inner axis = .ok bound) :
    bound = inner ∨ ∃ channel id fields definitions, boundChannel kind channels axis = .ok channel ∧
      channel.isNull = false ∧ inner = ⟨id, .dict fields⟩ ∧
      definitionsWith channel axis (Dict.get? fields (.string kind.channelsKey)) =
        .ok definitions ∧
      bound = .dict (Dict.insert fields (.string kind.channelsKey) definitions) := by
  rw [bindAxisApart] at h
  obtain ⟨channel, found, h⟩ := bind_eq_ok_iff.1 h
  split at h
  · cases h
    exact .inl rfl
  · rename_i given
    obtain ⟨id, content⟩ := inner
    cases content with
    | dict fields =>
      rw [withBindingApart_dict] at h
      obtain ⟨definitions, new, made⟩ := map_eq_ok_iff.1 (mapError_eq_ok_iff.1 h)
      exact .inr ⟨channel, id, fields, definitions, found, Bool.eq_false_iff.2 given, rfl, new,
        made.symm⟩
    | _ => cases h

theorem bindAxisApart_field? {kind : Kind} {channels inner axis bound : Value}
    (h : bindAxisApart kind channels inner axis = .ok bound) {key : String}
    (other : kind.channelsKey ≠ key) : bound.field? key = inner.field? key := by
  obtain rfl | ⟨_, _, fields, definitions, _, _, rfl, _, rfl⟩ := bindAxisApart_ok h
  · rfl
  · exact Dict.get?_insert_of_ne fields other definitions

theorem bindAxesApart_field? {own channels inner bound : Value} {kind : Kind}
    (h : bindAxesApart own channels kind inner = .ok bound) {key : String}
    (other : kind.channelsKey ≠ key) : bound.field? key = inner.field? key := by
  rw [bindAxesApart] at h
  obtain ⟨axes, given, fold⟩ := bind_eq_ok_iff.1 h
  clear h given
  induction axes generalizing inner with
  | nil =>
    cases fold
    rfl
  | cons axis rest ih =>
    rw [List.foldlM_cons] at fold
    obtain ⟨next, first, fold⟩ := bind_eq_ok_iff.1 fold
    exact (ih fold).trans (bindAxisApart_field? first other)

theorem axesOf_dict (own : Dict) :
    axesOf (.dict own) =
      (Dict.get? own (.string "repeat")).elim (.ok []) fun axes => axes.itemsOf := by
  have fetched : Value.entriesFor "get" (.dict own) = .ok own := rfl
  cases found : Dict.get? own (.string "repeat") with
  | none =>
    simp only [axesOf, fetched, bind, Except.bind, found]
    rfl
  | some axes =>
    simp only [axesOf, fetched, bind, Except.bind, found]
    rfl

end Chart

/-! ### Writing what stands in one place -/

namespace Dict

theorem mem_insert_value {d : Dict} {key v : Value} {e : Value × Value}
    (h : e ∈ insert d key v) : e ∈ d ∨ e.2 = v ∧ (e.1 = key ∨ ∃ f ∈ d, f.1 = e.1) := by
  induction d with
  | nil => exact .inr (by rw [List.mem_singleton.1 h]; exact ⟨rfl, .inl rfl⟩)
  | cons f d ih =>
    simp only [insert] at h
    split at h
    · rcases List.mem_cons.1 h with rfl | h
      · exact .inr ⟨rfl, .inr ⟨f, List.mem_cons_self .., rfl⟩⟩
      · exact .inl (List.mem_cons_of_mem _ h)
    · rcases List.mem_cons.1 h with rfl | h
      · exact .inl (List.mem_cons_self ..)
      · rcases ih h with he | ⟨value, rfl | ⟨g, hg, eq⟩⟩
        · exact .inl (List.mem_cons_of_mem _ he)
        · exact .inr ⟨value, .inl rfl⟩
        · exact .inr ⟨value, .inr ⟨g, List.mem_cons_of_mem _ hg, eq⟩⟩

end Dict

namespace Value

/-- A write that reaches only objects without an identity changes what stands at its path. -/
theorem writtenAt_of_none {path : List Value} {new v w : Value}
    (written : writeAt path new v = .ok w)
    (none : ∀ o ∈ objectsAlong path.dropLast w, o.identity? = none) :
    writtenAt path new v = .ok w := by
  have kept (objects : List Value) (none : ∀ o ∈ objects, o.identity? = .none) :
      objects.foldl withContentOf w = w := by
    induction objects with
    | nil => rfl
    | cons o objects ih =>
      obtain ⟨first, rest⟩ := List.forall_mem_cons.1 none
      rw [List.foldl_cons, withContentOf, first]
      exact ih rest
  rw [writtenAt, changedAt, written]
  exact congrArg Except.ok (kept _ none)

theorem identity?_withEntry {v key new w : Value} (written : v.withEntry key new = .ok w) :
    w.identity? = v.identity? := by
  obtain ⟨id, c⟩ := v
  cases c with
  | dict entries =>
    obtain ⟨_, _, written⟩ := bind_eq_ok_iff.1 written
    cases written
    rfl
  | list items =>
    obtain ⟨_, _, written⟩ := bind_eq_ok_iff.1 written
    cases written
    rfl
  | _ =>
    simp only [withEntry] at written
    split at written <;> cases written

theorem IsUnshared.insert {parts : Dict} (h : (Value.dict parts).IsUnshared) {key new : Value}
    (text : key.IsText) (fresh : new.identity? = none) :
    (Value.dict (Dict.insert parts key new)).IsUnshared := by
  obtain ⟨parts, eq, unshared⟩ := h
  cases eq
  refine ⟨_, rfl, fun e he => ?_⟩
  rcases Dict.mem_insert_value he with old | ⟨value, rfl | ⟨f, hf, eq⟩⟩
  · exact unshared e old
  · exact ⟨text, value ▸ fresh⟩
  · exact ⟨eq ▸ (unshared f hf).1, value ▸ fresh⟩

theorem changeAt_nil (change : Value → Except Misuse Value) (v : Value) :
    changeAt change [] v = change v := rfl

theorem changeAt_of_entryAt {change : Value → Except Misuse Value} {path : List Value}
    {v key part : Value} (entry : entryAt v key = .ok part) :
    changeAt change (key :: path) v = (changeAt change path part).map (withPart v key) := by
  rw [changeAt, entry]
  rfl

theorem objectsAlong_of_entryAt {path : List Value} {v key part : Value}
    (entry : entryAt v key = .ok part) :
    objectsAlong (key :: path) v = v :: objectsAlong path part := by
  rw [objectsAlong, entry]

variable {fields parts : Dict} {key : String} {channel : Value}

theorem lookable_of_isText (text : channel.IsText) : channel.lookable = .ok () := by
  obtain ⟨s, content⟩ := text
  obtain ⟨id, c⟩ := channel
  cases content
  rfl

theorem entryAt_name (id : Option Identity) {v : Value}
    (held : Dict.get? fields (.string key) = some v) :
    entryAt ⟨id, .dict fields⟩ (.string key) = .ok v :=
  entryAt_dict.2 ⟨rfl, held⟩

section Written

variable (held : Dict.get? fields (.string key) = some (.dict parts)) (text : channel.IsText)

include held text

theorem writtenAt_definition (new : Value) :
    writtenAt [.string key, channel] new (.dict fields) =
      .ok (.dict (Dict.insert fields (.string key) (.dict (Dict.insert parts channel new)))) := by
  have definition : (Value.dict parts).withEntry channel new =
      .ok (.dict (Dict.insert parts channel new)) := by
    rw [withEntry, lookable_of_isText text]
    rfl
  refine writtenAt_of_none ?_ ?_
  · show changeAt (fun v => v.withEntry channel new) [.string key] (.dict fields) = _
    rw [changeAt_of_entryAt (entryAt_name none held), changeAt_nil, definition]
    rfl
  · show ∀ o ∈ objectsAlong [.string key] (.dict _), _
    rw [objectsAlong_of_entryAt (entryAt_name none (Dict.get?_insert_self ..))]
    exact List.forall_mem_cons.2 ⟨rfl, List.forall_mem_singleton.2 rfl⟩

theorem writeAt_field {v : Value} (found : Dict.get? parts channel = some v) (new : Value) :
    writeAt [.string key, channel, .string "field"] new (.dict fields) =
      (v.withEntry (.string "field") new).map fun w =>
        .dict (Dict.insert fields (.string key) (.dict (Dict.insert parts channel w))) := by
  have definition : entryAt (.dict parts) channel = .ok v :=
    entryAt_dict.2 ⟨lookable_of_isText text, found⟩
  show changeAt (fun v => v.withEntry (.string "field") new) [.string key, channel] (.dict fields) =
    _
  rw [changeAt_of_entryAt (entryAt_name none held), changeAt_of_entryAt definition, changeAt_nil]
  cases v.withEntry (.string "field") new <;> rfl

theorem writtenAt_field {v : Value} (found : Dict.get? parts channel = some v)
    (fresh : v.identity? = none) (new : Value) :
    writtenAt [.string key, channel, .string "field"] new (.dict fields) =
      (v.withEntry (.string "field") new).map fun w =>
        .dict (Dict.insert fields (.string key) (.dict (Dict.insert parts channel w))) := by
  have written := writeAt_field held text found new
  cases done : v.withEntry (.string "field") new with
  | error reason =>
    rw [done] at written
    rw [writtenAt, changedAt, written]
    rfl
  | ok w =>
    rw [done] at written
    refine writtenAt_of_none written ?_
    have definition : entryAt (.dict (Dict.insert parts channel w)) channel = .ok w :=
      entryAt_dict.2 ⟨lookable_of_isText text, Dict.get?_insert_of_isSome found⟩
    show ∀ o ∈ objectsAlong [.string key, channel] (.dict _), _
    rw [objectsAlong_of_entryAt (entryAt_name none (Dict.get?_insert_self ..)),
      objectsAlong_of_entryAt definition]
    exact List.forall_mem_cons.2 ⟨rfl, List.forall_mem_cons.2 ⟨rfl,
      List.forall_mem_singleton.2 ((identity?_withEntry done).trans fresh)⟩⟩

end Written

theorem IsUnshared.released {v : Value} (h : v.IsUnshared) (k : Nat) :
    (Value.released k v).IsUnshared := by
  obtain ⟨parts, rfl, unshared⟩ := h
  refine ⟨_, released_dict k parts, ?_⟩
  rw [releasedEntries_eq_map]
  refine List.forall_mem_map.2 fun e he => ?_
  obtain ⟨text, fresh⟩ := unshared e he
  refine ⟨(released_of_isText text k).symm ▸ text, ?_⟩
  rw [identity?_released, releasedIdentity_of_none fresh]

end Value

namespace Chart

/-- The object of a repeated node in which the definitions of channels stand in one place. -/
def HoldsApart (key : String) (inner : Value) : Prop :=
  ∃ fields, inner = .dict fields ∧
    ∀ v, Dict.get? fields (.string key) = some v → v.IsUnshared

theorem HoldsApart.released {key : String} {inner : Value} (apart : HoldsApart key inner)
    (k : Nat) : HoldsApart key (Value.released k inner) := by
  obtain ⟨fields, rfl, unshared⟩ := apart
  refine ⟨_, Value.released_dict k fields, fun v held => ?_⟩
  rw [Dict.get?_releasedEntries] at held
  obtain ⟨w, stands, rfl⟩ := Option.map_eq_some_iff.1 held
  exact (unshared w stands).released k

theorem identity?_boundDefinition {axis v : Value} {held : Option Value}
    (fresh : ∀ w ∈ held, w.identity? = none) (bound : boundDefinition axis held = .ok v) :
    v.identity? = none := by
  cases held with
  | none =>
    cases bound
    rfl
  | some w =>
    rw [boundDefinition] at bound
    split at bound
    · cases bound
      rfl
    · exact (Value.identity?_withEntry bound).trans (fresh w rfl)

theorem lookUp?_of_isText {channel : Value} (text : channel.IsText) (parts : Dict) :
    Dict.lookUp? parts channel = .ok (Dict.get? parts channel) :=
  Value.lookUp?_ok_iff.2 ⟨Value.lookable_of_isText text, rfl⟩

theorem writeBinding_eq {fields parts : Dict} {key : String} {channel : Value} (axis : Value)
    (held : Dict.get? fields (.string key) = some (.dict parts)) (text : channel.IsText)
    (apart : (Value.dict parts).IsUnshared) :
    writeBinding key channel axis (.dict fields) =
      (boundDefinition axis (Dict.get? parts channel)).map fun definition =>
        .dict (Dict.insert fields (.string key)
          (.dict (Dict.insert parts channel definition))) := by
  have fetched : Value.entriesFor "get" (.dict parts) = .ok parts := rfl
  rw [writeBinding, Value.entryAt_name none held]
  simp only [bind, Except.bind, fetched, lookUp?_of_isText text]
  cases found : Dict.get? parts channel with
  | none => exact Value.writtenAt_definition held text _
  | some v =>
    obtain ⟨_, eq, unshared⟩ := apart
    cases eq
    obtain ⟨e, he, rfl⟩ := Dict.exists_of_get? found
    simp only [Option.getD_some, boundDefinition]
    split
    · exact Value.writtenAt_definition held text _
    · exact Value.writtenAt_field held text found (unshared e he).2 _

/-- With definitions of channels in one place, a channel is bound by writing its definition. -/
theorem withBinding_eq {key : String} {channel inner : Value} (axis : Value)
    (text : channel.IsText) (apart : HoldsApart key inner) :
    withBinding key channel axis inner = withBindingApart key channel axis inner := by
  obtain ⟨fields, rfl, unshared⟩ := apart
  have fetched : Value.entriesFor "setdefault" (.dict fields) = .ok fields := rfl
  have apart : withBindingApart key channel axis (.dict fields) =
      (definitionsWith channel axis (Dict.get? fields (.string key))).map fun definitions =>
        .dict (Dict.insert fields (.string key) definitions) := rfl
  cases held : Dict.get? fields (.string key) with
  | none =>
    have default : withDefault key (.dict fields) =
        .ok (.dict (Dict.insert fields (.string key) (.dict []))) := by
      simp only [withDefault, fetched, Except.bind, bind, held]
      rfl
    have written := writeBinding_eq axis (Dict.get?_insert_self fields key (.dict [])) text .empty
    rw [withBinding, default, apart, held]
    refine written.trans ?_
    simp only [Dict.insert_insert_self, definitionsWith, Except.bind, bind,
      lookUp?_of_isText text]
    cases boundDefinition axis (Dict.get? [] channel) <;> rfl
  | some v =>
    have here := unshared v held
    obtain ⟨parts, rfl, _⟩ := id here
    have default : withDefault key (.dict fields) = .ok (.dict fields) := by
      simp only [withDefault, fetched, Except.bind, bind, held]
      rfl
    have entries : Value.entriesFor "get" (.dict parts) = .ok parts := rfl
    rw [withBinding, default, apart, held]
    refine (writeBinding_eq axis held text here).trans ?_
    simp only [definitionsWith, Except.bind, bind, entries, lookUp?_of_isText text]
    cases boundDefinition axis (Dict.get? parts channel) <;> rfl

/-! ### All axes of a repeat -/

/-- Which channel is bound does not depend on the object in which it is bound. -/
theorem bindAxis_eq (kind : Kind) (channels inner axis : Value) :
    bindAxis kind channels inner axis = (boundChannel kind channels axis).bind fun channel =>
      if channel.isNull then .ok inner
      else (withBinding kind.channelsKey channel axis inner).mapError .misuse := by
  have assoc : ∀ {α β γ : Type} (x : Except CompileError α) (f : α → Except CompileError β)
      (g : β → Except CompileError γ), (x >>= f).bind g = x >>= fun a => (f a).bind g :=
    fun x f g => bind_assoc x f g
  rw [bindAxis, boundChannel, assoc]
  congr 1
  funext bound
  by_cases facet : kind = .facet
  · simp only [if_pos facet, assoc]
    congr 1
    funext _
    split <;> rfl
  · simp only [if_neg facet]
    rfl

/-- A channel that is bound is among those of the axes. -/
theorem boundChannel_ok {kind : Kind} {channels axis channel : Value}
    (bound : boundChannel kind channels axis = .ok channel) :
    channel = .null ∨
      ∃ id entries, channels = ⟨id, .dict entries⟩ ∧ ∃ e ∈ entries, e.2 = channel := by
  rw [boundChannel] at bound
  generalize looked : (do Dict.lookUp? (← channels.entriesFor "get") axis) = result at bound
  cases result with
  | error reason => cases bound
  | ok found =>
    have eq : found.getD .null = channel := by
      simp only [Except.mapError, bind, Except.bind] at bound
      split at bound
      · split at bound
        · cases bound
        · split at bound
          · cases bound
          · exact Except.ok.inj bound
      · exact Except.ok.inj bound
    obtain ⟨id, c⟩ := channels
    cases c with
    | dict entries =>
      cases found with
      | none => exact .inl eq.symm
      | some w =>
        have held : Dict.get? entries axis = some w := (Value.lookUp?_ok_iff.1 looked).2
        obtain ⟨e, he, value⟩ := Dict.exists_of_get? held
        exact .inr ⟨id, entries, rfl, e, he, value.trans eq⟩
    | _ => cases looked

variable {kind : Kind} {channels inner : Value}

section Apart

variable (texts : ∀ id entries, channels = ⟨id, .dict entries⟩ → ∀ e ∈ entries, e.2.IsText)

include texts

theorem isText_of_bound {axis channel : Value}
    (bound : boundChannel kind channels axis = .ok channel) (given : channel.isNull = false) :
    channel.IsText := by
  rcases boundChannel_ok bound with rfl | ⟨id, entries, rfl, e, he, rfl⟩
  · cases given
  · exact texts id entries rfl e he

omit texts in
/-- Where definitions are one dictionary or none at all, they still are with a channel bound. -/
theorem definitionsWith_isUnshared {channel axis definitions : Value} (text : channel.IsText)
    {held : Option Value} (unshared : ∀ v ∈ held, v.IsUnshared)
    (h : definitionsWith channel axis held = .ok definitions) : definitions.IsUnshared := by
  have step (parts : Dict) (once : (Value.dict parts).IsUnshared)
      (h : (do
        let definition ← boundDefinition axis (← Dict.lookUp? parts channel)
        pure (Value.dict (Dict.insert parts channel definition))) = .ok definitions) :
      definitions.IsUnshared := by
    rw [lookUp?_of_isText text] at h
    obtain ⟨_, found, h⟩ := bind_eq_ok_iff.1 h
    cases found
    obtain ⟨definition, bound, made⟩ := bind_eq_ok_iff.1 h
    cases made
    refine once.insert text (identity?_boundDefinition (fun u mem => ?_) bound)
    obtain ⟨_, eq, each⟩ := once
    cases eq
    obtain ⟨e, he, rfl⟩ := Dict.exists_of_get? mem
    exact (each e he).2
  cases held with
  | none => exact step [] .empty h
  | some v =>
    have once := unshared v rfl
    obtain ⟨parts, rfl, _⟩ := id once
    exact step parts once h

/-- Binding an axis leaves the definitions of channels in one place. -/
theorem bindAxisApart_holdsApart (axis : Value) {bound : Value}
    (apart : HoldsApart kind.channelsKey inner)
    (h : bindAxisApart kind channels inner axis = .ok bound) :
    HoldsApart kind.channelsKey bound := by
  obtain rfl | ⟨channel, id, fields, definitions, found, given, rfl, new, rfl⟩ := bindAxisApart_ok h
  · exact apart
  · obtain ⟨_, eq, unshared⟩ := apart
    cases eq
    refine ⟨_, rfl, fun v held => ?_⟩
    rw [Dict.get?_insert_self] at held
    cases held
    exact definitionsWith_isUnshared (isText_of_bound texts found given) unshared new

theorem bindAxis_eq_apart (axis : Value) (apart : HoldsApart kind.channelsKey inner) :
    bindAxis kind channels inner axis = bindAxisApart kind channels inner axis := by
  rw [bindAxis_eq, bindAxisApart]
  cases bound : boundChannel kind channels axis with
  | error reason => rfl
  | ok channel =>
    show (if channel.isNull then _ else _) = if channel.isNull then _ else _
    cases given : channel.isNull with
    | true => rfl
    | false =>
      rw [withBinding_eq axis (isText_of_bound texts bound given) apart]
      rfl

/-- With definitions of channels in one place, all axes are bound by writing definitions. -/
theorem bindAxes_eq_apart (own : Value) (apart : HoldsApart kind.channelsKey inner) :
    bindAxes own channels kind inner = bindAxesApart own channels kind inner := by
  rw [bindAxes, bindAxesApart]
  cases axesOf own with
  | error reason => rfl
  | ok axes =>
    show axes.foldlM (bindAxis kind channels) inner =
      axes.foldlM (bindAxisApart kind channels) inner
    induction axes generalizing inner with
    | nil => rfl
    | cons axis axes ih =>
      rw [List.foldlM_cons, List.foldlM_cons, bindAxis_eq_apart texts axis apart]
      cases first : bindAxisApart kind channels inner axis with
      | error reason => rfl
      | ok next => exact ih (bindAxisApart_holdsApart texts axis apart first)

/-! ### Release -/

variable {k : Nat}

omit texts in
theorem boundDefinition_released {axis : Value} (settled : Value.released k axis = axis)
    (held : Option Value) : boundDefinition axis (held.map (Value.released k)) =
      (boundDefinition axis held).map (Value.released k) := by
  have field : Value.released k (axisField axis) = axisField axis := by
    rw [axisField, Value.released_dict, Value.releasedEntries, settled]
    rfl
  have new : Value.released k (newDefinition axis) = newDefinition axis := by
    rw [newDefinition, Value.released_dict]
    show Value.dict [(.string "field", Value.released k (axisField axis)), _] = _
    rw [field]
    rfl
  cases held with
  | none => exact congrArg Except.ok new.symm
  | some v =>
    simp only [Option.map_some, boundDefinition, Value.isNull_released]
    split
    · exact congrArg Except.ok new.symm
    · rw [← Value.withEntry_released, field]

omit texts in
theorem definitionsWith_released {channel axis : Value} (text : channel.IsText)
    (settled : Value.released k axis = axis) {held : Option Value}
    (unshared : ∀ v ∈ held, v.IsUnshared) :
    definitionsWith channel axis (held.map (Value.released k)) =
      (definitionsWith channel axis held).map (Value.released k) := by
  have step (parts : Dict) (texts : ∀ e ∈ parts, e.1.IsText) :
      (do
        let definition ← boundDefinition axis
          (← Dict.lookUp? (Value.releasedEntries k parts) channel)
        pure (Value.dict (Dict.insert (Value.releasedEntries k parts) channel definition))) =
      Except.map (Value.released k) (do
        let definition ← boundDefinition axis (← Dict.lookUp? parts channel)
        pure (Value.dict (Dict.insert parts channel definition))) := by
    simp only [lookUp?_of_isText text, bind, Except.bind,
      Dict.get?_releasedEntries_of_texts texts, boundDefinition_released settled]
    cases boundDefinition axis (Dict.get? parts channel) with
    | error reason => rfl
    | ok w =>
      refine congrArg Except.ok ?_
      rw [Value.released_dict, Dict.releasedEntries_insert_of_texts texts text]
  cases held with
  | none => exact step [] (List.forall_mem_nil _)
  | some v =>
    obtain ⟨parts, rfl, each⟩ := unshared v rfl
    rw [Option.map_some, Value.released_dict]
    exact step parts fun e he => (each e he).1

/-- An axis is bound in a released object as it is bound in the object, once that is released. -/
theorem bindAxisApart_released {axis : Value} (settled : Value.released k axis = axis)
    (apart : HoldsApart kind.channelsKey inner) :
    bindAxisApart kind channels (Value.released k inner) axis =
      (bindAxisApart kind channels inner axis).map (Value.released k) := by
  rw [bindAxisApart, bindAxisApart]
  cases bound : boundChannel kind channels axis with
  | error reason => rfl
  | ok channel =>
    show (if channel.isNull then _ else _) = Except.map _ (if channel.isNull then _ else _)
    cases given : channel.isNull with
    | true => rfl
    | false =>
      obtain ⟨fields, rfl, unshared⟩ := apart
      have text := isText_of_bound texts bound given
      rw [if_neg Bool.false_ne_true, if_neg Bool.false_ne_true, Value.released_dict,
        withBindingApart_dict, withBindingApart_dict, Dict.get?_releasedEntries,
        definitionsWith_released text settled unshared]
      cases definitionsWith channel axis (Dict.get? fields (.string kind.channelsKey)) with
      | error reason => rfl
      | ok definitions =>
        refine congrArg Except.ok ?_
        rw [Value.released_dict, Dict.releasedEntries_insert]

theorem bindAxesApart_released {own own' : Value} {axes : List Value}
    (given : axesOf own = .ok axes) (given' : axesOf own' = .ok axes)
    (settled : ∀ axis ∈ axes, Value.released k axis = axis)
    (apart : HoldsApart kind.channelsKey inner) :
    bindAxesApart own' channels kind (Value.released k inner) =
      (bindAxesApart own channels kind inner).map (Value.released k) := by
  rw [bindAxesApart, bindAxesApart, given, given']
  show axes.foldlM (bindAxisApart kind channels) _ =
    Except.map _ (axes.foldlM (bindAxisApart kind channels) inner)
  clear given given'
  induction axes generalizing inner with
  | nil => rfl
  | cons axis axes ih =>
    obtain ⟨here, rest⟩ := List.forall_mem_cons.1 settled
    rw [List.foldlM_cons, List.foldlM_cons, bindAxisApart_released texts here apart]
    cases first : bindAxisApart kind channels inner axis with
    | error reason => rfl
    | ok next => exact ih rest (bindAxisApart_holdsApart texts axis apart first)

end Apart

end Chart

end ChartTree
