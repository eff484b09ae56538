import ChartTree.Data.Object
import ChartTree.Proofs.Data.Registry
import ChartTree.Proofs.Node.Regular

/-!
# What a data object says

The data object of a reference in a registry, and what stands in it under the three fields that say
what the data are. The address is that of the reference and nothing else can take its place; the
name is that of the inline data unless the options give another.
-/

namespace ChartTree

namespace DataReference

/-- The inline collection of a reference as a list of at most one. -/
def blobs (r : DataReference) : List Shared :=
  r.values.toList

/-- The data object of a reference where inline data have their name in a registry. -/
def resolved (r : DataReference) (registry : Registry) : Except Misuse DataObject :=
  match r.values with
  | none => r.toObject .null
  | some blob => r.toObject (.string (registry.nameOf blob))

/-- Copies of the entries that the options of a reference hold. -/
def extras (r : DataReference) : Dict :=
  match r.options.content with
  | .dict entries => Value.copiedEntries none entries
  | _ => []

/-- What a reference is rendered under: the name of its inline data, if it has some. -/
def nameIn (r : DataReference) (registry : Registry) : Value :=
  match r.values with
  | none => .null
  | some blob => .string (registry.nameOf blob)

/-- The data object of a reference with a dictionary of options. -/
def resolvedIn (r : DataReference) (registry : Registry) : DataObject :=
  Dict.merge (r.payload (r.nameIn registry)) r.extras

variable {r : DataReference}

theorem Regular.extras_eq (h : r.Regular) :
    ∃ fields, r.extras = Dict.ofFields fields ∧ (fields.map Prod.fst).Nodup ∧
      ∀ key ∈ reservedKeys, key ∉ fields.map Prod.fst := by
  obtain ⟨id, fields, eq, distinct, free⟩ := h.options
  have names : (fields.map fun field => (field.1, Value.copied none field.2)).map Prod.fst =
      fields.map Prod.fst := by
    rw [List.map_map]
    rfl
  refine ⟨fields.map fun field => (field.1, Value.copied none field.2), ?_, ?_, ?_⟩
  · rw [extras, eq]
    exact Dict.copiedEntries_ofFields none fields
  · rwa [names]
  · rwa [names]

theorem Regular.toObject_eq (h : r.Regular) (name : Value) :
    r.toObject name = .ok (Dict.merge (r.payload name) r.extras) := by
  obtain ⟨id, fields, eq, _, _⟩ := h.options
  rw [toObject, extras, eq, Value.copied]
  rfl

theorem Regular.resolved_eq (h : r.Regular) (registry : Registry) :
    r.resolved registry = .ok (r.resolvedIn registry) := by
  rw [resolved, resolvedIn, nameIn]
  cases r.values with
  | none => exact h.toObject_eq .null
  | some blob => exact h.toObject_eq (.string (registry.nameOf blob))

/-- A data object is settled when its collection is met: later collections change no name. -/
theorem resolvedIn_of_growth {R F : Registry} (le : (R.addAll r.blobs).blobs <+: F.blobs) :
    r.resolvedIn R = r.resolvedIn F := by
  rw [resolvedIn, resolvedIn, nameIn, nameIn]
  rw [blobs] at le
  cases held : r.values with
  | none => rfl
  | some blob =>
    rw [held] at le
    have name : F.nameOf blob = (R.add blob).nameOf blob :=
      Registry.nameOf_of_growth (Registry.holds_add_self R blob) le
    rw [Registry.nameOf_add_self] at name
    simp only [name]

/-! ### Fields -/

/-- The name that the options of a reference give. -/
def givenName? (r : DataReference) : Option Value :=
  Dict.get? r.extras (.string "name")

/-- What stands under a key of a data object is what the options have there, else what the
reference itself has there. -/
theorem Regular.get?_resolvedIn (h : r.Regular) (R : Registry) (key : String) :
    Dict.get? (r.resolvedIn R) (.string key) =
      (Dict.get? r.extras (.string key)).or
        (Dict.get? (r.payload (r.nameIn R)) (.string key)) := by
  obtain ⟨fields, eq, distinct, _⟩ := h.extras_eq
  rw [resolvedIn, eq, Dict.get?_merge_ofFields _ distinct, Dict.get?_ofFields]

theorem Regular.get?_extras (h : r.Regular) {key : String} (reserved : key ∈ reservedKeys) :
    Dict.get? r.extras (.string key) = none := by
  obtain ⟨fields, eq, _, free⟩ := h.extras_eq
  rw [eq, Dict.get?_ofFields, List.lookup_eq_none_iff]
  intro field mem
  simp only [bne_iff_ne, ne_eq]
  rintro rfl
  exact free _ reserved (List.mem_map_of_mem mem)

theorem payload_address (none : r.values = none) (R : Registry) :
    r.payload (r.nameIn R) = [(.string "url", r.url)] := by
  rw [payload, none]

theorem payload_inline {blob : Shared} (some : r.values = some blob) (R : Registry) :
    r.payload (r.nameIn R) = [(.string "name", .string (R.nameOf blob))] := by
  rw [payload, nameIn, some]
  exact if_pos (R.nameOf_truthy blob)

/-- A data object holds no collection: inline data go by their name. -/
theorem Regular.get?_values (h : r.Regular) (R : Registry) :
    Dict.get? (r.resolvedIn R) (.string "values") = none := by
  rw [h.get?_resolvedIn, h.get?_extras (by decide), Option.none_or]
  cases held : r.values with
  | none => rw [payload_address held]; rfl
  | some blob => rw [payload_inline held]; rfl

theorem Regular.get?_url (h : r.Regular) (R : Registry) :
    Dict.get? (r.resolvedIn R) (.string "url") =
      if r.values.isNone then some r.url else none := by
  rw [h.get?_resolvedIn, h.get?_extras (by decide), Option.none_or]
  cases held : r.values with
  | none => rw [payload_address held]; rfl
  | some blob => rw [payload_inline held]; rfl

theorem Regular.get?_name (h : r.Regular) (R : Registry) :
    Dict.get? (r.resolvedIn R) (.string "name") =
      r.givenName?.or (r.values.map fun blob => .string (R.nameOf blob)) := by
  rw [h.get?_resolvedIn, givenName?]
  cases held : r.values with
  | none => rw [payload_address held]; rfl
  | some blob => rw [payload_inline held]; rfl

end DataReference

namespace DataObject

/-- Two data objects agree on a key only if both have something there that counts as true and is
the same. -/
theorem of_agreeOn {key : String} {a b : DataObject} (h : agreeOn key a b = .ok true) :
    ∃ v w, Dict.get? a (.string key) = some v ∧ Dict.get? b (.string key) = some w ∧
      v.same w = true := by
  rw [agreeOn] at h
  cases left : Dict.get? a (.string key) with
  | none =>
    rw [left] at h
    cases h
  | some v =>
    cases right : Dict.get? b (.string key) with
    | none =>
      rw [left, right] at h
      cases h
    | some w =>
      refine ⟨v, w, rfl, rfl, ?_⟩
      simp only [left, right] at h
      split at h
      · exact (Value.compare_eq_ok_iff.1 (mapError_eq_ok_iff.1 h)).2
      · cases h

theorem agreeOn_of_absent {key : String} (a : DataObject) {b : DataObject}
    (absent : Dict.get? b (.string key) = none) : agreeOn key a b = .ok false := by
  rw [agreeOn, absent]
  cases Dict.get? a (.string key) <;> rfl

/-- Data objects without collections mean the same data if they agree on address or name. -/
theorem sameData_of_no_values (a : DataObject) {b : DataObject}
    (absent : Dict.get? b (.string "values") = none) :
    sameData a b = (agreeOn "url" a b).bind fun met =>
      if met then .ok true else agreeOn "name" a b := by
  have apart : shareValues a b = false := by
    rw [shareValues, absent]
    cases Dict.get? a (.string "values") <;> rfl
  rw [sameData, apart]
  cases agreeOn "url" a b with
  | error reason => rfl
  | ok met => cases met <;> rfl

/-- A data object that means the same as one without a collection agrees with it on address or
name. -/
theorem agree_of_sameData {a b : DataObject} (absent : Dict.get? b (.string "values") = none)
    (same : sameData a b = .ok true) :
    agreeOn "url" a b = .ok true ∨ agreeOn "name" a b = .ok true := by
  rw [sameData_of_no_values a absent] at same
  obtain ⟨met, address, same⟩ := bind_eq_ok_iff.1 same
  cases met with
  | true => exact .inl address
  | false => exact .inr same

end DataObject

end ChartTree
