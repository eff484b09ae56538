import ChartTree.Proofs.Node.Regular

/-!
# Documents with other dataset names

An object of a document with the names of its data replaced, in itself and in the objects below
it. Nothing else is looked into: what stands under any other key stays as it is. So the replacement
goes along with writing and reading under texts.
-/

namespace ChartTree

namespace Dict

/-- What replaces the value of an entry; only what stands under a text is replaced. -/
def valueUnder (f : String → Value → Value) (e : Value × Value) : Value :=
  match e.1.content with
  | .string s => f s e.2
  | _ => e.2

/-- A dictionary with what stands under texts replaced. -/
def mapUnder (f : String → Value → Value) (d : Dict) : Dict :=
  d.map fun e => (e.1, valueUnder f e)

variable {f : String → Value → Value}

theorem mapUnder_cons (f : String → Value → Value) (e : Value × Value) (d : Dict) :
    mapUnder f (e :: d) = (e.1, valueUnder f e) :: mapUnder f d := rfl

theorem valueUnder_of_content {e : Value × Value} {name : String}
    (h : e.1.content = .string name) : valueUnder f e = f name e.2 := by
  rw [valueUnder, h]

theorem get?_mapUnder (f : String → Value → Value) (d : Dict) (name : String) :
    get? (mapUnder f d) (.string name) = (get? d (.string name)).map (f name) := by
  induction d with
  | nil => rfl
  | cons e d ih =>
    rw [mapUnder_cons]
    by_cases h : e.1.content = .string name
    · have found : get? ((e.1, valueUnder f e) :: mapUnder f d) (.string name) =
          some (valueUnder f e) := get?_of_content h
      rw [found, get?_of_content h, valueUnder_of_content h, Option.map_some]
    · have passed : get? ((e.1, valueUnder f e) :: mapUnder f d) (.string name) =
          get? (mapUnder f d) (.string name) := get?_of_content_ne h
      rw [passed, get?_of_content_ne h, ih]

theorem mapUnder_insert (f : String → Value → Value) (d : Dict) (name : String) (v : Value) :
    mapUnder f (insert d (.string name) v) = insert (mapUnder f d) (.string name) (f name v) := by
  induction d with
  | nil => rfl
  | cons e d ih =>
    rw [mapUnder_cons]
    by_cases h : e.1.content = .string name
    · have new : insert ((e.1, valueUnder f e) :: mapUnder f d) (.string name) (f name v) =
          (e.1, f name v) :: mapUnder f d := insert_cons_of_content h
      have written : valueUnder f (e.1, v) = f name v := valueUnder_of_content h
      rw [new, insert_cons_of_content h, mapUnder_cons, written]
    · have new : insert ((e.1, valueUnder f e) :: mapUnder f d) (.string name) (f name v) =
          (e.1, valueUnder f e) :: insert (mapUnder f d) (.string name) (f name v) :=
        insert_cons_of_content_ne h
      rw [new, insert_cons_of_content_ne h, mapUnder_cons, ih]

theorem mapUnder_of_forall {d : Dict} (h : ∀ e ∈ d, ∃ s, e.1.content = .string s ∧ f s e.2 = e.2) :
    mapUnder f d = d := by
  induction d with
  | nil => rfl
  | cons e d ih =>
    obtain ⟨s, text, same⟩ := h e (List.mem_cons_self ..)
    rw [mapUnder_cons, valueUnder_of_content text, same,
      ih fun e' mem => h e' (List.mem_cons_of_mem _ mem)]

theorem mapUnder_merge (d : Dict) {fields : List (String × Value)}
    (same : ∀ field ∈ fields, f field.1 field.2 = field.2) :
    mapUnder f (merge d (ofFields fields)) = merge (mapUnder f d) (ofFields fields) := by
  induction fields generalizing d with
  | nil => rfl
  | cons field fields ih =>
    have rest := ih (insert d (.string field.1) field.2) fun other mem =>
      same other (List.mem_cons_of_mem _ mem)
    rw [mapUnder_insert, same field (List.mem_cons_self ..)] at rest
    exact rest

end Dict

namespace Value

/-- The keys under which the objects below an object stand. -/
def belowKeys : List String :=
  ["spec", "layer", "hconcat", "vconcat"]

/-- A text replaced. -/
def renamedText (σ : String → String) : Value → Value
  | ⟨id, .string s⟩ => ⟨id, .string (σ s)⟩
  | v => v

/-- A data object with its name replaced. -/
def renamed (σ : String → String) : Value → Value
  | ⟨id, .dict entries⟩ =>
    ⟨id, .dict (Dict.mapUnder (fun key v => if key = "name" then renamedText σ v else v) entries)⟩
  | v => v

mutual

/-- An object, or a list of objects, with the names of data replaced. -/
def relabeled (σ : String → String) : Value → Value
  | ⟨id, .dict entries⟩ => ⟨id, .dict (relabeledEntries σ entries)⟩
  | ⟨id, .list items⟩ => ⟨id, .list (relabeledItems σ items)⟩
  | v => v
termination_by structural v => v

/-- The entries of an object with the names of data replaced. -/
def relabeledEntries (σ : String → String) : List (Value × Value) → List (Value × Value)
  | [] => []
  | (key, v) :: rest => (key, match key.content with
    | .string s =>
      if s ∈ belowKeys then relabeled σ v else if s = "data" then renamed σ v else v
    | _ => v) :: relabeledEntries σ rest
termination_by structural es => es

/-- Objects with the names of data replaced. -/
def relabeledItems (σ : String → String) : List Value → List Value
  | [] => []
  | v :: vs => relabeled σ v :: relabeledItems σ vs
termination_by structural vs => vs

end

/-- What becomes of what stands under a key of an object. -/
def relabeledUnder (σ : String → String) (key : String) (v : Value) : Value :=
  if key ∈ belowKeys then relabeled σ v else if key = "data" then renamed σ v else v

variable (σ : String → String)

theorem relabeledItems_eq (items : List Value) :
    relabeledItems σ items = items.map (relabeled σ) := by
  induction items with
  | nil => rfl
  | cons v vs ih => rw [relabeledItems, ih, List.map_cons]

theorem relabeledEntries_eq (entries : Dict) :
    relabeledEntries σ entries = Dict.mapUnder (relabeledUnder σ) entries := by
  induction entries with
  | nil => rfl
  | cons e rest ih =>
    obtain ⟨key, v⟩ := e
    rw [relabeledEntries, ih]
    rfl

theorem relabeled_dict (entries : Dict) :
    relabeled σ (.dict entries) = .dict (Dict.mapUnder (relabeledUnder σ) entries) := by
  rw [relabeled, relabeledEntries_eq]

theorem relabeled_list (items : List Value) :
    relabeled σ (.list items) = .list (items.map (relabeled σ)) := by
  rw [relabeled, relabeledItems_eq]

end Value

theorem Dict.Under.mapUnder_relabeled {d : Dict} (h : d.Under propertyKeys) (σ : String → String) :
    Dict.mapUnder (Value.relabeledUnder σ) d = d := by
  have apart : ∀ key ∈ propertyKeys, key ∉ Value.belowKeys ∧ key ≠ "data" := by decide
  refine Dict.mapUnder_of_forall fun e mem => ?_
  obtain ⟨key, known, eq⟩ := h e mem
  refine ⟨key, by rw [eq]; rfl, ?_⟩
  rw [Value.relabeledUnder, if_neg (apart key known).1, if_neg (apart key known).2]

end ChartTree
