import ChartTree.Proofs.Chart.Trace

/-!
# Dataset tables

The table of a document lists the inline collections of the visited nodes, each once and in the
order in which the walk first meets them, whatever becomes of the data objects that refer to them.
It is the last entry of the root and stands nowhere else.
-/

namespace ChartTree

/-- A dataset table: collections under the stem of dataset names and their places. -/
def datasetTable (blobs : List Shared) : Dict :=
  blobs.zipIdx.map fun (blob, place) => (.string ("ds_" ++ toString place), blob.value)

namespace Shared

variable {blobs : List Shared} {a b : Shared}

theorem firsts_eq_nil_iff : firsts blobs = [] ↔ blobs = [] := by
  constructor
  · intro none
    cases blobs with
    | nil => rfl
    | cons b blobs =>
      obtain ⟨held, mem, _⟩ := exists_mem_firsts (List.mem_cons_self (a := b) (l := blobs))
      rw [none] at mem
      cases mem
  · rintro rfl
    rfl

/-- Different objects are left in different places, also if their contents are equal. -/
theorem exists_places (ha : a ∈ blobs) (hb : b ∈ blobs) (differ : a.id ≠ b.id) :
    ∃ i j : Nat, i ≠ j ∧ (firsts blobs)[i]?.map id = some a.id ∧
      (firsts blobs)[j]?.map id = some b.id := by
  obtain ⟨x, hx, x_id⟩ := exists_mem_firsts ha
  obtain ⟨y, hy, y_id⟩ := exists_mem_firsts hb
  obtain ⟨i, hi⟩ := List.mem_iff_getElem?.1 hx
  obtain ⟨j, hj⟩ := List.mem_iff_getElem?.1 hy
  refine ⟨i, j, ?_, by rw [hi, ← x_id]; rfl, by rw [hj, ← y_id]; rfl⟩
  rintro rfl
  rw [hi] at hj
  cases hj
  exact differ (x_id.symm.trans y_id)

end Shared

namespace Registry

variable {r : Registry} {blob : Shared}

/-- Under its name, and under no other key, a table holds a collection. -/
theorem get?_datasetTable_iff (distinct : r.Distinct) (holds : r.Holds blob) (key : Value) :
    (∃ held, Dict.get? (datasetTable r.blobs) key = some held ∧
      held.isIdentical blob.value = true) ↔ key.content = .string (r.nameOf blob) := by
  obtain ⟨place, met⟩ := holds
  have table : datasetTable r.blobs =
      Dict.ofFields (r.table.map fun entry => (entry.1, entry.2.value)) := by
    rw [datasetTable, Dict.ofFields, Registry.table, List.map_map, List.map_map]
    rfl
  have lookup : ∀ s, (r.table.map fun entry => (entry.1, entry.2.value)).lookup s =
      (r.table.lookup s).map Shared.value := by
    intro s
    induction r.table with
    | nil => rfl
    | cons entry rest ih =>
      rw [List.map_cons, List.lookup_cons, List.lookup_cons, ih]
      cases s == entry.1 <;> rfl
  rw [table, nameOf_of_place met, Dict.get?_ofFields_value]
  constructor
  · rintro ⟨held, found, identical⟩
    cases text : key.content with
    | string s =>
      rw [text] at found
      simp only [lookup, Option.map_eq_some_iff] at found
      obtain ⟨other, under, rfl⟩ := found
      obtain ⟨place', rfl, stands⟩ := lookup_table_eq_some_iff.1 under
      have same : other.same blob = true := by
        simpa [Value.isIdentical, Shared.value, Value.identity?, Shared.same] using identical
      rw [place?_of_getElem? distinct stands same] at met
      cases met
      rfl
    | _ =>
      rw [text] at found
      cases found
  · intro text
    obtain ⟨held, found, same⟩ := same_of_place met
    rw [text]
    simp only [lookup, lookup_table, found, Option.map_some]
    refine ⟨held.value, rfl, ?_⟩
    simpa [Value.isIdentical, Shared.value, Value.identity?, Shared.same] using same

end Registry

namespace Document

variable {d : Document} {entries : Dict}

theorem tableValue_eq (d : Document) : d.tableValue = .dict (datasetTable d.datasets.blobs) := by
  rw [tableValue, Registry.table, List.map_map]
  rfl

theorem toValue_of_empty (root : d.root = .dict entries) (none : d.datasets.blobs = []) :
    d.toValue = .dict entries := by
  have size : d.datasets.size = 0 := by
    rw [Registry.size, none]
    rfl
  rw [toValue, root]
  simp only [Value.content, size, if_pos]

theorem toValue_of_nonempty (root : d.root = .dict entries)
    (absent : Dict.get? entries (.string "datasets") = none) (some : d.datasets.blobs ≠ []) :
    d.toValue =
      .dict (entries ++ [(.string "datasets", .dict (datasetTable d.datasets.blobs))]) := by
  have size : d.datasets.size ≠ 0 := fun zero => some (List.eq_nil_of_length_eq_zero zero)
  rw [toValue, root]
  simp only [Value.content, if_neg size]
  rw [tableValue_eq]
  exact congrArg Value.dict (Dict.insert_of_absent absent _)

theorem field?_datasets (root : d.root = .dict entries) (some : d.datasets.blobs ≠ []) :
    d.toValue.field? "datasets" = .some (.dict (datasetTable d.datasets.blobs)) := by
  have size : d.datasets.size ≠ 0 := fun zero => some (List.eq_nil_of_length_eq_zero zero)
  rw [toValue, root]
  simp only [Value.content, if_neg size]
  rw [← tableValue_eq]
  exact Dict.get?_insert_self entries "datasets" d.tableValue

end Document

/-- The table of a document lists the first encounters of the inline collections of a chart. -/
structure ListsEncounters (c : Chart) (d : Document) : Prop where
  /-- There is a table exactly if there are inline collections. -/
  absent_iff : d.toValue.field? "datasets" = none ↔ c.blobs = []
  /-- The table is the last entry of the root. -/
  last : c.blobs ≠ [] → ∃ entries, Dict.get? entries (.string "datasets") = none ∧
    d.toValue = .dict
      (entries ++ [(.string "datasets", .dict (datasetTable (Shared.firsts c.blobs)))])
  /-- It has as many entries as there are different collections. -/
  size : (Shared.firsts c.blobs).length = (c.blobs.map Shared.id).toFinset.card
  /-- Different collections have different entries, also if their contents are equal. -/
  apart : ∀ a ∈ c.blobs, ∀ b ∈ c.blobs, a.id ≠ b.id → ∃ i j : Nat, i ≠ j ∧
    (Shared.firsts c.blobs)[i]?.map Shared.id = some a.id ∧
    (Shared.firsts c.blobs)[j]?.map Shared.id = some b.id
  /-- No other object has a table. -/
  root_only : ∃ root inside, d.placements c = some (root :: inside) ∧ root.object = d.toValue ∧
    ∀ p ∈ inside, p.object.field? "datasets" = none

/-- The dataset table of a built chart lists the inline collections of all visited nodes by first
encounter. -/
theorem datasets_by_first_encounter {c : Chart} {d : Document} (built : c.Built)
    (compiled : c.compile = .ok d) : ListsEncounters c d := by
  have shown := built.shown compiled
  obtain ⟨entries, root, absent⟩ := shown.entries
  obtain ⟨inside, placed, _, none_below⟩ := shown.trace
  have blobs : d.datasets.blobs = Shared.firsts c.blobs := by
    rw [shown.registry, Registry.blobs_addAll_empty]
  have full : c.blobs ≠ [] → d.toValue = .dict
      (entries ++ [(.string "datasets", .dict (datasetTable (Shared.firsts c.blobs)))]) := by
    intro some
    rw [← blobs]
    exact Document.toValue_of_nonempty root absent fun none =>
      some (Shared.firsts_eq_nil_iff.1 (blobs.symm.trans none))
  refine ⟨⟨fun missing => ?_, fun none => ?_⟩, fun some => ⟨entries, absent, full some⟩,
    Shared.length_firsts c.blobs, fun a ha b hb differ => Shared.exists_places ha hb differ,
    _, inside, placed, rfl, none_below⟩
  · by_contra some
    rw [full some] at missing
    exact Dict.get?_eq_none_iff.1 missing _ (List.mem_append_right _ (List.mem_singleton.2 rfl)) rfl
  · rw [Document.toValue_of_empty root (blobs.trans (Shared.firsts_eq_nil_iff.2 none))]
    exact absent

/-- Two units with equal but different rows and a third with the first rows again. -/
def encounterSteps : List Step :=
  let rows : Shared := ⟨.object 0, .list []⟩
  let others : Shared := ⟨.object 1, .list []⟩
  [.unit rows [], .unit others [], .unit rows [],
    .around .vconcat [⟨0, .unit⟩, ⟨1, .unit⟩, ⟨2, .unit⟩]]

theorem encounterSteps_checked : ∀ step ∈ encounterSteps, step.Checked := by
  simp only [encounterSteps, List.forall_mem_cons]
  exact ⟨Step.checked_unit _ List.nodup_nil, Step.checked_unit _ List.nodup_nil,
    Step.checked_unit _ List.nodup_nil, Step.checked_around _ _, fun _ mem => by cases mem⟩

theorem datasets_by_first_encounter_of_repeated_rows :
    ∃ c d, ((Session.start .unset).run encounterSteps).store.chart? 3 = some c ∧
      c.compile = .ok d ∧ c.blobs.map Shared.id = [.object 0, .object 1, .object 0] ∧
      d.toValue.field? "datasets" = some (.dict (datasetTable
        [⟨.object 0, .list []⟩, ⟨.object 1, .list []⟩])) ∧ ListsEncounters c d := by
  obtain ⟨c, d, found, compiled, met, table⟩ : ∃ c d,
      ((Session.start .unset).run encounterSteps).store.chart? 3 = some c ∧ c.compile = .ok d ∧
      c.blobs.map Shared.id = [.object 0, .object 1, .object 0] ∧
      d.toValue.field? "datasets" = some (.dict (datasetTable
        [⟨.object 0, .list []⟩, ⟨.object 1, .list []⟩])) := ⟨_, _, rfl, rfl, rfl, rfl⟩
  exact ⟨c, d, found, compiled, met, table,
    datasets_by_first_encounter ⟨.unset, encounterSteps, 3, encounterSteps_checked, found⟩ compiled⟩

end ChartTree
