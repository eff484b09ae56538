import Mathlib.Data.Finset.Card
import ChartTree.Data.Registry

/-!
# Names of inline collections

A registry grows at its end only, so a name once given stays. Taking in many collections leaves
each of them once, in the order of their first encounter, and two collections that were met have
one name exactly if they are the same object.
-/

namespace ChartTree

namespace Shared

theorem same_iff {a b : Shared} : a.same b = true ↔ a.id = b.id := by
  simp [same]

theorem same_self (a : Shared) : a.same a = true :=
  same_iff.2 rfl

theorem same_comm (a b : Shared) : a.same b = b.same a := by
  rw [Bool.eq_iff_iff, same_iff, same_iff, eq_comm]

theorem same_trans {a b c : Shared} (h : a.same b = true) (h' : b.same c = true) :
    a.same c = true :=
  same_iff.2 ((same_iff.1 h).trans (same_iff.1 h'))

/-- The objects of a list without later repetitions of one object. -/
def firsts (blobs : List Shared) : List Shared :=
  blobs.eraseDupsBy same

end Shared

theorem datasetName_injective {i j : Nat} (h : datasetName i = datasetName j) : i = j := by
  rw [datasetName, datasetName, String.append_right_inj, String.ofList_inj] at h
  exact Text.decimal_injective h

theorem datasetName_eq (i : Nat) : datasetName i = "ds_" ++ toString i := rfl

namespace Registry

/-- The registry after a collection was met. -/
def add (r : Registry) (blob : Shared) : Registry :=
  (r.nameFor blob).2

/-- The registry after many collections were met in order. -/
def addAll (r : Registry) (blobs : List Shared) : Registry :=
  blobs.foldl add r

/-- The name that a collection has in a registry. -/
def nameOf (r : Registry) (blob : Shared) : String :=
  (r.nameFor blob).1

/-- A collection was met. -/
def Holds (r : Registry) (blob : Shared) : Prop :=
  ∃ place, r.place? blob = some place

/-- No object is listed twice. -/
def Distinct (r : Registry) : Prop :=
  r.blobs.Pairwise fun a b => a.same b = false

variable {r t : Registry} {a b blob : Shared} {blobs : List Shared}

theorem holds_iff : r.Holds blob ↔ ∃ held ∈ r.blobs, held.same blob = true := by
  rw [Holds, ← Option.isSome_iff_exists, place?, List.findIdx?_isSome, List.any_eq_true]

theorem nameOf_of_place {place : Nat} (h : r.place? blob = some place) :
    r.nameOf blob = datasetName place := by
  rw [nameOf, nameFor, h]

theorem add_of_holds (h : r.Holds blob) : r.add blob = r := by
  obtain ⟨place, h⟩ := h
  rw [add, nameFor, h]

theorem blobs_add_of_not_holds (h : ¬ r.Holds blob) : (r.add blob).blobs = r.blobs ++ [blob] := by
  cases place : r.place? blob with
  | none => rw [add, nameFor, place]
  | some i => exact (h ⟨i, place⟩).elim

theorem nameOf_eq (r : Registry) (blob : Shared) : ∃ place, r.nameOf blob = datasetName place := by
  rw [nameOf, nameFor]
  cases r.place? blob with
  | none => exact ⟨_, rfl⟩
  | some place => exact ⟨place, rfl⟩

theorem nameOf_truthy (r : Registry) (blob : Shared) :
    (Value.string (r.nameOf blob)).truthy = true := by
  obtain ⟨place, name⟩ := r.nameOf_eq blob
  rw [name, datasetName_eq]
  simp [Value.truthy, Value.content, Content.truthy]

theorem place?_of_same (r : Registry) (same : a.same b = true) : r.place? a = r.place? b := by
  have eq : (fun held : Shared => held.same a) = fun held => held.same b := by
    funext held
    rw [Bool.eq_iff_iff, Shared.same_iff, Shared.same_iff, Shared.same_iff.1 same]
  rw [place?, place?, eq]

theorem Holds.of_same (h : r.Holds a) (same : a.same b = true) : r.Holds b := by
  rwa [Holds, ← r.place?_of_same same]

theorem nameOf_of_same (r : Registry) (same : a.same b = true) : r.nameOf a = r.nameOf b := by
  rw [nameOf, nameOf, nameFor, nameFor, r.place?_of_same same]
  cases r.place? b <;> rfl

/-! ### Growth -/

theorem prefix_add (r : Registry) (blob : Shared) : r.blobs <+: (r.add blob).blobs := by
  by_cases h : r.Holds blob
  · exact ⟨[], by rw [add_of_holds h, List.append_nil]⟩
  · rw [blobs_add_of_not_holds h]
    exact List.prefix_append ..

theorem prefix_addAll (r : Registry) (blobs : List Shared) :
    r.blobs <+: (r.addAll blobs).blobs := by
  induction blobs generalizing r with
  | nil => exact List.prefix_rfl
  | cons b blobs ih => exact (prefix_add r b).trans (ih (r.add b))

theorem addAll_append (r : Registry) (xs ys : List Shared) :
    r.addAll (xs ++ ys) = (r.addAll xs).addAll ys :=
  List.foldl_append

theorem place?_of_growth (le : r.blobs <+: t.blobs) {place : Nat} (h : r.place? blob = some place) :
    t.place? blob = some place := by
  obtain ⟨rest, eq⟩ := le
  rw [place?] at h ⊢
  rw [← eq, List.findIdx?_append, h, Option.some_or]

theorem Holds.of_growth (h : r.Holds blob) (le : r.blobs <+: t.blobs) : t.Holds blob := by
  obtain ⟨place, h⟩ := h
  exact ⟨place, place?_of_growth le h⟩

theorem nameOf_of_growth (h : r.Holds blob) (le : r.blobs <+: t.blobs) :
    t.nameOf blob = r.nameOf blob := by
  obtain ⟨place, h⟩ := h
  rw [nameOf_of_place h, nameOf_of_place (place?_of_growth le h)]

theorem holds_add_self (r : Registry) (blob : Shared) : (r.add blob).Holds blob := by
  by_cases h : r.Holds blob
  · rwa [add_of_holds h]
  · rw [holds_iff, blobs_add_of_not_holds h]
    exact ⟨blob, by simp, Shared.same_self blob⟩

/-- A collection has the name that it is given when it is met. -/
theorem nameOf_add_self (r : Registry) (blob : Shared) :
    (r.add blob).nameOf blob = r.nameOf blob := by
  by_cases h : r.Holds blob
  · rw [add_of_holds h]
  · have absent : r.blobs.findIdx? (fun held => held.same blob) = none := by
      cases place : r.place? blob with
      | none => exact place
      | some i => exact (h ⟨i, place⟩).elim
    have place : (r.add blob).place? blob = some r.size := by
      rw [place?, blobs_add_of_not_holds h, List.findIdx?_append, absent, Option.none_or]
      simp [List.findIdx?_cons, Shared.same_self, size]
    rw [nameOf_of_place place, nameOf, nameFor, place?, absent]

theorem holds_addAll (r : Registry) (mem : blob ∈ blobs) : (r.addAll blobs).Holds blob := by
  induction blobs generalizing r with
  | nil => cases mem
  | cons b blobs ih =>
    rcases List.mem_cons.1 mem with rfl | mem
    · exact (holds_add_self r blob).of_growth (prefix_addAll (r.add blob) blobs)
    · exact ih (r.add b) mem

theorem addAll_filter (h : r.Holds b) (blobs : List Shared) :
    r.addAll (blobs.filter fun x => decide (x.same b = false)) = r.addAll blobs := by
  induction blobs generalizing r with
  | nil => rfl
  | cons x blobs ih =>
    cases same : x.same b with
    | true =>
      have held : r.Holds x := h.of_same (Shared.same_comm b x ▸ same)
      have again : r.addAll (x :: blobs) = (r.add x).addAll blobs := rfl
      rw [List.filter_cons_of_neg (by simp [same]), again, add_of_holds held, ih h]
    | false =>
      rw [List.filter_cons_of_pos (by simp [same])]
      exact ih (h.of_growth (prefix_add r x))

/-! ### First encounters -/

/-- Of the collections met, those not met before are taken in, each at its first encounter. -/
theorem blobs_addAll (r : Registry) (blobs : List Shared) :
    (r.addAll blobs).blobs = r.blobs ++
      (blobs.filter fun b => !r.blobs.any (·.same b)).eraseDupsBy Shared.same := by
  induction blobs generalizing r with
  | nil => simp [addAll]
  | cons b blobs ih =>
    have step : (r.addAll (b :: blobs)).blobs = ((r.add b).addAll blobs).blobs := rfl
    rw [step, ih (r.add b)]
    by_cases h : r.Holds b
    · have held : r.blobs.any (·.same b) = true := by
        rw [List.any_eq_true]
        exact holds_iff.1 h
      rw [add_of_holds h, List.filter_cons_of_neg (by simp [held])]
    · have unheld : r.blobs.any (·.same b) = false := by
        rw [Bool.eq_false_iff, ne_eq, List.any_eq_true, ← holds_iff]
        exact h
      rw [List.filter_cons_of_pos (by simp [unheld]), List.eraseDupsBy_cons,
        blobs_add_of_not_holds h, List.append_assoc, List.filter_filter]
      have left : (blobs.filter fun x => !(r.blobs ++ [b]).any (·.same x)) =
          blobs.filter fun x => decide (x.same b = false) && !r.blobs.any (·.same x) := by
        refine List.filter_congr fun x _ => ?_
        rw [List.any_append, Shared.same_comm x b]
        cases r.blobs.any (·.same x) <;> simp
      rw [left]
      rfl

theorem blobs_addAll_empty (blobs : List Shared) :
    (empty.addAll blobs).blobs = Shared.firsts blobs := by
  have all : (blobs.filter fun b => !(empty.blobs).any (·.same b)) = blobs :=
    List.filter_eq_self.2 fun _ _ => rfl
  rw [blobs_addAll, all]
  rfl

theorem mem_of_mem_addAll (h : blob ∈ (r.addAll blobs).blobs) : blob ∈ r.blobs ∨ blob ∈ blobs := by
  induction blobs generalizing r with
  | nil => exact .inl h
  | cons b blobs ih =>
    rcases ih h with h | h
    · by_cases held : r.Holds b
      · rw [add_of_holds held] at h
        exact .inl h
      · rw [blobs_add_of_not_holds held, List.mem_append, List.mem_singleton] at h
        exact h.imp_right fun eq => List.mem_cons.2 (.inl eq)
    · exact .inr (List.mem_cons_of_mem _ h)

/-- Taking in the first encounters takes in all. -/
theorem addAll_firsts (r : Registry) (blobs : List Shared) :
    r.addAll (Shared.firsts blobs) = r.addAll blobs := by
  cases blobs with
  | nil => rfl
  | cons b blobs =>
    have split : Shared.firsts (b :: blobs) =
        b :: Shared.firsts (blobs.filter fun x => decide (x.same b = false)) := by
      rw [Shared.firsts, List.eraseDupsBy_cons]
      rfl
    have rest := addAll_firsts (r.add b) (blobs.filter fun x => decide (x.same b = false))
    -- Once the first is held, its repetitions may be left in or out.
    rw [addAll_filter (holds_add_self r b)] at rest
    rw [split]
    exact rest
termination_by blobs.length
decreasing_by exact Nat.lt_succ_of_le (List.length_filter_le _ _)

theorem Holds.of_empty_addAll (h : (empty.addAll blobs).Holds blob) (r : Registry) :
    (r.addAll blobs).Holds blob := by
  obtain ⟨held, mem, same⟩ := holds_iff.1 h
  rcases mem_of_mem_addAll mem with mem | mem
  · cases mem
  · exact (holds_addAll r mem).of_same same

theorem distinct_add (h : r.Distinct) (blob : Shared) : (r.add blob).Distinct := by
  by_cases held : r.Holds blob
  · rwa [add_of_holds held]
  · rw [Distinct, blobs_add_of_not_holds held, List.pairwise_append]
    refine ⟨h, List.pairwise_singleton _ _, fun x hx y hy => ?_⟩
    rw [List.mem_singleton.1 hy, Bool.eq_false_iff]
    exact fun same => held (holds_iff.2 ⟨x, hx, same⟩)

theorem distinct_addAll (h : r.Distinct) (blobs : List Shared) : (r.addAll blobs).Distinct := by
  induction blobs generalizing r with
  | nil => exact h
  | cons b blobs ih => exact ih (distinct_add h b)

theorem distinct_iff : r.Distinct ↔ (r.blobs.map Shared.id).Nodup := by
  rw [Distinct, List.Nodup, List.pairwise_map]
  simp only [Bool.eq_false_iff, ne_eq, Shared.same_iff]

theorem distinct_empty : empty.Distinct :=
  List.Pairwise.nil

end Registry

namespace Shared

variable {blobs : List Shared} {b : Shared}

theorem nodup_firsts (blobs : List Shared) : ((firsts blobs).map id).Nodup := by
  rw [← Registry.blobs_addAll_empty, ← Registry.distinct_iff]
  exact Registry.distinct_addAll Registry.distinct_empty blobs

theorem exists_mem_firsts (mem : b ∈ blobs) : ∃ held ∈ firsts blobs, held.id = b.id := by
  have holds : (Registry.empty.addAll blobs).Holds b := Registry.holds_addAll _ mem
  rw [Registry.holds_iff, Registry.blobs_addAll_empty] at holds
  obtain ⟨held, mem, same⟩ := holds
  exact ⟨held, mem, same_iff.1 same⟩

theorem mem_of_mem_firsts (h : b ∈ firsts blobs) : b ∈ blobs := by
  rw [← Registry.blobs_addAll_empty] at h
  rcases Registry.mem_of_mem_addAll h with h | h
  · cases h
  · exact h

theorem length_firsts (blobs : List Shared) :
    (firsts blobs).length = (blobs.map id).toFinset.card := by
  have same_ids : (blobs.map id).toFinset = ((firsts blobs).map id).toFinset := by
    ext i
    simp only [List.mem_toFinset, List.mem_map]
    constructor
    · rintro ⟨b, mem, rfl⟩
      exact exists_mem_firsts mem
    · rintro ⟨held, mem, rfl⟩
      exact ⟨held, mem_of_mem_firsts mem, rfl⟩
  rw [same_ids, List.toFinset_card_of_nodup (nodup_firsts blobs), List.length_map]

end Shared

namespace Registry

variable {r t : Registry} {a b blob : Shared}

/-! ### Names and objects -/

theorem same_of_place {place : Nat} (h : r.place? blob = some place) :
    ∃ held, r.blobs[place]? = some held ∧ held.same blob = true := by
  obtain ⟨bound, same, _⟩ := List.findIdx?_eq_some_iff_getElem.1 h
  exact ⟨_, List.getElem?_eq_getElem bound, same⟩

/-- Where no object is listed twice, a collection has the place at which it stands. -/
theorem place?_of_getElem? (distinct : r.Distinct) {place : Nat} {held : Shared}
    (h : r.blobs[place]? = some held) (same : held.same blob = true) :
    r.place? blob = some place := by
  obtain ⟨bound, rfl⟩ := List.getElem?_eq_some_iff.1 h
  rw [place?, List.findIdx?_eq_some_iff_getElem]
  refine ⟨bound, same, fun j hj => ?_⟩
  have apart := List.pairwise_iff_getElem.1 distinct j place (Nat.lt_trans hj bound) bound hj
  rw [Bool.not_eq_true, Bool.eq_false_iff]
  intro same'
  rw [Shared.same_trans same' (Shared.same_comm _ _ ▸ same)] at apart
  cases apart

theorem lookup_zipIdx (blobs : List Shared) (start place : Nat) :
    ((blobs.zipIdx start).map fun (blob, place) => (datasetName place, blob)).lookup
      (datasetName (start + place)) = blobs[place]? := by
  induction blobs generalizing start place with
  | nil => rfl
  | cons b blobs ih =>
    rw [List.zipIdx_cons, List.map_cons, List.lookup_cons]
    cases place with
    | zero => simp
    | succ place =>
      have differ : datasetName (start + (place + 1)) ≠ datasetName start := fun same => by
        have := datasetName_injective same
        omega
      have shift : start + (place + 1) = start + 1 + place := by omega
      rw [beq_eq_false_iff_ne.2 differ, List.getElem?_cons_succ, ← ih (start + 1) place, shift]

theorem lookup_table (r : Registry) (place : Nat) :
    r.table.lookup (datasetName place) = r.blobs[place]? := by
  have at_place := lookup_zipIdx r.blobs 0 place
  rwa [Nat.zero_add] at at_place

/-- What stands under a text is the collection of the place that has the text as name. -/
theorem lookup_table_eq_some_iff {s : String} {held : Shared} :
    r.table.lookup s = some held ↔
      ∃ place, s = datasetName place ∧ r.blobs[place]? = some held := by
  constructor
  · intro h
    obtain ⟨before, after, split, _⟩ := List.lookup_eq_some_iff.1 h
    have mem : (s, held) ∈ r.table := split ▸ List.mem_append_right _ (List.mem_cons_self ..)
    obtain ⟨⟨held', place⟩, found, eq⟩ := List.mem_map.1 mem
    cases eq
    exact ⟨place, rfl, List.mem_zipIdx_iff_getElem?.1 found⟩
  · rintro ⟨place, rfl, found⟩
    rw [lookup_table, found]

/-- Two collections that were met have one name exactly if they are the same object. -/
theorem nameOf_eq_iff (ha : r.Holds a) (hb : r.Holds b) :
    r.nameOf a = r.nameOf b ↔ a.same b = true := by
  obtain ⟨i, hi⟩ := ha
  obtain ⟨j, hj⟩ := hb
  rw [nameOf_of_place hi, nameOf_of_place hj]
  constructor
  · intro h
    cases datasetName_injective h
    obtain ⟨x, hx, same⟩ := same_of_place hi
    obtain ⟨y, hy, same'⟩ := same_of_place hj
    rw [hx] at hy
    cases hy
    exact Shared.same_trans (Shared.same_comm _ _ ▸ same) same'
  · intro same
    rw [r.place?_of_same same, hj] at hi
    cases hi
    rfl

/-! ### Names in another registry -/

/-- The names in one registry become those in another. -/
def Renames (σ : String → String) (r t : Registry) : Prop :=
  ∀ blob, r.Holds blob → t.Holds blob ∧ σ (r.nameOf blob) = t.nameOf blob

/-- The name in another registry of the collection that has a name in this one. -/
def newName (r t : Registry) (name : String) : String :=
  match r.table.lookup name with
  | some blob => t.nameOf blob
  | none => name

theorem renames_newName (h : ∀ blob, r.Holds blob → t.Holds blob) :
    r.Renames (r.newName t) t := by
  rintro blob ⟨place, met⟩
  refine ⟨h blob ⟨place, met⟩, ?_⟩
  obtain ⟨held, stands, same⟩ := same_of_place met
  rw [nameOf_of_place met, newName, lookup_table, stands]
  exact t.nameOf_of_same same

/-- Under its new name the other registry lists the same object. -/
theorem lookup_newName (h : ∀ blob, r.Holds blob → t.Holds blob) {name : String}
    (listed : r.table.lookup name = some blob) :
    ∃ held, t.table.lookup (r.newName t name) = some held ∧ held.same blob = true := by
  obtain ⟨place, _, stands⟩ := lookup_table_eq_some_iff.1 listed
  obtain ⟨place', met⟩ := h blob
    (holds_iff.2 ⟨blob, List.mem_of_getElem? stands, Shared.same_self blob⟩)
  obtain ⟨held, found, same⟩ := same_of_place met
  refine ⟨held, ?_, same⟩
  rw [newName, listed]
  show t.table.lookup (t.nameOf blob) = some held
  rw [nameOf_of_place met, lookup_table, found]

end Registry

end ChartTree
