import ChartTree.Proofs.Data.Registry

/-!
# A registry under questions

A registry is asked in any order for names, for its size and for its table. What it answers is told
from the questions alone: which objects were met before, and which of them are the same.

The names may as well be kept in a map of their own, beside the list that the table is made of.
Every question leaves the two in step, so that nobody who asks can tell the difference.
-/

namespace ChartTree

/-- A question to a registry. Asking for a name takes the object in. -/
inductive Query where
  | name (blob : Shared)
  | size
  | table

inductive Answer where
  | name (name : String)
  | size (size : Nat)
  | table (entries : List (String × Shared))

/-- What answers questions: a state with one operation for each kind of question. -/
structure Registrar (σ : Type) where
  nameFor : σ → Shared → String × σ
  size : σ → Nat
  table : σ → List (String × Shared)

namespace Registrar

variable {σ τ : Type}

def ask (k : Registrar σ) (s : σ) : Query → Answer × σ
  | .name blob => (.name (k.nameFor s blob).1, (k.nameFor s blob).2)
  | .size => (.size (k.size s), s)
  | .table => (.table (k.table s), s)

/-- The answers to questions asked one after the other. -/
def transcript (k : Registrar σ) (s : σ) : List Query → List Answer
  | [] => []
  | query :: queries => (k.ask s query).1 :: k.transcript (k.ask s query).2 queries

/-- Two states answer each question alike and stay related. -/
structure Simulates (k : Registrar σ) (l : Registrar τ) (R : σ → τ → Prop) : Prop where
  name : ∀ {s t}, R s t → ∀ blob, (k.nameFor s blob).1 = (l.nameFor t blob).1 ∧
    R (k.nameFor s blob).2 (l.nameFor t blob).2
  size : ∀ {s t}, R s t → k.size s = l.size t
  table : ∀ {s t}, R s t → k.table s = l.table t

theorem Simulates.ask {k : Registrar σ} {l : Registrar τ} {R : σ → τ → Prop}
    (sim : Simulates k l R) {s : σ} {t : τ} (related : R s t) (query : Query) :
    (k.ask s query).1 = (l.ask t query).1 ∧ R (k.ask s query).2 (l.ask t query).2 := by
  cases query with
  | name blob =>
    obtain ⟨name, next⟩ := sim.name related blob
    exact ⟨congrArg Answer.name name, next⟩
  | size => exact ⟨congrArg Answer.size (sim.size related), related⟩
  | table => exact ⟨congrArg Answer.table (sim.table related), related⟩

theorem Simulates.transcript {k : Registrar σ} {l : Registrar τ} {R : σ → τ → Prop}
    (sim : Simulates k l R) {s : σ} {t : τ} (related : R s t) (queries : List Query) :
    k.transcript s queries = l.transcript t queries := by
  induction queries generalizing s t with
  | nil => rfl
  | cons query queries ih =>
    obtain ⟨answer, next⟩ := sim.ask related query
    rw [Registrar.transcript, Registrar.transcript, answer, ih next]

end Registrar

/-! ### What the answers are told from -/

namespace Query

def blob? : Query → Option Shared
  | .name blob => some blob
  | _ => none

/-- The objects whose names were asked for, in order and with repetitions. -/
def met (queries : List Query) : List Shared :=
  queries.filterMap blob?

/-- How many different objects were asked for. -/
def distinct (queries : List Query) : Nat :=
  ((met queries).map Shared.id).toFinset.card

end Query

/-- Answers name objects by first encounter. -/
structure NamesByEncounter (queries : List Query) (answers : List Answer) : Prop where
  /-- Each question has its answer. -/
  answered : answers.length = queries.length
  /-- Two questions get one name exactly if they are for the identical object. -/
  names : ∀ {i j : Nat} {a b : Shared},
    queries[i]? = some (.name a) → queries[j]? = some (.name b) →
    ∃ s t, answers[i]? = some (.name s) ∧ answers[j]? = some (.name t) ∧ (s = t ↔ a.id = b.id)
  /-- An object that was not asked for before takes the next number. -/
  fresh : ∀ {i : Nat} {b : Shared}, queries[i]? = some (.name b) →
    (∀ a ∈ Query.met (queries.take i), a.id ≠ b.id) →
    answers[i]? = some (.name ("ds_" ++ toString (Query.distinct (queries.take i))))
  /-- The size is the number of different objects so far. -/
  size : ∀ {i : Nat}, queries[i]? = some .size →
    answers[i]? = some (.size (Query.distinct (queries.take i)))
  /-- A table has one entry for each object so far, under the numbers in order, and under the name
  that an object was given stands the identical object. -/
  table : ∀ {i : Nat}, queries[i]? = some .table → ∃ entries,
    answers[i]? = some (.table entries) ∧
    entries.length = Query.distinct (queries.take i) ∧
    entries.map Prod.fst = (List.range (Query.distinct (queries.take i))).map
      (fun place => "ds_" ++ toString place) ∧
    (entries.map Prod.fst).Nodup ∧
    ∀ {j : Nat} {b : Shared}, j < i → queries[j]? = some (.name b) → ∃ s held,
      answers[j]? = some (.name s) ∧ entries.lookup s = some held ∧ held.id = b.id
  /-- A later table begins with every earlier one. -/
  grows : ∀ {i j : Nat} {earlier later : List (String × Shared)}, i ≤ j →
    answers[i]? = some (.table earlier) → answers[j]? = some (.table later) → earlier <+: later

namespace Registry

/-- A registry as it answers questions. -/
def registrar : Registrar Registry :=
  ⟨nameFor, size, table⟩

variable {r t : Registry} {blob : Shared} {blobs : List Shared}

/-! ### Tables -/

theorem length_table (r : Registry) : r.table.length = r.size := by
  rw [table, List.length_map, List.length_zipIdx, size]

theorem keys_table (r : Registry) :
    r.table.map Prod.fst = (List.range r.size).map datasetName := by
  rw [table, List.map_map, size, List.range_eq_range', ← List.zipIdx_map_snd 0 r.blobs,
    List.map_map]
  rfl

theorem nodup_keys_table (r : Registry) : (r.table.map Prod.fst).Nodup := by
  rw [keys_table]
  exact List.nodup_range.map fun _ _ => datasetName_injective

theorem prefix_table (le : r.blobs <+: t.blobs) : r.table <+: t.table := by
  obtain ⟨rest, eq⟩ := le
  rw [table, table, ← eq, List.zipIdx_append, List.map_append]
  exact List.prefix_append ..

/-- Under the name of a collection that was met, the table has the identical object. -/
theorem lookup_nameOf (h : r.Holds blob) :
    ∃ held, r.table.lookup (r.nameOf blob) = some held ∧ held.id = blob.id := by
  obtain ⟨place, met⟩ := h
  obtain ⟨held, stands, same⟩ := same_of_place met
  exact ⟨held, by rw [nameOf_of_place met, lookup_table, stands], Shared.same_iff.1 same⟩

theorem nameOf_of_not_holds (h : ¬ r.Holds blob) : r.nameOf blob = datasetName r.size := by
  cases place : r.place? blob with
  | none => rw [nameOf, nameFor, place]
  | some i => exact (h ⟨i, place⟩).elim

theorem not_holds_addAll_empty (h : ∀ a ∈ blobs, a.id ≠ blob.id) :
    ¬ (empty.addAll blobs).Holds blob := by
  intro holds
  obtain ⟨held, mem, same⟩ := holds_iff.1 holds
  rw [blobs_addAll_empty] at mem
  exact h held (Shared.mem_of_mem_firsts mem) (Shared.same_iff.1 same)

theorem size_addAll_empty (blobs : List Shared) :
    (empty.addAll blobs).size = (blobs.map Shared.id).toFinset.card := by
  rw [size, blobs_addAll_empty, Shared.length_firsts]

/-! ### Answers -/

theorem ask_snd (r : Registry) (query : Query) :
    (registrar.ask r query).2 = r.addAll (Query.met [query]) := by
  cases query <;> rfl

/-- A question is answered by the registry that has met what was asked for before. -/
theorem getElem?_transcript (r : Registry) (queries : List Query) (i : Nat) :
    (registrar.transcript r queries)[i]? = queries[i]?.map fun query =>
      (registrar.ask (r.addAll (Query.met (queries.take i))) query).1 := by
  induction queries generalizing r i with
  | nil => rfl
  | cons query queries ih =>
    cases i with
    | zero => rfl
    | succ i =>
      have met : Query.met ((query :: queries).take (i + 1)) =
          Query.met [query] ++ Query.met (queries.take i) := by
        rw [List.take_succ_cons, Query.met, Query.met, Query.met, ← List.filterMap_append]
        rfl
      rw [Registrar.transcript, List.getElem?_cons_succ, List.getElem?_cons_succ, ih, met,
        addAll_append, ask_snd]

theorem length_transcript (r : Registry) (queries : List Query) :
    (registrar.transcript r queries).length = queries.length := by
  induction queries generalizing r with
  | nil => rfl
  | cons query queries ih => rw [Registrar.transcript, List.length_cons, List.length_cons, ih]

/-- The registry that has met what the first questions were for. -/
def upTo (queries : List Query) (i : Nat) : Registry :=
  empty.addAll (Query.met (queries.take i))

variable {queries : List Query} {i j : Nat}

theorem size_upTo (queries : List Query) (i : Nat) :
    (upTo queries i).size = Query.distinct (queries.take i) :=
  size_addAll_empty _

theorem prefix_blobs_upTo (le : i ≤ j) : (upTo queries i).blobs <+: (upTo queries j).blobs := by
  obtain ⟨later, eq⟩ := List.take_prefix_take_left (l := queries) le
  rw [upTo, upTo, ← eq, Query.met, Query.met, List.filterMap_append, addAll_append]
  exact prefix_addAll ..

/-- An object that was asked for is held from then on. -/
theorem holds_upTo {b : Shared} (asked : queries[j]? = some (.name b)) (before : j < i) :
    (upTo queries i).Holds b := by
  have taken : (queries.take i)[j]? = some (.name b) := by
    rw [List.getElem?_take_of_lt before, asked]
  have met : b ∈ Query.met (queries.take i) :=
    List.mem_filterMap.2 ⟨_, List.mem_of_getElem? taken, rfl⟩
  exact holds_addAll _ met

theorem upTo_succ {b : Shared} (asked : queries[j]? = some (.name b)) :
    upTo queries (j + 1) = (upTo queries j).add b := by
  rw [upTo, List.take_add_one, asked, Query.met, List.filterMap_append, addAll_append]
  rfl

/-- The name that an object was given is the name that every later registry has for it. -/
theorem nameOf_upTo {b : Shared} (asked : queries[j]? = some (.name b)) (before : j < i) :
    (upTo queries i).nameOf b = (upTo queries j).nameOf b := by
  rw [← nameOf_add_self (upTo queries j) b, ← upTo_succ asked]
  exact nameOf_of_growth (holds_upTo asked (Nat.lt_succ_self j)) (prefix_blobs_upTo before)

theorem answer_name {b : Shared} (asked : queries[i]? = some (.name b)) :
    (registrar.transcript empty queries)[i]? = some (.name ((upTo queries i).nameOf b)) := by
  rw [getElem?_transcript, asked]
  rfl

theorem answer_table (asked : queries[i]? = some .table) :
    (registrar.transcript empty queries)[i]? = some (.table (upTo queries i).table) := by
  rw [getElem?_transcript, asked]
  rfl

/-- A table among the answers is that of the registry at its question. -/
theorem eq_table_of_answer {entries : List (String × Shared)}
    (answer : (registrar.transcript empty queries)[i]? = some (.table entries)) :
    entries = (upTo queries i).table := by
  rw [getElem?_transcript] at answer
  obtain ⟨query, _, answer⟩ := Option.map_eq_some_iff.1 answer
  cases query with
  | name blob => cases answer
  | size => cases answer
  | table =>
    cases answer
    rfl

theorem names_transcript {a b : Shared} (ha : queries[i]? = some (.name a))
    (hb : queries[j]? = some (.name b)) :
    (upTo queries i).nameOf a = (upTo queries j).nameOf b ↔ a.id = b.id := by
  -- Both names are those of one later registry, which holds both objects.
  have i_lt : i < max i j + 1 := Nat.lt_succ_of_le (Nat.le_max_left i j)
  have j_lt : j < max i j + 1 := Nat.lt_succ_of_le (Nat.le_max_right i j)
  rw [← nameOf_upTo ha i_lt, ← nameOf_upTo hb j_lt,
    nameOf_eq_iff (holds_upTo ha i_lt) (holds_upTo hb j_lt), Shared.same_iff]

theorem namesByEncounter_transcript (queries : List Query) :
    NamesByEncounter queries (registrar.transcript empty queries) where
  answered := length_transcript empty queries
  names ha hb := ⟨_, _, answer_name ha, answer_name hb, names_transcript ha hb⟩
  fresh {i b} asked new := by
    have absent : ¬ (upTo queries i).Holds b := not_holds_addAll_empty new
    rw [answer_name asked, nameOf_of_not_holds absent, size_upTo, datasetName_eq]
  size {i} asked := by
    rw [getElem?_transcript, asked, ← size_upTo]
    rfl
  table {i} asked := by
    refine ⟨_, answer_table asked, ?_, ?_, nodup_keys_table _, ?_⟩
    · rw [length_table, size_upTo]
    · rw [keys_table, size_upTo]
      rfl
    · intro j b before given
      obtain ⟨held, found, same⟩ := lookup_nameOf (holds_upTo given before)
      exact ⟨_, held, answer_name given, nameOf_upTo given before ▸ found, same⟩
  grows le earlier later := by
    rw [eq_table_of_answer earlier, eq_table_of_answer later]
    exact prefix_table (prefix_blobs_upTo le)

end Registry

/-! ### Names in a map of their own -/

/-- A registry that keeps the names it gave by identity, beside the collections in order. -/
structure Indexed where
  names : List (Identity × String)
  blobs : List Shared

namespace Indexed

def empty : Indexed :=
  ⟨[], []⟩

/-- The name under the identity of a collection, which is given and listed if there is none. -/
def nameFor (r : Indexed) (blob : Shared) : String × Indexed :=
  match r.names.lookup blob.id with
  | some name => (name, r)
  | none =>
    let name := datasetName r.blobs.length
    (name, ⟨r.names ++ [(blob.id, name)], r.blobs ++ [blob]⟩)

def registrar : Registrar Indexed where
  nameFor := nameFor
  size r := r.blobs.length
  table r := (Registry.mk r.blobs).table

/-- The map gives each listed collection the name of its place. -/
def InStep (r : Indexed) (t : Registry) : Prop :=
  r.blobs = t.blobs ∧
    r.names = t.blobs.zipIdx.map fun (blob, place) => (blob.id, datasetName place)

theorem lookup_names (blobs : List Shared) (start : Nat) (blob : Shared) :
    ((blobs.zipIdx start).map fun (held, place) => (held.id, datasetName place)).lookup blob.id =
      (blobs.findIdx? fun held => held.same blob).map fun place => datasetName (start + place) := by
  induction blobs generalizing start with
  | nil => rfl
  | cons held blobs ih =>
    rw [List.zipIdx_cons, List.map_cons, List.lookup_cons, List.findIdx?_cons]
    by_cases same : held.same blob = true
    · rw [if_pos same, Shared.same_iff.1 same]
      simp
    · have differ : blob.id ≠ held.id := fun eq => same (Shared.same_iff.2 eq.symm)
      rw [if_neg same, beq_eq_false_iff_ne.2 differ, ih, Option.map_map]
      refine congrFun (congrArg Option.map (funext fun place => ?_)) _
      rw [Function.comp_apply, Nat.add_right_comm, Nat.add_assoc]

theorem InStep.lookup {r : Indexed} {t : Registry} (h : r.InStep t) (blob : Shared) :
    r.names.lookup blob.id = (t.place? blob).map datasetName := by
  rw [h.2, lookup_names, Registry.place?]
  simp only [Nat.zero_add]

/-- Asking for a name leaves the map and the list in step. -/
theorem InStep.nameFor {r : Indexed} {t : Registry} (h : r.InStep t) (blob : Shared) :
    (r.nameFor blob).1 = (t.nameFor blob).1 ∧ (r.nameFor blob).2.InStep (t.nameFor blob).2 := by
  have found := h.lookup blob
  rw [Indexed.nameFor, Registry.nameFor]
  cases place : t.place? blob with
  | some place =>
    rw [place] at found
    rw [found]
    exact ⟨rfl, h⟩
  | none =>
    rw [place] at found
    rw [found]
    obtain ⟨blobs, names⟩ := h
    refine ⟨congrArg (fun held : List Shared => datasetName held.length) blobs,
      congrArg (· ++ [blob]) blobs, ?_⟩
    show r.names ++ _ = (t.blobs ++ [blob]).zipIdx.map _
    rw [names, blobs, List.zipIdx_append, List.map_append, Nat.zero_add]
    rfl

theorem inStep_empty : Indexed.empty.InStep Registry.empty :=
  ⟨rfl, rfl⟩

theorem simulates : Registrar.Simulates registrar Registry.registrar InStep where
  name h := h.nameFor
  size h := congrArg List.length h.1
  table h := congrArg (fun blobs => (Registry.mk blobs).table) h.1

/-- Names in a map of their own give the same answers. -/
theorem transcript_eq (queries : List Query) :
    registrar.transcript empty queries = Registry.registrar.transcript Registry.empty queries :=
  simulates.transcript inStep_empty queries

end Indexed

/-- Whatever a registry is asked and in whichever order, it names objects by first encounter; and
so it does if it keeps the names by identity apart from the list that its table is made of. -/
theorem names_by_first_encounter (queries : List Query) :
    NamesByEncounter queries (Registry.registrar.transcript Registry.empty queries) ∧
    NamesByEncounter queries (Indexed.registrar.transcript Indexed.empty queries) := by
  refine ⟨Registry.namesByEncounter_transcript queries, ?_⟩
  rw [Indexed.transcript_eq]
  exact Registry.namesByEncounter_transcript queries

end ChartTree
