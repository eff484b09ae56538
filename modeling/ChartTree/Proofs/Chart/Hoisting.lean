import ChartTree.Proofs.Chart.Trace

/-!
# Data of facets

Which object of a document has data. A facet takes the first data object of its subtree, itself
included; the node that brought it has none, a later node has its own exactly if that means other
data, and what stands outside of the facet is not touched by it. All of this is said of the
placements of a document and derived from its trace.
-/

namespace ChartTree

/-- A node that has its own data object, if it has a reference. -/
def Placement.Alone (registry : Registry) (p : Placement) : Prop :=
  match p.chart.reference? with
  | none => p.data? = none
  | some r => ∃ object, r.resolved registry = .ok object ∧ p.data? = some (.dict object)

/-- A node that comes after the data object of its facet and has its own exactly if that means
other data. -/
def Placement.After (registry : Registry) (first : DataObject) (p : Placement) : Prop :=
  match p.chart.reference? with
  | none => p.data? = none
  | some r => ∃ object met, r.resolved registry = .ok object ∧
      first.sameData object = .ok met ∧ p.data? = if met then none else some (.dict object)

/-- A facet and the placements of its subtree, itself first. -/
structure Hoists (registry : Registry) (facet : Placement) (subtree : List Placement) : Prop where
  /-- What stands below the facet stands in no other. -/
  inside : ∀ p ∈ subtree.tail, p.facet = some facet.object ∧ p.chart.kind? ≠ some .facet
  /-- Without references there are no data. -/
  bare : (∀ p ∈ subtree, p.chart.reference? = none) → ∀ p ∈ subtree, p.data? = none
  /-- The first data object moves to the facet. -/
  first : ∀ before p after r, subtree = before ++ p :: after →
    (∀ q ∈ before, q.chart.reference? = none) → p.chart.reference? = some r →
    ∃ object, r.resolved registry = .ok object ∧ facet.data? = some (.dict object) ∧
      (∀ q ∈ (before ++ [p]).tail, q.data? = none) ∧ ∀ q ∈ after, q.After registry object

namespace Trace

variable {registry : Registry} {facet : Option Value} {object : Value} {s t : FacetScope}
  {ps : List Placement}

/-- There is no facet in a facet. -/
theorem inside_facet (h : Trace registry facet s ps t) (inside : facet = some object) :
    ∀ p ∈ ps, p.facet = some object ∧ p.chart.kind? ≠ some .facet := by
  induction h with
  | nil => exact fun p hp => by cases hp
  | node kind around passes _ ih =>
    intro q hq
    rcases List.mem_cons.1 hq with rfl | hq
    · exact ⟨around.trans inside, kind⟩
    · exact ih inside q hq
  | facet => cases inside

/-- Once a facet holds a data object it keeps it. -/
theorem of_holding {first : DataObject} (h : Trace registry facet s ps t)
    (inside : facet = some object) (holding : s = .holding first) :
    t = .holding first ∧ ∀ p ∈ ps, p.After registry first := by
  induction h with
  | nil => exact ⟨holding, fun p hp => by cases hp⟩
  | node kind around passes _ ih =>
    subst holding
    cases passes with
    | bare reference data =>
      obtain ⟨held, rest⟩ := ih inside rfl
      refine ⟨held, List.forall_mem_cons.2 ⟨?_, rest⟩⟩
      rw [Placement.After, reference]
      exact data
    | later reference resolved compared data =>
      obtain ⟨held, rest⟩ := ih inside rfl
      refine ⟨held, List.forall_mem_cons.2 ⟨?_, rest⟩⟩
      rw [Placement.After, reference]
      exact ⟨_, _, resolved, compared, data⟩
  | facet => cases inside

/-- A facet waits as long as no node has data. -/
theorem of_waiting (h : Trace registry facet s ps t) (inside : facet = some object)
    (waiting : s = .waiting) (bare : ∀ p ∈ ps, p.chart.reference? = none) :
    t = .waiting ∧ ∀ p ∈ ps, p.data? = none := by
  induction h with
  | nil => exact ⟨waiting, fun p hp => by cases hp⟩
  | node kind around passes _ ih =>
    subst waiting
    have first := bare _ (List.mem_cons_self ..)
    cases passes with
    | bare reference data =>
      obtain ⟨still, rest⟩ := ih inside rfl fun p hp => bare p (List.mem_cons_of_mem _ hp)
      exact ⟨still, List.forall_mem_cons.2 ⟨data, rest⟩⟩
    | first reference resolved data =>
      rw [first] at reference
      cases reference
  | facet => cases inside

/-- The first data object that a waiting walk meets is held for the facet. -/
theorem of_first {before after : List Placement} {p : Placement} {r : DataReference}
    (h : Trace registry (some object) .waiting (before ++ p :: after) t)
    (bare : ∀ q ∈ before, q.chart.reference? = none) (reference : p.chart.reference? = some r) :
    ∃ object, r.resolved registry = .ok object ∧ t = .holding object ∧
      (∀ q ∈ before ++ [p], q.data? = none) ∧ ∀ q ∈ after, q.After registry object := by
  induction before with
  | nil =>
    cases h with
    | node kind around passes rest =>
      cases passes with
      | bare none_here data =>
        rw [reference] at none_here
        cases none_here
      | @first _ r' object reference' resolved data =>
        rw [reference] at reference'
        cases reference'
        obtain ⟨held, settled⟩ := rest.of_holding rfl rfl
        exact ⟨object, resolved, held, fun q hq => List.mem_singleton.1 hq ▸ data, settled⟩
  | cons b before ih =>
    have first := bare b (List.mem_cons_self ..)
    cases h with
    | node kind around passes rest =>
      cases passes with
      | bare _ data =>
        obtain ⟨object, resolved, held, none_before, settled⟩ :=
          ih rest fun q hq => bare q (List.mem_cons_of_mem _ hq)
        exact ⟨object, resolved, held, List.forall_mem_cons.2 ⟨data, none_before⟩, settled⟩
      | first reference' =>
        rw [first] at reference'
        cases reference'

/-- What a trace says of a facet and its subtree. -/
theorem hoists {facet : Placement} {inside : List Placement}
    (enters : Enters registry facet s) (below : Trace registry (some facet.object) s inside t)
    (data : facet.data? = t.held?) : Hoists registry facet (facet :: inside) where
  inside := below.inside_facet rfl
  bare none := by
    obtain ⟨first, rest⟩ := List.forall_mem_cons.1 none
    cases enters with
    | bare =>
      obtain ⟨rfl, settled⟩ := below.of_waiting rfl rfl rest
      exact List.forall_mem_cons.2 ⟨data, settled⟩
    | referring reference =>
      rw [first] at reference
      cases reference
  first before p after r split bare reference := by
    cases before with
    | nil =>
      cases split
      cases enters with
      | bare none_here =>
        rw [reference] at none_here
        cases none_here
      | @referring r' object reference' resolved =>
        rw [reference] at reference'
        cases reference'
        obtain ⟨rfl, settled⟩ := below.of_holding rfl rfl
        exact ⟨object, resolved, data, fun q hq => (List.not_mem_nil hq).elim, settled⟩
    | cons b before =>
      cases split
      have first := bare facet (List.mem_cons_self ..)
      cases enters with
      | bare =>
        obtain ⟨object, resolved, rfl, none_before, settled⟩ :=
          below.of_first (fun q hq => bare q (List.mem_cons_of_mem _ hq)) reference
        exact ⟨object, resolved, data, none_before, settled⟩
      | referring reference' =>
        rw [first] at reference'
        cases reference'

/-- Every facet of a trace that is in none hoists the data of its subtree. -/
theorem hoists_of_mem (h : Trace registry facet s ps t) (outside : facet = none) :
    ∀ p ∈ ps, p.chart.kind? = some .facet → p.facet = none ∧ ∃ subtree,
      p.chart.placements none p.object = some subtree ∧ subtree <:+: ps ∧
        Hoists registry p subtree := by
  induction h with
  | nil => exact fun p hp => by cases hp
  | node kind around passes _ ih =>
    intro p hp is_facet
    rcases List.mem_cons.1 hp with rfl | hp
    · exact (kind is_facet).elim
    · obtain ⟨around, subtree, read, le, hoists⟩ := ih outside p hp is_facet
      exact ⟨around, subtree, read, le.trans (List.suffix_cons ..).isInfix, hoists⟩
  | @facet s t u q inside ps kind around read enters below data _ _ ih =>
    intro p hp is_facet
    rcases List.mem_cons.1 hp with rfl | hp
    · exact ⟨around, _, read, (List.prefix_append (p :: inside) ps).isInfix,
        hoists enters below data⟩
    · rcases List.mem_append.1 hp with hp | hp
      · exact ((below.inside_facet rfl p hp).2 is_facet).elim
      · obtain ⟨around, subtree, read, le, hoists⟩ := ih rfl p hp is_facet
        exact ⟨around, subtree, read,
          le.trans (List.suffix_append (q :: inside) ps).isInfix, hoists⟩

/-- Outside of facets every node has its own data. -/
theorem alone_of_mem (h : Trace registry facet s ps t) (outside : facet = none)
    (start : s = .outside) :
    ∀ p ∈ ps, p.facet = none → p.chart.kind? ≠ some .facet → p.Alone registry := by
  induction h with
  | nil => exact fun p hp => by cases hp
  | node kind around passes _ ih =>
    subst start
    intro p hp free no_facet
    rcases List.mem_cons.1 hp with rfl | hp
    · cases passes with
      | bare reference data =>
        rw [Placement.Alone, reference]
        exact data
      | alone reference resolved data =>
        rw [Placement.Alone, reference]
        exact ⟨_, resolved, data⟩
    · exact ih outside (passes.outside_iff.2 rfl) p hp free no_facet
  | facet kind around read enters below data _ _ ih =>
    intro p hp free no_facet
    rcases List.mem_cons.1 hp with rfl | hp
    · exact (no_facet kind).elim
    · rcases List.mem_append.1 hp with hp | hp
      · rw [(below.inside_facet rfl p hp).1] at free
        cases free
      · exact ih rfl rfl p hp free no_facet

end Trace

/-- In the document of a built chart every visited node has its place. A facet stands in no other
and has the first data object of its subtree, which the node that brought it does not repeat; a
later node of the subtree has its own data object exactly if that means other data; a node outside
of facets has its own data object. -/
theorem facet_takes_first_data {c : Chart} {d : Document} (built : c.Built)
    (compiled : c.compile = .ok d) :
    ∃ all, d.placements c = some all ∧ all.map Placement.chart = c.visited ∧
      (∀ p ∈ all, p.chart.kind? = some .facet → p.facet = none ∧ ∃ subtree,
        p.chart.placements none p.object = some subtree ∧ subtree <:+: all ∧
          Hoists d.datasets p subtree) ∧
      ∀ p ∈ all, p.facet = none → p.chart.kind? ≠ some .facet → p.Alone d.datasets := by
  obtain ⟨inside, placed, trace, _⟩ := (built.shown compiled).trace
  refine ⟨_, placed, Chart.charts_of_placements none d.toValue c placed, ?_, ?_⟩
  · exact trace.hoists_of_mem rfl
  · exact trace.alone_of_mem rfl rfl

/-- A facet around a layer of three units, the second with the address of the first and the third
with rows, beside a unit with the same rows. -/
def hoistingSteps : List Step :=
  let address : Shared := ⟨.object 0, .string "a.csv"⟩
  let rows : Shared := ⟨.object 1, .list []⟩
  [.unit address [], .unit address [], .unit rows [],
    .around .layer [⟨0, .unit⟩, ⟨1, .unit⟩, ⟨2, .unit⟩], .around .facet [⟨3, .layer⟩],
    .unit rows [], .around .hconcat [⟨4, .facet⟩, ⟨5, .unit⟩]]

theorem hoistingSteps_checked : ∀ step ∈ hoistingSteps, step.Checked := by
  simp only [hoistingSteps, List.forall_mem_cons]
  exact ⟨Step.checked_unit _ List.nodup_nil, Step.checked_unit _ List.nodup_nil,
    Step.checked_unit _ List.nodup_nil, Step.checked_around _ _, Step.checked_around _ _,
    Step.checked_unit _ List.nodup_nil, Step.checked_around _ _, fun _ mem => by cases mem⟩

theorem facet_takes_first_data_of_seven_nodes :
    ∃ c d, ((Session.start .unset).run hoistingSteps).store.chart? 6 = some c ∧
      c.compile = .ok d ∧
      (d.placements c).map (·.map fun p => p.data?.isSome) =
        some [false, true, false, false, false, true, true] ∧
      ∃ all, d.placements c = some all ∧ all.map Placement.chart = c.visited ∧
        (∀ p ∈ all, p.chart.kind? = some .facet → p.facet = none ∧ ∃ subtree,
          p.chart.placements none p.object = some subtree ∧ subtree <:+: all ∧
            Hoists d.datasets p subtree) ∧
        ∀ p ∈ all, p.facet = none → p.chart.kind? ≠ some .facet → p.Alone d.datasets := by
  obtain ⟨c, d, found, compiled, data⟩ : ∃ c d,
      ((Session.start .unset).run hoistingSteps).store.chart? 6 = some c ∧ c.compile = .ok d ∧
      (d.placements c).map (·.map fun p => p.data?.isSome) =
        some [false, true, false, false, false, true, true] := ⟨_, _, rfl, rfl, rfl⟩
  exact ⟨c, d, found, compiled, data,
    facet_takes_first_data ⟨.unset, hoistingSteps, 6, hoistingSteps_checked, found⟩ compiled⟩

end ChartTree
