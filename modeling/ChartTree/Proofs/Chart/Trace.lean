import ChartTree.Proofs.Chart.Repeats

/-!
# The trace of a walk in its document

A walk carries one scope from node to node. A trace says the same of the placements alone: what each
of them does to the scope, and that a facet encloses a trace of its own which starts afresh and
leaves nothing behind. Every walk that goes through leaves a trace in its document, whatever stands
in the chart.
-/

namespace ChartTree

/-- The keys under which an object shows its data and the objects below it. -/
def frameKeys : List String :=
  ["data", "spec", "layer", "hconcat", "vconcat"]

/-- Two objects show the same data and the same objects below them. -/
def Value.SameFrame (v w : Value) : Prop :=
  ∀ key ∈ frameKeys, w.field? key = v.field? key

/-- The data object that a scope holds for the facet. -/
def FacetScope.held? : FacetScope → Option Value
  | .holding object => some (.dict object)
  | _ => none

/-- How the walk goes past a node that is no facet. -/
inductive Passes (registry : Registry) : FacetScope → Placement → FacetScope → Prop where
  /-- A node without data. -/
  | bare {p : Placement} {s : FacetScope} (reference : p.chart.reference? = none)
      (data : p.data? = none) : Passes registry s p s
  /-- A node with data outside of facets. -/
  | alone {p : Placement} {r : DataReference} {object : DataObject}
      (reference : p.chart.reference? = some r) (resolved : r.resolved registry = .ok object)
      (data : p.data? = some (.dict object)) : Passes registry .outside p .outside
  /-- The first node with data in a facet. -/
  | first {p : Placement} {r : DataReference} {object : DataObject}
      (reference : p.chart.reference? = some r) (resolved : r.resolved registry = .ok object)
      (data : p.data? = none) : Passes registry .waiting p (.holding object)
  /-- A later node with data in a facet. -/
  | later {p : Placement} {r : DataReference} {first object : DataObject} {met : Bool}
      (reference : p.chart.reference? = some r) (resolved : r.resolved registry = .ok object)
      (compared : first.sameData object = .ok met)
      (data : p.data? = if met then none else some (.dict object)) :
      Passes registry (.holding first) p (.holding first)

/-- Where the walk stands once it has entered a facet and met the data of the facet itself. -/
inductive Enters (registry : Registry) (p : Placement) : FacetScope → Prop where
  | bare (reference : p.chart.reference? = none) : Enters registry p .waiting
  | referring {r : DataReference} {object : DataObject} (reference : p.chart.reference? = some r)
      (resolved : r.resolved registry = .ok object) : Enters registry p (.holding object)

/-- How the walk goes over placements, all of them in one facet or outside of facets at the top. -/
inductive Trace (registry : Registry) :
    Option Value → FacetScope → List Placement → FacetScope → Prop where
  | nil {facet : Option Value} {s : FacetScope} : Trace registry facet s [] s
  | node {facet : Option Value} {s t u : FacetScope} {p : Placement} {ps : List Placement}
      (kind : p.chart.kind? ≠ some .facet) (around : p.facet = facet)
      (passes : Passes registry s p t) (rest : Trace registry facet t ps u) :
      Trace registry facet s (p :: ps) u
  | facet {s t u : FacetScope} {p : Placement} {inside ps : List Placement}
      (kind : p.chart.kind? = some .facet) (around : p.facet = none)
      (read : p.chart.placements none p.object = some (p :: inside))
      (enters : Enters registry p s) (below : Trace registry (some p.object) s inside t)
      (data : p.data? = t.held?) (rest : Trace registry none .outside ps u) :
      Trace registry none .outside (p :: (inside ++ ps)) u

theorem Trace.append {registry : Registry} {facet : Option Value} {s t u : FacetScope}
    {ps qs : List Placement} (h : Trace registry facet s ps t)
    (h' : Trace registry facet t qs u) : Trace registry facet s (ps ++ qs) u := by
  induction h with
  | nil => exact h'
  | node kind around passes _ ih => exact .node kind around passes (ih h')
  | facet kind around read enters below data _ _ ih =>
    rw [List.cons_append, List.append_assoc]
    exact .facet kind around read enters below data (ih h')

theorem Passes.outside_iff {registry : Registry} {s t : FacetScope} {p : Placement}
    (h : Passes registry s p t) : t = .outside ↔ s = .outside := by
  cases h <;> simp

/-- A walk ends outside of facets if it began there, and only then. -/
theorem Trace.outside_iff {registry : Registry} {facet : Option Value} {s t : FacetScope}
    {ps : List Placement} (h : Trace registry facet s ps t) : t = .outside ↔ s = .outside := by
  induction h with
  | nil => rfl
  | node _ _ passes _ ih => exact ih.trans passes.outside_iff
  | facet _ _ _ _ _ _ _ _ ih => exact ih

theorem Passes.enters {F : Registry} {p q : Placement} {t : FacetScope}
    (h : Passes F .waiting p t) (same : q.chart = p.chart) : Enters F q t ∧ p.data? = none := by
  cases h with
  | bare reference data => exact ⟨.bare (same ▸ reference), data⟩
  | first reference resolved data => exact ⟨.referring (same ▸ reference) resolved, data⟩

/-! ### Nodes -/

/-- A regular node has no data, or it has a regular reference and may have it. -/
theorem Node.Regular.data_cases {n : Node} (h : n.Regular) :
    (n.data = .empty ∧ ∀ id children child,
      (Chart.node id n children child).reference? = none) ∨
    ∃ r, n.data = .reference r ∧ r.Regular ∧ ∀ id children child,
      (Chart.node id n children child).reference? = some r := by
  rcases h.spec.data with empty | ⟨carries, r, reference, regular⟩
  · refine .inl ⟨empty, fun id children child => ?_⟩
    rw [Chart.reference?, empty]
  · refine .inr ⟨r, reference, regular, fun id children child => ?_⟩
    simp only [Chart.reference?, reference, carries, if_pos]

theorem Node.Regular.ownEntries_absent {n : Node} (h : n.Regular) (isRoot : Bool) {key : String}
    (other : key ∉ propertyKeys) : Dict.get? (n.ownEntries isRoot) (.string key) = none :=
  (h.ownEntries_under isRoot).get?_eq_none other

namespace Chart

/-- A walk that went through, as its document shows it. -/
structure Walked (c : Chart) (R : Registry) (s : FacetScope) (v : Value) (w : Walk) : Prop where
  registry : w.registry = R.addAll c.blobs
  entries : ∃ entries, v = .dict entries ∧ Dict.get? entries (.string "datasets") = none
  trace : ∀ F : Registry, w.registry.blobs <+: F.blobs → ∀ facet, (s = .outside → facet = none) →
    ∀ v', v.SameFrame v' → ∃ inside, c.placements facet v' = some (⟨c, v', facet⟩ :: inside) ∧
      Trace F facet s (⟨c, v', facet⟩ :: inside) w.scope ∧
        ∀ q ∈ inside, q.object.field? "datasets" = none

/-- A walk over a list of charts that went through. -/
structure WalkedAll (cs : List Chart) (R : Registry) (s : FacetScope) (vs : List Value)
    (w : Walk) : Prop where
  registry : w.registry = R.addAll (blobsAll cs)
  trace : ∀ F : Registry, w.registry.blobs <+: F.blobs → ∀ facet, (s = .outside → facet = none) →
    ∃ ps, placementsAll facet vs cs = some ps ∧ Trace F facet s ps w.scope ∧
      ∀ q ∈ ps, q.object.field? "datasets" = none

/-- Entries that differ from those of a node under `data` at most. -/
def KeepsOthers (own entries : Dict) : Prop :=
  ∀ key, "data" ≠ key → Dict.get? entries (.string key) = Dict.get? own (.string key)

theorem keepsOthers_insert (own : Dict) (v : Value) :
    KeepsOthers own (Dict.insert own (.string "data") v) :=
  fun _ differ => Dict.get?_insert_of_ne own differ v

theorem keepsOthers_placed {object : DataObject} {own entries : Dict} {s t : FacetScope}
    (h : placed object own s = .ok (entries, t)) : KeepsOthers own entries := by
  cases s with
  | outside =>
    cases h
    exact keepsOthers_insert own _
  | waiting =>
    cases h
    exact fun _ _ => rfl
  | holding first =>
    obtain ⟨met, _, made⟩ := map_eq_ok_iff.1 h
    cases made
    cases met with
    | true => exact fun _ _ => rfl
    | false => exact keepsOthers_insert own _

/-- Where a data object is placed the walk passes a node that has what was written. -/
theorem passes_placed {F : Registry} {r : DataReference} {object : DataObject} {own entries : Dict}
    {s t : FacetScope} (h : placed object own s = .ok (entries, t))
    (absent : Dict.get? own (.string "data") = none) (resolved : r.resolved F = .ok object)
    {p : Placement} (reference : p.chart.reference? = some r)
    (data : p.data? = Dict.get? entries (.string "data")) : Passes F s p t := by
  cases s with
  | outside =>
    cases h
    exact .alone reference resolved (data.trans (Dict.get?_insert_self own "data" _))
  | waiting =>
    cases h
    exact .first reference resolved (data.trans absent)
  | holding first =>
    obtain ⟨met, compared, made⟩ := map_eq_ok_iff.1 h
    cases made
    refine .later reference resolved compared (data.trans ?_)
    cases met with
    | true => exact absent
    | false => exact Dict.get?_insert_self own "data" _

theorem walked_data {n : Node} (h : n.Regular) (isRoot : Bool) {R : Registry} {s : FacetScope}
    {v : Value} {w : Walk}
    (run : (placeData n.data (.dict (n.ownEntries isRoot))).run ⟨R, s⟩ = .ok (v, w))
    (id : Nat) (children : List Chart) (child : Option Chart) :
    w.registry = R.addAll (node id n children child).blob?.toList ∧
      (∃ entries, v = .dict entries ∧ KeepsOthers (n.ownEntries isRoot) entries) ∧
      ∀ F : Registry, w.registry.blobs <+: F.blobs → ∀ facet v', v.SameFrame v' →
        Passes F s ⟨node id n children child, v', facet⟩ w.scope := by
  have absent : Dict.get? (n.ownEntries isRoot) (.string "data") = none :=
    h.ownEntries_absent isRoot (by decide)
  rcases h.data_cases with ⟨data, bare⟩ | ⟨r, data, regular, reference⟩
  · rw [data, placeData_empty] at run
    obtain ⟨rfl, rfl⟩ := pure_ok run
    refine ⟨?_, ⟨_, rfl, fun _ _ => rfl⟩, fun F _ facet v' frame => ?_⟩
    · rw [blob?, bare]
      rfl
    · exact .bare (bare id children child) ((frame "data" (by decide)).trans absent)
  · have blob : (node id n children child).blob?.toList = r.blobs := by
      rw [blob?, reference]
      rfl
    rw [data] at run
    obtain ⟨entries, t, outcome, rfl, rfl⟩ := run_placeData_ok regular run
    refine ⟨by rw [blob], ⟨entries, rfl, keepsOthers_placed outcome⟩, ?_⟩
    intro F le facet v' frame
    have resolved : r.resolved F = .ok (r.resolvedIn R) := by
      rw [regular.resolved_eq, DataReference.resolvedIn_of_growth le]
    exact passes_placed outcome absent resolved (reference id children child)
      (frame "data" (by decide))

/-! ### Facets -/

theorem enter_ok {R : Registry} {s : FacetScope} {a : Unit} {w : Walk}
    (run : enterFacet.run ⟨R, s⟩ = .ok (a, w)) : s = .outside ∧ w = ⟨R, .waiting⟩ := by
  rw [run_enterFacet] at run
  cases s with
  | outside =>
    cases run
    exact ⟨rfl, rfl⟩
  | waiting => cases run
  | holding first => cases run

theorem get?_withHeld_data {own : Dict} (absent : Dict.get? own (.string "data") = none)
    (s : FacetScope) : Dict.get? (withHeld own s) (.string "data") = s.held? := by
  cases s with
  | holding object => exact Dict.get?_insert_self own "data" _
  | outside => exact absent
  | waiting => exact absent

theorem get?_withHeld (own : Dict) (s : FacetScope) : KeepsOthers own (withHeld own s) := by
  cases s with
  | holding object => exact keepsOthers_insert own _
  | outside => exact fun _ _ => rfl
  | waiting => exact fun _ _ => rfl

/-! ### Kind by kind -/

section Kinds

variable {id : Nat} {n : Node} {children : List Chart} {child : Option Chart} {isRoot : Bool}
  {R : Registry} {s : FacetScope} {v : Value} {w : Walk}

theorem walked_unit (h : n.Regular) (kind : n.kind = .unit)
    (run : (assemble isRoot (.node id n children child)).run ⟨R, s⟩ = .ok (v, w)) :
    Walked (.node id n children child) R s v w := by
  rw [assemble_unit isRoot h kind] at run
  obtain ⟨registry, ⟨entries, rfl, others⟩, passes⟩ := walked_data h isRoot run id children child
  have absent : Dict.get? (n.ownEntries isRoot) (.string "datasets") = none :=
    h.ownEntries_absent isRoot (by decide)
  refine ⟨?_, ⟨entries, rfl, (others "datasets" (by decide)).trans absent⟩, ?_⟩
  · rw [registry, blobs_unit kind]
  · intro F le facet _ v' frame
    refine ⟨[], placements_unit kind, ?_, fun q hq => by cases hq⟩
    exact .node (by rw [kind?, kind]; decide) rfl (passes F le facet v' frame) .nil

theorem walked_facet_none (h : n.Regular) (kind : n.kind = .facet)
    (run : (assemble isRoot (.node id n children none)).run ⟨R, s⟩ = .ok (v, w)) :
    Walked (.node id n children none) R s v w := by
  rw [assemble_facet_none isRoot h kind] at run
  obtain ⟨_, _, enter, run⟩ := bind_ok run
  obtain ⟨rfl, rfl⟩ := enter_ok enter
  obtain ⟨_, ⟨R₁, s₁⟩, place, run⟩ := bind_ok run
  obtain ⟨registry, ⟨entries, rfl, others⟩, passes⟩ := walked_data h isRoot place id children none
  rw [run_leaveFacet] at run
  cases run
  have absent : Dict.get? (n.ownEntries isRoot) (.string "datasets") = none :=
    h.ownEntries_absent isRoot (by decide)
  refine ⟨?_, ⟨_, rfl, ?_⟩, ?_⟩
  · rw [blobs_single_none (by rw [kind]; rfl)]
    exact registry
  · rw [get?_withHeld entries s₁ "datasets" (by decide), others "datasets" (by decide), absent]
  · intro F le facet outside v' frame
    cases outside rfl
    have read : (node id n children none).placements none v' =
        some [⟨node id n children none, v', none⟩] :=
      placements_single_none (by rw [kind]; rfl)
    obtain ⟨enters, bare⟩ :=
      (passes F le none (.dict entries) fun _ _ => rfl).enters
        (q := ⟨node id n children none, v', none⟩) rfl
    refine ⟨[], read, ?_, fun q hq => by cases hq⟩
    exact Trace.facet (by rw [kind?, kind]) rfl read enters .nil
      ((frame "data" (by decide)).trans (get?_withHeld_data bare s₁)) .nil

theorem walked_facet_some (h : n.Regular) (kind : n.kind = .facet) {c : Chart}
    (below : ∀ {R s v w}, (assemble false c).run ⟨R, s⟩ = .ok (v, w) → Walked c R s v w)
    (run : (assemble isRoot (.node id n children (some c))).run ⟨R, s⟩ = .ok (v, w)) :
    Walked (.node id n children (some c)) R s v w := by
  rw [assemble_facet_some isRoot h kind] at run
  obtain ⟨_, _, enter, run⟩ := bind_ok run
  obtain ⟨rfl, rfl⟩ := enter_ok enter
  obtain ⟨_, ⟨R₁, s₁⟩, place, run⟩ := bind_ok run
  obtain ⟨registry, ⟨entries, rfl, others⟩, passes⟩ :=
    walked_data h isRoot place id children (some c)
  obtain ⟨inner, ⟨R₂, s₂⟩, run_inner, run⟩ := bind_ok run
  have walked := below run_inner
  rw [withField_dict, pure_bind, run_leaveFacet] at run
  cases run
  have absent : Dict.get? (n.ownEntries isRoot) (.string "datasets") = none :=
    h.ownEntries_absent isRoot (by decide)
  have growth : R₁.blobs <+: R₂.blobs := by
    rw [show R₂ = _ from walked.registry]
    exact Registry.prefix_addAll R₁ c.blobs
  refine ⟨?_, ⟨_, rfl, ?_⟩, ?_⟩
  · rw [blobs_single_some (by rw [kind]; rfl), Registry.addAll_append, ← registry]
    exact walked.registry
  · rw [get?_withHeld _ s₂ "datasets" (by decide), Dict.get?_insert_of_ne _ (by decide),
      others "datasets" (by decide), absent]
  · intro F le facet outside v' frame
    cases outside rfl
    have spec : v'.field? "spec" = some inner :=
      (frame "spec" (by decide)).trans
        ((get?_withHeld _ s₂ "spec" (by decide)).trans (Dict.get?_insert_self entries "spec" inner))
    obtain ⟨enters, bare⟩ :=
      (passes F (growth.trans le) none (.dict entries) fun _ _ => rfl).enters
        (q := ⟨node id n children (some c), v', none⟩) rfl
    have entered : s₁ ≠ .outside := by
      rintro rfl
      cases enters
    obtain ⟨inside, placed, trace, none_below⟩ :=
      walked.trace F le (some v') (fun out => (entered out).elim) inner fun _ _ => rfl
    have read : (node id n children (some c)).placements none v' =
        some (⟨node id n children (some c), v', none⟩ :: ⟨c, inner, some v'⟩ :: inside) :=
      placements_facet kind spec placed
    refine ⟨_, read, ?_, ?_⟩
    · have held : Dict.get? (Dict.insert entries (.string "spec") inner) (.string "data") = none :=
        (Dict.get?_insert_of_ne entries (by decide) inner).trans bare
      have block := Trace.facet (by rw [kind?, kind]) rfl read enters trace
        ((frame "data" (by decide)).trans (get?_withHeld_data held s₂)) .nil
      rwa [List.append_nil] at block
    · intro q hq
      rcases List.mem_cons.1 hq with rfl | hq
      · obtain ⟨_, rfl, absent⟩ := walked.entries
        exact absent
      · exact none_below q hq

theorem walked_repeated_none (h : n.Regular) (kind : n.kind = .repeated)
    (run : (assemble isRoot (.node id n children none)).run ⟨R, s⟩ = .ok (v, w)) :
    Walked (.node id n children none) R s v w := by
  rw [assemble_repeated_none isRoot h kind] at run
  obtain ⟨rfl, rfl⟩ := pure_ok run
  have bare : (node id n children none).reference? = none :=
    reference?_of_not_carries (by rw [kind]; rfl)
  refine ⟨?_, ⟨_, rfl, h.ownEntries_absent isRoot (by decide)⟩, ?_⟩
  · rw [blobs_single_none (by rw [kind]; rfl), blob?, bare]
    rfl
  · intro F le facet _ v' frame
    refine ⟨[], placements_single_none (by rw [kind]; rfl), ?_, fun q hq => by cases hq⟩
    refine .node (by rw [kind?, kind]; decide) rfl (.bare bare ?_) .nil
    exact (frame "data" (by decide)).trans (h.ownEntries_absent isRoot (by decide))

theorem walked_repeated_some (h : n.Regular) (kind : n.kind = .repeated) {c : Chart}
    (regular : c.All Node.Regular)
    (below : ∀ {R s v w}, (assemble false c).run ⟨R, s⟩ = .ok (v, w) → Walked c R s v w)
    (run : (assemble isRoot (.node id n children (some c))).run ⟨R, s⟩ = .ok (v, w)) :
    Walked (.node id n children (some c)) R s v w := by
  rw [assemble_repeated_some isRoot h kind regular] at run
  obtain ⟨k, _, reach, run⟩ := bind_ok run
  obtain ⟨-, rfl⟩ := reached_inv reach
  cases may : k.canRepeat with
  | false =>
    rw [may] at run
    cases run
  | true =>
    rw [may, if_pos rfl] at run
    obtain ⟨inner, w₁, run_inner, run⟩ := bind_ok run
    have walked := below run_inner
    obtain ⟨bound, w₂, lifted, last⟩ := bind_ok run
    obtain ⟨binding, rfl⟩ := lift_ok lifted
    obtain ⟨rfl, rfl⟩ := pure_ok last
    have apart : k.channelsKey ≠ "datasets" ∧ ∀ key ∈ frameKeys, k.channelsKey ≠ key := by
      cases k <;> decide
    have frame_bound : inner.SameFrame bound := fun key mem =>
      bindAxesApart_field? binding (apart.2 key mem)
    have bare : (node id n children (some c)).reference? = none :=
      reference?_of_not_carries (by rw [kind]; rfl)
    have fresh : ∀ key, key ∉ propertyKeys → "spec" ≠ key →
        Dict.get? (Dict.insert (n.ownEntries isRoot) (.string "spec") bound) (.string key) = none :=
      fun key other differ =>
        (Dict.get?_insert_of_ne _ differ _).trans (h.ownEntries_absent isRoot other)
    refine ⟨?_, ⟨_, rfl, fresh "datasets" (by decide) (by decide)⟩, ?_⟩
    · rw [blobs_single_some (by rw [kind]; rfl), blob?, bare]
      exact walked.registry
    · intro F le facet outside v' frame
      have spec : v'.field? "spec" = some bound :=
        (frame "spec" (by decide)).trans (Dict.get?_insert_self _ "spec" bound)
      obtain ⟨inside, placed, trace, none_below⟩ :=
        walked.trace F le facet outside bound frame_bound
      refine ⟨_, placements_repeated kind spec placed, ?_, ?_⟩
      · refine .node (by rw [kind?, kind]; decide) rfl (.bare bare ?_) trace
        exact (frame "data" (by decide)).trans (fresh "data" (by decide) (by decide))
      · intro q hq
        rcases List.mem_cons.1 hq with rfl | hq
        · obtain ⟨_, rfl, absent⟩ := walked.entries
          exact (bindAxesApart_field? binding apart.1).trans absent
        · exact none_below q hq

theorem walked_concat (h : n.Regular) (kind : n.kind.isConcat = true)
    (below : ∀ {R s vs w}, (assembleAll children).run ⟨R, s⟩ = .ok (vs, w) →
      WalkedAll children R s vs w)
    (run : (assemble isRoot (.node id n children child)).run ⟨R, s⟩ = .ok (v, w)) :
    Walked (.node id n children child) R s v w := by
  rw [assemble_concat isRoot h kind] at run
  obtain ⟨vs, w₁, run_inner, run⟩ := bind_ok run
  obtain ⟨rfl, rfl⟩ := pure_ok run
  have walked := below run_inner
  have bare : (node id n children child).reference? = none :=
    reference?_of_not_carries (Kind.carriesData_of_isConcat kind)
  have fresh : ∀ key, key ∉ propertyKeys → n.kind.name ≠ key →
      Dict.get? (Dict.insert (n.ownEntries isRoot) (.string n.kind.name) (.list vs))
        (.string key) = none := fun key other differ =>
    (Dict.get?_insert_of_ne _ differ _).trans (h.ownEntries_absent isRoot other)
  have names : n.kind.name ≠ "data" ∧ n.kind.name ≠ "datasets" ∧ n.kind.name ∈ frameKeys := by
    rcases Kind.isConcat_iff.1 kind with kind | kind | kind <;> rw [kind] <;> decide
  refine ⟨?_, ⟨_, rfl, fresh "datasets" (by decide) names.2.1⟩, ?_⟩
  · rw [blobs_concat kind]
    exact walked.registry
  · intro F le facet outside v' frame
    obtain ⟨inside, placed, trace, none_below⟩ := walked.trace F le facet outside
    have listed : v'.field? n.kind.name = some (.list vs) :=
      (frame n.kind.name names.2.2).trans (Dict.get?_insert_self _ n.kind.name _)
    refine ⟨inside, placements_concat kind listed placed, ?_, none_below⟩
    refine .node ?_ rfl (.bare bare ?_) trace
    · rcases Kind.isConcat_iff.1 kind with kind | kind | kind <;> rw [kind?, kind] <;> decide
    · exact (frame "data" (by decide)).trans (fresh "data" (by decide) names.1)

end Kinds

/-! ### The whole walk -/

theorem walkedAll {cs : List Chart}
    (below : ∀ c ∈ cs, ∀ {R s v w}, (assemble false c).run ⟨R, s⟩ = .ok (v, w) → Walked c R s v w)
    {R : Registry} {s : FacetScope} {vs : List Value} {w : Walk}
    (run : (assembleAll cs).run ⟨R, s⟩ = .ok (vs, w)) : WalkedAll cs R s vs w := by
  induction cs generalizing R s vs with
  | nil =>
    obtain ⟨rfl, rfl⟩ := pure_ok run
    exact ⟨rfl, fun F _ facet _ => ⟨[], rfl, .nil, fun q hq => by cases hq⟩⟩
  | cons c cs ih =>
    rw [assembleAll_cons] at run
    obtain ⟨first, ⟨R₁, s₁⟩, run_first, run⟩ := bind_ok run
    obtain ⟨rest, ⟨R₂, s₂⟩, run_rest, run⟩ := bind_ok run
    obtain ⟨rfl, rfl⟩ := pure_ok run
    have walked := below c (List.mem_cons_self ..) run_first
    have walked_rest := ih (fun d mem => below d (List.mem_cons_of_mem _ mem)) run_rest
    have registry : R₁ = R.addAll c.blobs := walked.registry
    have growth : R₁.blobs <+: R₂.blobs := by
      rw [show R₂ = _ from walked_rest.registry]
      exact Registry.prefix_addAll R₁ (blobsAll cs)
    refine ⟨?_, fun F le facet outside => ?_⟩
    · show R₂ = R.addAll (c.blobs ++ blobsAll cs)
      rw [Registry.addAll_append, ← registry]
      exact walked_rest.registry
    · obtain ⟨inside, placed, trace, none_below⟩ :=
        walked.trace F (growth.trans le) facet outside first fun _ _ => rfl
      have stays : s₁ = .outside → facet = none := fun out => outside (trace.outside_iff.1 out)
      obtain ⟨ps, placed_rest, trace_rest, none_rest⟩ := walked_rest.trace F le facet stays
      refine ⟨_, placementsAll_cons placed placed_rest, trace.append trace_rest, ?_⟩
      intro q hq
      rcases List.mem_append.1 hq with hq | hq
      · rcases List.mem_cons.1 hq with rfl | hq
        · obtain ⟨_, rfl, absent⟩ := walked.entries
          exact absent
        · exact none_below q hq
      · exact none_rest q hq

/-- Every walk over a regular chart that goes through leaves its trace in the object of the
chart. -/
theorem All.walked {c : Chart} (regular : c.All Node.Regular) {isRoot : Bool} {R : Registry}
    {s : FacetScope} {v : Value} {w : Walk} (run : (assemble isRoot c).run ⟨R, s⟩ = .ok (v, w)) :
    Walked c R s v w := by
  induction regular generalizing isRoot R s v w with
  | @node id n children child regular _ child_all ih_children ih_child =>
    cases kind : n.kind with
    | unit => exact walked_unit regular kind run
    | facet =>
      cases child with
      | none => exact walked_facet_none regular kind run
      | some c => exact walked_facet_some regular kind (ih_child c rfl) run
    | repeated =>
      cases child with
      | none => exact walked_repeated_none regular kind run
      | some c =>
        exact walked_repeated_some regular kind (child_all c rfl) (ih_child c rfl) run
    | layer | hconcat | vconcat =>
      exact walked_concat regular (by rw [kind]; rfl)
        (walkedAll fun c mem => ih_children c mem) run

/-- A walk that begins outside of facets ends there, however deep the chart is. -/
theorem Walked.outside {c : Chart} {R : Registry} {v : Value} {w : Walk}
    (walked : Walked c R .outside v w) : w.scope = .outside := by
  obtain ⟨_, _, trace, _⟩ :=
    walked.trace w.registry List.prefix_rfl none (fun _ => rfl) v fun _ _ => rfl
  exact trace.outside_iff.2 rfl

/-! ### Documents -/

theorem field?_toValue {d : Document} {entries : Dict} (root : d.root = .dict entries)
    {key : String} (other : key ≠ Document.datasetsKey) :
    d.toValue.field? key = d.root.field? key := by
  rw [Document.toValue, root]
  simp only [Value.content]
  split
  · rfl
  · exact Dict.get?_insert_of_ne entries (Ne.symm other) d.tableValue

/-- A table at the root hides neither data nor objects below. -/
theorem sameFrame_toValue {d : Document} {entries : Dict} (root : d.root = .dict entries) :
    d.root.SameFrame d.toValue := by
  intro key mem
  refine field?_toValue root ?_
  rintro rfl
  exact absurd mem (by decide)

theorem compile_ok {c : Chart} {d : Document} (compiled : c.compile = .ok d) :
    ∃ w, (assemble true c).run ⟨.empty, .outside⟩ = .ok (d.root, w) ∧ d.datasets = w.registry := by
  obtain ⟨⟨v, w⟩, run, made⟩ := map_eq_ok_iff.1 compiled
  cases made
  exact ⟨w, run, rfl⟩

/-- What the document of a chart shows of the walk that made it. -/
structure Shown (c : Chart) (d : Document) : Prop where
  registry : d.datasets = Registry.empty.addAll c.blobs
  entries : ∃ entries, d.root = .dict entries ∧ Dict.get? entries (.string "datasets") = none
  trace : ∃ inside, d.placements c = some (⟨c, d.toValue, none⟩ :: inside) ∧
    Trace d.datasets none .outside (⟨c, d.toValue, none⟩ :: inside) .outside ∧
      ∀ q ∈ inside, q.object.field? "datasets" = none

theorem Built.shown {c : Chart} {d : Document} (built : c.Built) (compiled : c.compile = .ok d) :
    Shown c d := by
  obtain ⟨⟨R, s⟩, run, registry⟩ := compile_ok compiled
  have walked := built.regular.walked run
  obtain ⟨entries, root, absent⟩ := walked.entries
  obtain ⟨inside, placed, trace, none_below⟩ := walked.trace d.datasets
    ⟨[], by rw [registry, List.append_nil]⟩ none (fun _ => rfl) d.toValue (sameFrame_toValue root)
  have outside : s = .outside := walked.outside
  exact ⟨registry.trans walked.registry, ⟨entries, root, absent⟩,
    inside, placed, outside ▸ trace, none_below⟩

end Chart

end ChartTree
