import Mathlib.Data.List.Nodup
import ChartTree.Proofs.Chart.Mirror
import ChartTree.Proofs.Chart.Violations

/-!
# How compiling ends

The walk over a chart ends with the first violation of the chart, or with an object that mirrors the
chart if it has none. So a chart compiles exactly if it has no violation.
-/

namespace ChartTree

/-- What stands around a node as the walk knows it. -/
inductive Around.Matches : Around → FacetScope → Prop where
  | outside : Matches .outside .outside
  | waiting : Matches .waiting .waiting
  | holding {first : DataReference} (regular : first.Regular) (R : Registry) :
      Matches (.holding first) (.holding (first.resolvedIn R))

namespace Chart

theorem ends_run_bind {α β : Type} {errors more : List CompileError} {m : Walker α}
    {f : α → Walker β} {w : Walk} {P : α × Walk → Prop} {Q : β × Walk → Prop}
    (h : Ends errors (m.run w) P) (next : ∀ p, P p → Ends more ((f p.1).run p.2) Q) :
    Ends (errors ++ more) ((m >>= f).run w) Q := by
  rw [StateT.run_bind]
  exact h.bind next

/-! ### The walk kind by kind -/

section Kinds

variable {id : Nat} {n : Node} {children : List Chart} {child : Option Chart} {isRoot : Bool}
  {a : Around} {R : Registry} {s : FacetScope}

/-- What the walk is to end with after a chart. -/
structure Mirrored (isRoot : Bool) (a : Around) (c : Chart) (p : Value × Walk) : Prop where
  object : Mirrors isRoot [] c p.1
  around : (a.after c).Matches p.2.scope

theorem absent_data : "data" ∉ propertyKeys := by decide

theorem absent_spec : "spec" ∉ propertyKeys := by decide

theorem ends_data (h : n.Regular) (isRoot : Bool) (around : a.Matches s) (R : Registry)
    (id : Nat) (children : List Chart) (child : Option Chart) :
    Ends (dataClashes a (.node id n children child))
      ((placeData n.data (.dict (n.ownEntries isRoot))).run ⟨R, s⟩) fun p =>
        (∃ data : Dict, data.IsData ∧ p.1 = .dict (n.ownEntries isRoot ++ data) ∧
          (a = .waiting → data = [])) ∧
        (a.meets (reference? (.node id n children child))).Matches p.2.scope := by
  have written (object : DataObject) :
      Dict.insert (n.ownEntries isRoot) (.string "data") (.dict object) =
        n.ownEntries isRoot ++ [(.string "data", .dict object)] :=
    Dict.insert_of_absent (h.ownEntries_absent isRoot absent_data) _
  rcases h.data_cases with ⟨data, bare⟩ | ⟨r, data, regular, reference⟩
  · rw [data, placeData_empty, dataClashes_of_none a (bare id children child), bare, a.meets_none]
    exact ⟨_, rfl, ⟨[], .inl rfl, by rw [List.append_nil], fun _ => rfl⟩, around⟩
  · rw [data, run_placeData regular, reference]
    cases around with
    | outside =>
      refine ⟨_, rfl, ⟨_, .inr ⟨_, rfl⟩, congrArg Value.dict (written _), fun no => ?_⟩, .outside⟩
      cases no
    | waiting =>
      exact ⟨_, rfl, ⟨[], .inl rfl, by rw [List.append_nil], fun _ => rfl⟩, .holding regular R⟩
    | @holding first regular' S =>
      have compared := DataReference.sameData_ends regular' regular S R
      rw [dataClashes_holding first (reference id children child)]
      cases clash : first.clashes r with
      | true =>
        rw [clash] at compared
        have failed : DataObject.sameData (first.resolvedIn S) (r.resolvedIn R) =
            .error (.notComparable .signalling) := compared
        rw [if_pos rfl, placed, failed]
        exact rfl
      | false =>
        rw [clash] at compared
        obtain ⟨met, same, _⟩ := compared
        rw [if_neg Bool.false_ne_true, placed, same]
        have still : ((Around.holding first).meets (some r)).Matches
            (.holding (first.resolvedIn S)) := .holding regular' S
        cases met with
        | true => exact ⟨_, rfl, ⟨[], .inl rfl, by rw [List.append_nil]; rfl, fun _ => rfl⟩, still⟩
        | false =>
          refine ⟨_, rfl, ⟨_, .inr ⟨_, rfl⟩, congrArg Value.dict (written _), fun no => ?_⟩, still⟩
          cases no

theorem ends_unit (h : n.Regular) (kind : n.kind = .unit) (around : a.Matches s) :
    Ends (violations dataClashes a (.node id n children child))
      ((assemble isRoot (.node id n children child)).run ⟨R, s⟩)
      (Mirrored isRoot a (.node id n children child)) := by
  rw [violations_unit _ kind, assemble_unit isRoot h kind]
  refine (ends_data h isRoot around R id children child).imp fun p hp => ?_
  obtain ⟨⟨data, placed, eq, _⟩, around⟩ := hp
  refine ⟨?_, ?_⟩
  · rw [eq]
    exact .unit kind .none placed
  · have met : (node id n children child).visited.findSome? reference? =
        reference? (node id n children child) := by
      rw [visited_unit kind, List.findSome?_cons]
      cases reference? (node id n children child) <;> rfl
    rw [Around.after, met]
    exact around

/-- A facet that is left has its entries and then the data held for it. -/
theorem withHeld_append {own : Dict} (absent : Dict.get? own (.string "data") = none)
    (s : FacetScope) : ∃ data : Dict, data.IsData ∧ withHeld own s = own ++ data := by
  cases s with
  | outside => exact ⟨[], .inl rfl, (List.append_nil own).symm⟩
  | waiting => exact ⟨[], .inl rfl, (List.append_nil own).symm⟩
  | holding object => exact ⟨_, .inr ⟨object, rfl⟩, Dict.insert_of_absent absent _⟩

theorem ends_nested {α : Type} {errors : List CompileError} {m : Walker α}
    {P : α × Walk → Prop} (around : a.Matches s)
    (inside : a = .outside → Ends errors (m.run ⟨R, .waiting⟩) P) :
    Ends (if a.isOutside then errors else [.nestedFacet])
      ((enterFacet >>= fun _ => m).run ⟨R, s⟩) P := by
  rw [StateT.run_bind, run_enterFacet]
  cases around with
  | outside => exact inside rfl
  | waiting => exact rfl
  | holding regular S => exact rfl

theorem ends_facet_none (h : n.Regular) (kind : n.kind = .facet) (around : a.Matches s) :
    Ends (violations dataClashes a (.node id n children none))
      ((assemble isRoot (.node id n children none)).run ⟨R, s⟩)
      (Mirrored isRoot a (.node id n children none)) := by
  rw [violations_facet_none _ kind, assemble_facet_none isRoot h kind]
  refine ends_nested around fun out => ?_
  subst out
  have first := ends_data h isRoot .waiting R id children none
  rw [dataClashes_waiting] at first
  refine ends_run_bind first fun p hp => ?_
  obtain ⟨v, R', s'⟩ := p
  obtain ⟨⟨data, _, eq, empty⟩, _⟩ := hp
  rw [empty rfl, List.append_nil] at eq
  obtain ⟨held, placed, withHeld_eq⟩ :=
    withHeld_append (h.ownEntries_absent isRoot absent_data) s'
  have left : (leaveFacet v).run ⟨R', s'⟩ =
      .ok (.dict (n.ownEntries isRoot ++ held), ⟨R', .outside⟩) := by
    have dict : v = .dict (n.ownEntries isRoot) := eq
    rw [dict, run_leaveFacet, withHeld_eq]
  refine ⟨_, left, .emptyFacet kind .none placed, ?_⟩
  rw [Around.after, Around.meets_outside]
  exact .outside

theorem ends_facet_some (h : n.Regular) (kind : n.kind = .facet) {c : Chart}
    (around : a.Matches s)
    (below : ∀ {a : Around} {R : Registry} {s : FacetScope}, a.Matches s →
      Ends (violations dataClashes a c) ((assemble false c).run ⟨R, s⟩) (Mirrored false a c)) :
    Ends (violations dataClashes a (.node id n children (some c)))
      ((assemble isRoot (.node id n children (some c))).run ⟨R, s⟩)
      (Mirrored isRoot a (.node id n children (some c))) := by
  rw [violations_facet_some _ kind, assemble_facet_some isRoot h kind]
  refine ends_nested around fun out => ?_
  subst out
  -- The data of the facet itself only go into the scope: its object stays without them.
  have first := ends_data h isRoot .waiting R id children (some c)
  rw [dataClashes_waiting] at first
  refine ends_run_bind first fun p hp => ?_
  obtain ⟨v, R', s'⟩ := p
  obtain ⟨⟨data, _, eq, empty⟩, met⟩ := hp
  rw [empty rfl, List.append_nil] at eq
  have dict : v = .dict (n.ownEntries isRoot) := eq
  subst dict
  rw [← List.append_nil (violations _ _ c)]
  refine ends_run_bind (below met) fun q hq => ?_
  obtain ⟨inner, R'', s''⟩ := q
  have spec : Dict.insert (n.ownEntries isRoot) (.string "spec") inner =
      n.ownEntries isRoot ++ [(.string "spec", inner)] :=
    Dict.insert_of_absent (h.ownEntries_absent isRoot absent_spec) inner
  have absent : Dict.get? (Dict.insert (n.ownEntries isRoot) (.string "spec") inner)
      (.string "data") = none :=
    (Dict.get?_insert_of_ne _ (by decide) inner).trans (h.ownEntries_absent isRoot absent_data)
  obtain ⟨held, placed, withHeld_eq⟩ := withHeld_append absent s''
  have left : (do leaveFacet (← withField (.dict (n.ownEntries isRoot)) "spec" inner)).run
      ⟨R'', s''⟩ = .ok (.dict (n.ownEntries isRoot ++ (.string "spec", inner) :: held),
        ⟨R'', .outside⟩) := by
    rw [withField_dict, pure_bind, run_leaveFacet, withHeld_eq, spec, List.append_assoc]
    rfl
  refine ⟨_, left, .facet kind .none placed hq.object, ?_⟩
  rw [Around.after, Around.meets_outside]
  exact .outside

theorem ends_repeated_none (h : n.Regular) (kind : n.kind = .repeated) (around : a.Matches s) :
    Ends (violations dataClashes a (.node id n children none))
      ((assemble isRoot (.node id n children none)).run ⟨R, s⟩)
      (Mirrored isRoot a (.node id n children none)) := by
  rw [violations_repeated_none _ kind, assemble_repeated_none isRoot h kind]
  refine ⟨_, rfl, .emptyRepeat kind, ?_⟩
  have bare : reference? (node id n children none) = none :=
    reference?_of_not_carries (by rw [kind]; rfl)
  rw [Around.after, visited_single_none (by rw [kind]; rfl), List.findSome?_cons, bare,
    List.findSome?_nil, a.meets_none]
  exact around

theorem ends_lift {α : Type} {errors : List CompileError} {x : Except CompileError α}
    {P : α → Prop} {w : Walk} (h : Ends errors x P) :
    Ends errors ((liftM x : Walker α).run w) fun p => P p.1 ∧ p.2 = w := by
  cases errors with
  | nil =>
    obtain ⟨b, rfl, hb⟩ := h
    exact ⟨_, rfl, hb, rfl⟩
  | cons e errors =>
    have failed : x = .error e := h
    rw [failed]
    exact rfl

theorem ends_bindAxes (isRoot : Bool) (rewired : n.Rewired) (kind : n.kind = .repeated)
    {c : Chart} {k : Kind} (all : c.All Node.Rewired) (found : c.kindOf = .ok k)
    (may : k.canRepeat = true) {inner : Value} (mirrors : Mirrors false [] c inner) :
    Ends (n.axes.filterMap fun axis => axisError? k (n.channelOf axis))
      (bindAxesApart (.dict (Dict.insert (n.ownEntries isRoot) (.string "spec") inner))
        n.repeatChannels k inner) (Mirrors false n.axes c) := by
  obtain ⟨id', entries, channels, typed⟩ := rewired.channels
  have channelOf : n.channelOf = fun axis => (Dict.get? entries (.string axis)).getD .null := by
    funext axis
    rw [Node.channelOf, channels]
    rfl
  obtain ⟨l, before, r, split, fresh, nested, bound⟩ := mirrors.bound all found may
  have bindings := bindAll_ends id' r (fun e he => (typed e he).2) fresh nested n.axes
  rw [bindAxesApart, rewired.axesOf_eq isRoot kind, channels, channelOf, split]
  refine Ends.imp bindings fun v hv => ?_
  obtain ⟨after, rfl, binds⟩ := hv
  exact bound n.axes after binds

theorem ends_repeated_some (rewired : n.Rewired) (kind : n.kind = .repeated) {c : Chart}
    (all : c.All Node.Rewired) (around : a.Matches s)
    (below : ∀ {a : Around} {R : Registry} {s : FacetScope}, a.Matches s →
      Ends (violations dataClashes a c) ((assemble false c).run ⟨R, s⟩) (Mirrored false a c)) :
    Ends (violations dataClashes a (.node id n children (some c)))
      ((assemble isRoot (.node id n children (some c))).run ⟨R, s⟩)
      (Mirrored isRoot a (.node id n children (some c))) := by
  obtain ⟨k, found, known⟩ : ∃ k, c.kind? = some k ∧ c.kindOf = .ok k := by
    cases all with
    | node => exact ⟨_, rfl, rfl⟩
  rw [violations_repeated_of_kind _ kind found,
    assemble_repeated_some isRoot rewired.regular kind (all.imp fun _ node => node.regular), known]
  have same : (a.after (.node id n children (some c))) = a.after c := by
    have bare : reference? (node id n children (some c)) = none :=
      reference?_of_not_carries (by rw [kind]; rfl)
    rw [Around.after, visited_single_some (by rw [kind]; rfl), List.findSome?_cons, bare]
    rfl
  cases may : k.canRepeat with
  | false =>
    show Ends [.notRepeatable k] ((do if k.canRepeat then _ else throw _ : Walker Value).run _) _
    rw [may]
    exact rfl
  | true =>
    rw [if_pos rfl]
    show Ends _ ((do if k.canRepeat then _ else throw _ : Walker Value).run _) _
    rw [may, if_pos rfl]
    refine ends_run_bind (below around) fun p hp => ?_
    rw [← List.append_nil (n.axes.filterMap _)]
    refine ends_run_bind
      (ends_lift (ends_bindAxes isRoot rewired kind all known may hp.object))
      fun q hq => ?_
    obtain ⟨bound, w⟩ := q
    obtain ⟨mirrors, rfl⟩ := hq
    have spec := Dict.insert_of_absent
      (rewired.regular.ownEntries_absent isRoot absent_spec) bound
    refine ⟨_, rfl, ?_, ?_⟩
    · show Mirrors isRoot [] _ (.dict (Dict.insert _ _ _))
      rw [spec]
      exact .repeated kind mirrors
    · rw [same]
      exact hp.around

structure MirroredAll (a : Around) (cs : List Chart) (p : List Value × Walk) : Prop where
  length : p.1.length = cs.length
  objects : ∀ q ∈ cs.zip p.1, Mirrors false [] q.1 q.2
  around : (a.meets ((cs.flatMap visited).findSome? reference?)).Matches p.2.scope

theorem ends_all {cs : List Chart}
    (each : ∀ c ∈ cs, ∀ {a : Around} {R : Registry} {s : FacetScope}, a.Matches s →
      Ends (violations dataClashes a c) ((assemble false c).run ⟨R, s⟩) (Mirrored false a c))
    (around : a.Matches s) :
    Ends (violationsAll dataClashes a cs) ((assembleAll cs).run ⟨R, s⟩) (MirroredAll a cs) := by
  induction cs generalizing a R s with
  | nil =>
    rw [violationsAll, assembleAll]
    refine ⟨_, rfl, rfl, fun q hq => (List.not_mem_nil hq).elim, ?_⟩
    rw [List.flatMap_nil, List.findSome?_nil, a.meets_none]
    exact around
  | cons c cs ih =>
    rw [violationsAll, assembleAll_cons]
    refine ends_run_bind (each c (List.mem_cons_self ..) around) fun p hp => ?_
    obtain ⟨v, R', s'⟩ := p
    rw [← List.append_nil (violationsAll _ _ cs)]
    refine ends_run_bind (ih (fun c hc => each c (List.mem_cons_of_mem _ hc)) hp.around)
      fun q hq => ?_
    refine ⟨_, rfl, congrArg (· + 1) hq.length, List.forall_mem_cons.2 ⟨hp.object, hq.objects⟩, ?_⟩
    rw [List.flatMap_cons, List.findSome?_append, ← Around.meets_meets]
    exact hq.around

theorem ends_concat (h : n.Regular) (kind : n.kind.isConcat = true) (around : a.Matches s)
    (below : ∀ c ∈ children, ∀ {a : Around} {R : Registry} {s : FacetScope}, a.Matches s →
      Ends (violations dataClashes a c) ((assemble false c).run ⟨R, s⟩) (Mirrored false a c)) :
    Ends (violations dataClashes a (.node id n children child))
      ((assemble isRoot (.node id n children child)).run ⟨R, s⟩)
      (Mirrored isRoot a (.node id n children child)) := by
  rw [violations_concat _ kind, assemble_concat isRoot h kind,
    ← List.append_nil (violationsAll _ _ children)]
  refine ends_run_bind (ends_all below around) fun p hp => ?_
  have unwritten : n.kind.name ∉ propertyKeys := by
    revert kind
    cases n.kind <;> decide
  have listed := Dict.insert_of_absent (h.ownEntries_absent isRoot unwritten) (.list p.1)
  have bare : reference? (node id n children child) = none :=
    reference?_of_not_carries (Kind.carriesData_of_isConcat kind)
  refine ⟨_, rfl, ?_, ?_⟩
  · show Mirrors isRoot [] _ (.dict (Dict.insert _ _ _))
    rw [listed]
    exact .concat kind hp.length hp.objects
  · rw [Around.after, visited_concat kind, List.findSome?_cons, bare]
    exact hp.around

end Kinds

/-- The walk over a chart ends with its first violation, or with an object that mirrors it. -/
theorem All.ends {c : Chart} (all : c.All Node.Rewired) (isRoot : Bool) {a : Around}
    {R : Registry} {s : FacetScope} (around : a.Matches s) :
    Ends (violations dataClashes a c) ((assemble isRoot c).run ⟨R, s⟩) (Mirrored isRoot a c) := by
  -- What stands around a node changes on the way down, so it is general in the induction.
  induction all generalizing isRoot a R s with
  | @node id n children child rewired children_all child_all ih_children ih_child =>
    have h := rewired.regular
    cases kind : n.kind with
    | unit => exact ends_unit h kind around
    | facet =>
      cases child with
      | none => exact ends_facet_none h kind around
      | some c => exact ends_facet_some h kind around fun met => ih_child c rfl false met
    | repeated =>
      cases child with
      | none => exact ends_repeated_none h kind around
      | some c =>
        exact ends_repeated_some rewired kind (child_all c rfl) around
          fun met => ih_child c rfl false met
    | layer | hconcat | vconcat =>
      exact ends_concat h (by rw [kind]; rfl) around
        fun c hc => fun met => ih_children c hc false met

theorem Grown.rewired {c : Chart} (h : c.Grown) : c.All Node.Rewired :=
  h.all.imp fun _ node => node.rewired

end Chart

/-- A chart compiles exactly if it has no violation, and otherwise ends with the first one. No chart
that has grown fails as one whose repeated node cannot be repeated. -/
theorem compile_ends_with_first_violation {c : Chart} (rewired : c.All Node.Rewired) :
    (match c.violations Chart.dataClashes .outside with
      | [] => ∃ d, c.compile = .ok d
      | e :: _ => c.compile = .error e) ∧
    (c.Grown → ∀ k, c.compile ≠ .error (.notRepeatable k)) := by
  have ends : Ends (c.violations Chart.dataClashes .outside) c.compile fun _ => True := by
    rw [← List.append_nil (c.violations _ _)]
    exact (rewired.ends true (R := .empty) .outside).bind fun p _ => ⟨_, rfl, trivial⟩
  refine ⟨?_, fun grown k failed => ?_⟩
  · cases violations : c.violations Chart.dataClashes .outside with
    | nil =>
      rw [violations] at ends
      obtain ⟨d, compiled, _⟩ := ends
      exact ⟨d, compiled⟩
    | cons e errors =>
      rw [violations] at ends
      exact ends
  · have none := grown.formed.not_notRepeatable (Chart.not_mem_dataClashes k) .outside
    cases violations : c.violations Chart.dataClashes .outside with
    | nil =>
      rw [violations] at ends
      obtain ⟨d, compiled, _⟩ := ends
      rw [compiled] at failed
      cases failed
    | cons e errors =>
      rw [violations] at ends none
      have first : c.compile = .error e := ends
      rw [first] at failed
      cases failed
      exact none (List.mem_cons_self ..)

def writtenNode (kind : Kind) (child : Value) : Node :=
  { Node.fresh kind Settings.unset.schemaUrl with child := child }

/-- Repeats of a facet and of a layer before a facet with a facet in it, all written. -/
def writtenChart : Chart :=
  let facet : Chart := .node 0 (writtenNode .facet .null) [] none
  let layer : Chart := .node 1 (writtenNode .layer .null) [] none
  let inFacet : Value := .ofNode ⟨0, .facet⟩
  .node 5 (writtenNode .hconcat .null) [.node 2 (writtenNode .repeated inFacet) [] (some facet),
    .node 3 (writtenNode .repeated (.ofNode ⟨1, .layer⟩)) [] (some layer),
    .node 4 (writtenNode .facet inFacet) [] (some facet)] none

theorem writtenNode_rewired (kind : Kind) {child : Value}
    (fits : child = .null ∨ ∃ m, child = .ofNode m) : (writtenNode kind child).Rewired where
  grown := ⟨_, Node.Grown.fresh kind .unset, rfl, rfl, rfl⟩
  channels := ⟨none, [], rfl, fun _ he => (List.not_mem_nil he).elim⟩
  children := ⟨none, [], rfl⟩
  child := fits

theorem writtenChart_rewired : writtenChart.All Node.Rewired := by
  have empty (id : Nat) (kind : Kind) :
      (Chart.node id (writtenNode kind .null) [] none).All Node.Rewired :=
    .node (writtenNode_rewired kind (.inl rfl)) (List.forall_mem_nil _) fun d hd => by cases hd
  have around (id : Nat) (kind : Kind) (m : NodeRef) {c : Chart} (all : c.All Node.Rewired) :
      (Chart.node id (writtenNode kind (.ofNode m)) [] (some c)).All Node.Rewired :=
    .node (writtenNode_rewired kind (.inr ⟨m, rfl⟩)) (List.forall_mem_nil _) fun d hd => by
      cases hd
      exact all
  refine .node (writtenNode_rewired .hconcat (.inl rfl)) ?_ fun d hd => by cases hd
  simp only [List.forall_mem_cons]
  exact ⟨around 2 .repeated _ (empty 0 .facet), around 3 .repeated _ (empty 1 .layer),
    around 4 .facet _ (empty 0 .facet), List.forall_mem_nil _⟩

theorem compile_ends_with_first_violation_of_written :
    writtenChart.All Node.Rewired ∧
      writtenChart.violations Chart.dataClashes .outside =
        [.notRepeatable .layer, .nestedFacet] ∧
      writtenChart.compile = .error (.notRepeatable .layer) ∧ ¬ writtenChart.Grown := by
  obtain ⟨ends, grown⟩ := compile_ends_with_first_violation writtenChart_rewired
  have listed : writtenChart.violations Chart.dataClashes .outside =
      [.notRepeatable .layer, .nestedFacet] := rfl
  rw [listed] at ends
  exact ⟨writtenChart_rewired, listed, ends, fun g => grown g .layer ends⟩

/-- A facet around two units at different addresses, which the options name by signalling
numbers. -/
def signallingSteps : List Step :=
  let name : List (String × Shared) := [("name", ⟨.object 9, .decimal (.nan false true 0)⟩)]
  [.unit ⟨.object 0, .string "a.csv"⟩ name, .unit ⟨.object 1, .string "b.csv"⟩ name,
    .around .layer [⟨0, .unit⟩, ⟨1, .unit⟩], .around .facet [⟨2, .layer⟩]]

theorem signallingSteps_checked : ∀ step ∈ signallingSteps, step.Checked := by
  simp only [signallingSteps, List.forall_mem_cons]
  exact ⟨Step.checked_unit _ (List.nodup_singleton _), Step.checked_unit _ (List.nodup_singleton _),
    Step.checked_around _ _, Step.checked_around _ _, List.forall_mem_nil _⟩

theorem signallingSteps_proper : (Session.start .unset).Proper signallingSteps := by
  refine ⟨.make (Store.none_stand _), .make (Store.none_stand _), .make fun m hm => ?_,
    .make fun m hm => ?_, trivial⟩
  · rcases List.mem_cons.1 hm with rfl | hm
    · exact ⟨_, rfl, rfl⟩
    · cases List.mem_singleton.1 hm
      exact ⟨_, rfl, rfl⟩
  · cases List.mem_singleton.1 hm
    exact ⟨_, rfl, rfl⟩

/-- A chart without violations of its shape fails if the names of its data refuse to be compared. -/
theorem not_always_compiles_without_violation_of_shape :
    ¬ ∀ c : Chart, c.All Node.Rewired → c.violations (fun _ _ => []) .outside = [] →
      ∃ d, c.compile = .ok d := by
  intro claim
  obtain ⟨c, grown, violations, failed⟩ : ∃ c : Chart, c.Grown ∧
      c.violations (fun _ _ => []) .outside = [] ∧
        c.compile = .error (.misuse (.notComparable .signalling)) :=
    ⟨_, ⟨.unset, signallingSteps, 3, signallingSteps_checked, signallingSteps_proper, rfl⟩,
      rfl, rfl⟩
  obtain ⟨d, compiled⟩ := claim c grown.rewired violations
  rw [failed] at compiled
  cases compiled

end ChartTree
