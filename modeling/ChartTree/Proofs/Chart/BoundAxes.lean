import ChartTree.Proofs.Chart.Rebinding
import ChartTree.Proofs.Chart.Sources

/-!
# Bound axes in a document

The axes of every repeat in a document, and the fields that the channels bound to them show. Of
several axes that are bound to one channel only the last shows there: its field takes the place of
those before it. So an axis shows under its channel exactly if no later axis is bound to it.
-/

namespace ChartTree

/-! ### Walks in a document -/

/-- The keys under which something may be written into an object that the walk has left: those of
channel definitions and that of the table. -/
def overwrittenKeys : List String :=
  ["encoding", "facet", "datasets"]

/-- An object has what another one has, but for what may have been written over it. -/
def Value.ShowsIn (v w : Value) : Prop :=
  ∀ key, key ∉ overwrittenKeys → w.field? key = v.field? key

/-- A walk went through at a placement, and its object shows there. -/
def Placement.Ran (p : Placement) : Prop :=
  ∃ isRoot w v u, (Chart.assemble isRoot p.chart).run w = .ok (v, u) ∧ v.ShowsIn p.object

namespace Chart

/-- Every visited node of a chart has a placement in an object, and walks went through at all of
them. -/
def RanIn (facet : Option Value) (object : Value) (c : Chart) : Prop :=
  ∃ ps, c.placements facet object = some ps ∧ ∀ p ∈ ps, p.Ran

section Kinds

variable {id : Nat} {n : Node} {children : List Chart} {child : Option Chart} {c : Chart}
  {isRoot : Bool} {w u : Walk} {v object : Value} {facet : Option Value}

theorem ran_facet (h : n.Regular) (kind : n.kind = .facet)
    (below : ∀ {w u v object} (facet : Option Value), (assemble false c).run w = .ok (v, u) →
      v.ShowsIn object → c.RanIn facet object)
    (run : (assemble isRoot (.node id n children (some c))).run w = .ok (v, u))
    (shows : v.ShowsIn object) : RanIn facet object (.node id n children (some c)) := by
  have here : Placement.Ran ⟨.node id n children (some c), object, facet⟩ :=
    ⟨isRoot, w, v, u, run, shows⟩
  rw [assemble_facet_some isRoot h kind] at run
  obtain ⟨_, ⟨R₁, s₁⟩, _, run⟩ := bind_ok run
  obtain ⟨_, ⟨R₂, s₂⟩, place, run⟩ := bind_ok run
  obtain ⟨_, ⟨entries, rfl, _⟩, _⟩ := walked_data h isRoot place id children none
  obtain ⟨inner, ⟨R₃, s₃⟩, run_inner, run⟩ := bind_ok run
  rw [withField_dict, pure_bind, run_leaveFacet] at run
  cases run
  have spec : object.field? "spec" = some inner :=
    (shows "spec" (by decide)).trans
      ((get?_withHeld _ s₃ "spec" (by decide)).trans (Dict.get?_insert_self entries "spec" inner))
  obtain ⟨ps, placed, ran⟩ := below (some object) run_inner fun _ _ => rfl
  exact ⟨_, placements_facet kind spec placed, List.forall_mem_cons.2 ⟨here, ran⟩⟩

theorem ran_repeated (h : n.Regular) (kind : n.kind = .repeated) (regular : c.All Node.Regular)
    (below : ∀ {w u v object} (facet : Option Value), (assemble false c).run w = .ok (v, u) →
      v.ShowsIn object → c.RanIn facet object)
    (run : (assemble isRoot (.node id n children (some c))).run w = .ok (v, u))
    (shows : v.ShowsIn object) : RanIn facet object (.node id n children (some c)) := by
  have here : Placement.Ran ⟨.node id n children (some c), object, facet⟩ :=
    ⟨isRoot, w, v, u, run, shows⟩
  rw [assemble_repeated_some isRoot h kind regular] at run
  obtain ⟨k, w₁, reach, run⟩ := bind_ok run
  cases may : k.canRepeat with
  | false =>
    rw [may] at run
    cases run
  | true =>
    rw [may, if_pos rfl] at run
    obtain ⟨inner, w₂, run_inner, run⟩ := bind_ok run
    obtain ⟨bound, w₃, lifted, last⟩ := bind_ok run
    obtain ⟨binding, rfl⟩ := lift_ok lifted
    obtain ⟨rfl, rfl⟩ := pure_ok last
    have spec : object.field? "spec" = some bound :=
      (shows "spec" (by decide)).trans (Dict.get?_insert_self _ "spec" bound)
    -- The inner object and the bound one differ in channel definitions only.
    have kept : inner.ShowsIn bound := by
      intro key other
      refine bindAxesApart_field? binding fun same => other ?_
      rw [← same]
      cases k <;> decide
    obtain ⟨ps, placed, ran⟩ := below facet run_inner kept
    exact ⟨_, placements_repeated kind spec placed, List.forall_mem_cons.2 ⟨here, ran⟩⟩

theorem ran_all {cs : List Chart}
    (each : ∀ c ∈ cs, ∀ {w u v object} (facet : Option Value),
      (assemble false c).run w = .ok (v, u) → v.ShowsIn object → c.RanIn facet object)
    {w u : Walk} {vs : List Value} (facet : Option Value)
    (run : (assembleAll cs).run w = .ok (vs, u)) :
    ∃ ps, placementsAll facet vs cs = some ps ∧ ∀ p ∈ ps, p.Ran := by
  induction cs generalizing w vs with
  | nil =>
    obtain ⟨rfl, rfl⟩ := pure_ok run
    exact ⟨[], rfl, List.forall_mem_nil _⟩
  | cons c cs ih =>
    rw [assembleAll_cons] at run
    obtain ⟨first, w₁, run_first, run⟩ := bind_ok run
    obtain ⟨rest, w₂, run_rest, run⟩ := bind_ok run
    obtain ⟨rfl, rfl⟩ := pure_ok run
    obtain ⟨ps, placed, ran⟩ := each c (List.mem_cons_self ..) facet run_first fun _ _ => rfl
    obtain ⟨qs, placed_rest, ran_rest⟩ :=
      ih (fun d mem => each d (List.mem_cons_of_mem _ mem)) run_rest
    exact ⟨_, placementsAll_cons placed placed_rest, List.forall_mem_append.2 ⟨ran, ran_rest⟩⟩

theorem ran_concat (h : n.Regular) (kind : n.kind.isConcat = true)
    (below : ∀ {w u vs} (facet : Option Value), (assembleAll children).run w = .ok (vs, u) →
      ∃ ps, placementsAll facet vs children = some ps ∧ ∀ p ∈ ps, p.Ran)
    (run : (assemble isRoot (.node id n children child)).run w = .ok (v, u))
    (shows : v.ShowsIn object) : RanIn facet object (.node id n children child) := by
  have here : Placement.Ran ⟨.node id n children child, object, facet⟩ :=
    ⟨isRoot, w, v, u, run, shows⟩
  rw [assemble_concat isRoot h kind] at run
  obtain ⟨vs, w₁, run_inner, run⟩ := bind_ok run
  obtain ⟨rfl, rfl⟩ := pure_ok run
  have stays : n.kind.name ∉ overwrittenKeys := by
    rcases Kind.isConcat_iff.1 kind with kind | kind | kind <;> rw [kind] <;> decide
  have listed : object.field? n.kind.name = some (.list vs) :=
    (shows n.kind.name stays).trans (Dict.get?_insert_self _ n.kind.name _)
  obtain ⟨ps, placed, ran⟩ := below facet run_inner
  exact ⟨_, placements_concat kind listed placed, List.forall_mem_cons.2 ⟨here, ran⟩⟩

end Kinds

/-- A walk that went through has gone through at every placement in its object. -/
theorem All.ran {c : Chart} (regular : c.All Node.Regular) {isRoot : Bool} {w u : Walk}
    {v object : Value} (facet : Option Value) (run : (assemble isRoot c).run w = .ok (v, u))
    (shows : v.ShowsIn object) : c.RanIn facet object := by
  induction regular generalizing isRoot w u v object facet with
  | @node id n children child regular _ child_all ih_children ih_child =>
    have alone (placed : (Chart.node id n children child).placements facet object =
        some [⟨.node id n children child, object, facet⟩]) :
        RanIn facet object (.node id n children child) :=
      ⟨_, placed, List.forall_mem_singleton.2 ⟨isRoot, w, v, u, run, shows⟩⟩
    cases kind : n.kind with
    | unit => exact alone (placements_unit kind)
    | facet =>
      cases child with
      | none => exact alone (placements_single_none (by rw [kind]; rfl))
      | some c => exact ran_facet regular kind (ih_child c rfl) run shows
    | repeated =>
      cases child with
      | none => exact alone (placements_single_none (by rw [kind]; rfl))
      | some c => exact ran_repeated regular kind (child_all c rfl) (ih_child c rfl) run shows
    | layer | hconcat | vconcat =>
      exact ran_concat regular (by rw [kind]; rfl)
        (ran_all fun c mem => ih_children c mem) run shows

theorem ran_of_compile {c : Chart} {d : Document} (regular : c.All Node.Regular)
    (compiled : c.compile = .ok d) : c.RanIn none d.toValue := by
  obtain ⟨u, run, _⟩ := compile_ok compiled
  obtain ⟨entries, root, _⟩ := (regular.walked run).entries
  have shows : d.root.ShowsIn d.toValue := by
    intro key other
    refine field?_toValue root ?_
    rintro rfl
    exact other (by decide)
  exact regular.ran none run shows

end Chart

/-! ### Axes of a repeat -/

/-- An axis is bound to a channel last exactly if none of the axes behind it is bound to it. -/
theorem lastAxis_eq_iff {bindings : List (String × String)} {axis channel : String}
    (distinct : (bindings.map Prod.fst).Nodup) (mem : (axis, channel) ∈ bindings) :
    lastAxis bindings channel = some axis ↔
      ∀ before after, bindings = before ++ (axis, channel) :: after →
        channel ∉ after.map Prod.snd := by
  have found (before after : List (String × String)) :
      lastAxis (before ++ (axis, channel) :: after) channel =
        (lastAxis after channel).or (some axis) := by
    rw [lastAxis, List.reverse_append, List.reverse_cons, List.append_assoc, List.find?_append,
      Option.map_or, List.singleton_append, List.find?_cons_of_pos (by simp)]
    rfl
  constructor
  · intro last before after split later
    rw [split, found] at last
    cases overtaken : lastAxis after channel with
    | none => exact lastAxis_eq_none_iff.1 overtaken later
    | some other =>
      rw [overtaken] at last
      cases last
      obtain ⟨b, there, same⟩ := Option.map_eq_some_iff.1 overtaken
      have among : axis ∈ after.map Prod.fst :=
        List.mem_map.2 ⟨b, List.mem_reverse.1 (List.mem_of_find?_eq_some there), same⟩
      rw [split, List.map_append, List.map_cons] at distinct
      exact (List.nodup_cons.1 (List.nodup_append.1 distinct).2.1).1 among
  · intro none_later
    obtain ⟨before, after, split⟩ := List.append_of_mem mem
    rw [split, found, lastAxis_eq_none_iff.2 (none_later before after split)]
    rfl

theorem exists_lastAxis {bindings : List (String × String)} {axis channel : String}
    (mem : (axis, channel) ∈ bindings) : ∃ last, lastAxis bindings channel = some last := by
  cases last : lastAxis bindings channel with
  | none => exact absurd (List.mem_map_of_mem mem) (lastAxis_eq_none_iff.1 last)
  | some other => exact ⟨other, rfl⟩

namespace Node

variable {n : Node}

/-- In the object of a repeat over a node of a kind the channel of an axis shows the field of an
axis: the definition under the channel has a field that refers to that axis. -/
def ShowsField (n : Node) (k : Kind) (object : Value) (axis shown : String) : Prop :=
  ∃ spec definitions fields, object.field? "spec" = some spec ∧
    spec.field? k.channelsKey = some (.dict definitions) ∧
    Dict.get? definitions (n.channelOf axis) = some (.dict fields) ∧
    Dict.get? fields (.string "field") = some (Chart.axisField (.string shown))

theorem Grown.showsField (h : n.Grown) (kind : n.kind = .repeated) {isRoot : Bool} {c : Chart}
    {k : Kind} {own before : Dict} {w u : Walk} {v object : Value}
    (run : Chart.RepeatRun isRoot n c k own before w u v) (shows : v.ShowsIn object)
    {axis channel last : String} (mem : (axis, channel) ∈ n.bindings)
    (latest : lastAxis n.bindings channel = some last) : n.ShowsField k object axis last := by
  obtain ⟨_, _, entries, channels, bound⟩ := h.bindings_eq kind
  have named : n.channelOf axis = .string channel := by
    rw [channelOf, channels]
    exact congrArg (Option.getD · .null) (bound _ mem)
  obtain ⟨_, rebound⟩ := Dict.rebound_spec n.bindings run.nested
  have spec : object.field? "spec" = some (.dict (Dict.insert own (.string k.channelsKey)
      (.dict (Dict.rebound n.bindings before)))) := by
    rw [shows "spec" (by decide), run.object]
    exact Dict.get?_insert_self ..
  rw [ShowsField, named]
  cases held : Dict.get? before (.string channel) with
  | none =>
    exact ⟨_, _, _, spec, Dict.get?_insert_self .., rebound.new channel last latest held, rfl⟩
  | some definition =>
    obtain ⟨fields, rfl⟩ := run.nested.get? held
    exact ⟨_, _, _, spec, Dict.get?_insert_self ..,
      rebound.existing channel last fields latest held, Dict.get?_insert_self ..⟩

end Node

/-- What the object of a repeat over a node of a kind shows of its axes: it has them in their order,
and each is bound to a channel, which shows the field of the last axis that is bound to it. So an
axis shows under its own channel exactly if no axis behind it is bound to the same channel. -/
structure Node.ShowsAxes (n : Node) (k : Kind) (object : Value) : Prop where
  names : (object.field? "repeat").bind Value.names? = some n.axes
  shown : ∀ axis ∈ n.axes, ∃ channel last, n.repeatChannels.field? axis = some (.string channel) ∧
    lastAxis n.bindings channel = some last ∧ n.ShowsField k object axis last ∧
      (last = axis ↔ ∀ before after, n.bindings = before ++ (axis, channel) :: after →
        channel ∉ after.map Prod.snd)

theorem Node.Grown.showsAxes {n : Node} (h : n.Grown) (kind : n.kind = .repeated) {isRoot : Bool}
    {c : Chart} {k : Kind} {own before : Dict} {w u : Walk} {v object : Value}
    (run : Chart.RepeatRun isRoot n c k own before w u v) (shows : v.ShowsIn object) :
    n.ShowsAxes k object where
  names := by
    obtain ⟨bindings, names, held⟩ := h.rewired.get?_repeat isRoot kind
    rw [shows "repeat" (by decide), run.object]
    show (Dict.get? (Dict.insert _ _ _) _).bind _ = _
    rw [Dict.get?_insert_of_ne _ (by decide), held, names]
    exact AxisBinding.names?_repeatedFields bindings
  shown := by
    intro axis mem
    obtain ⟨axes, distinct, entries, channels, bound⟩ := h.bindings_eq kind
    rw [← axes] at mem
    obtain ⟨⟨_, channel⟩, binding, rfl⟩ := List.mem_map.1 mem
    obtain ⟨last, latest⟩ := exists_lastAxis binding
    refine ⟨channel, last, ?_, latest, h.showsField kind run shows binding latest, ?_⟩
    · rw [channels]
      exact bound _ binding
    · rw [← lastAxis_eq_iff distinct binding, latest, Option.some_inj]

/-- Every repeat in a document shows the last binding of each of its channels. -/
theorem repeats_show_last_binding {c : Chart} {d : Document} (grown : c.Grown)
    (compiled : c.compile = .ok d) :
    ∃ all, d.placements c = some all ∧ all.map Placement.chart = c.visited ∧
      ∀ p ∈ all, ∀ id n children inner, p.chart = .node id n children (some inner) →
        n.kind = .repeated → ∃ k, inner.kindOf = .ok k ∧ (k = .unit ∨ k = .facet) ∧
          n.ShowsAxes k p.object := by
  obtain ⟨all, placed, ran⟩ := Chart.ran_of_compile grown.built.regular compiled
  have charts := Chart.charts_of_placements none d.toValue c placed
  refine ⟨all, placed, charts, fun p mem id n children inner here kind => ?_⟩
  have visited : p.chart ∈ c.visited := charts ▸ List.mem_map_of_mem mem
  obtain ⟨isRoot, w, v, u, run, shows⟩ := ran p mem
  have grown_here := grown.all.of_mem_visited _ visited
  rw [here] at run grown_here
  cases grown_here with
  | node node _ below =>
    obtain ⟨k, own, before, run⟩ := Chart.repeatRun_of_run node kind (below inner rfl) run
    exact ⟨k, run.kind, Kind.canRepeat_iff.1 run.may, node.showsAxes kind run shows⟩

/-- One unit in two repeats: in the first both axes are bound to one channel, in the second each is
bound to another. -/
def twiceBoundSteps : List Step :=
  let rows : Shared := ⟨.object 0, .list []⟩
  let x : Shared := ⟨.object 1, .string "x"⟩
  let y : Shared := ⟨.object 2, .string "y"⟩
  let fields (number : Nat) (name : String) : Shared := ⟨.object number, .list [name]⟩
  [.unit rows [], .around .repeated [⟨0, .unit⟩],
    .call 1 (.bindAxis .column x.value (fields 3 "a").value),
    .call 1 (.bindAxis .row x.value (fields 4 "b").value), .around .repeated [⟨0, .unit⟩],
    .call 2 (.bindAxis .column x.value (fields 5 "a").value),
    .call 2 (.bindAxis .row y.value (fields 6 "b").value),
    .around .hconcat [⟨1, .repeated⟩, ⟨2, .repeated⟩]]

theorem twiceBoundSteps_checked : ∀ step ∈ twiceBoundSteps, step.Checked := by
  simp only [twiceBoundSteps, List.forall_mem_cons]
  exact ⟨Step.checked_unit _ List.nodup_nil, Step.checked_around _ _,
    Step.checked_bindAxis _ _ _ _, Step.checked_bindAxis _ _ _ _, Step.checked_around _ _,
    Step.checked_bindAxis _ _ _ _, Step.checked_bindAxis _ _ _ _, Step.checked_around _ _,
    List.forall_mem_nil _⟩

theorem twiceBoundSteps_proper : (Session.start .unset).Proper twiceBoundSteps := by
  have call (s : Store) (id : Nat) (axis : Axis) (channel fields : Value) :
      (Step.call id (.bindAxis axis channel fields)).Proper s := .call id (Store.none_stand _)
  refine ⟨.make (Store.none_stand _), .make fun m hm => ?_, call .., call .., .make fun m hm => ?_,
    call .., call .., .make fun m hm => ?_, trivial⟩
  · cases List.mem_singleton.1 hm
    exact ⟨_, rfl, rfl⟩
  · cases List.mem_singleton.1 hm
    exact ⟨_, rfl, rfl⟩
  · rcases List.mem_cons.1 hm with rfl | hm
    · exact ⟨_, rfl, rfl⟩
    · cases List.mem_singleton.1 hm
      exact ⟨_, rfl, rfl⟩

theorem twiceBoundSteps_grown {c : Chart}
    (found : ((Session.start .unset).run twiceBoundSteps).store.chart? 3 = some c) : c.Grown :=
  ⟨.unset, twiceBoundSteps, 3, twiceBoundSteps_checked, twiceBoundSteps_proper, found⟩

theorem repeats_show_last_binding_of_twiceBound :
    ∃ c d, ((Session.start .unset).run twiceBoundSteps).store.chart? 3 = some c ∧
      c.compile = .ok d ∧ ∃ all, d.placements c = some all ∧
        all.map Placement.chart = c.visited ∧
        ∀ p ∈ all, ∀ id n children inner, p.chart = .node id n children (some inner) →
          n.kind = .repeated → ∃ k, inner.kindOf = .ok k ∧ (k = .unit ∨ k = .facet) ∧
            n.ShowsAxes k p.object := by
  obtain ⟨c, d, found, compiled⟩ : ∃ c d,
      ((Session.start .unset).run twiceBoundSteps).store.chart? 3 = some c ∧ c.compile = .ok d :=
    ⟨_, _, rfl, rfl⟩
  exact ⟨c, d, found, compiled, repeats_show_last_binding (twiceBoundSteps_grown found) compiled⟩

/-- Of two axes that are bound to one channel the first is lost. -/
theorem not_every_axis_shows :
    ¬ ∀ (c : Chart) (d : Document), c.Grown → c.compile = .ok d →
      ∀ all, d.placements c = some all → ∀ p ∈ all, ∀ id n children inner k,
        p.chart = .node id n children (some inner) → n.kind = .repeated →
          inner.kindOf = .ok k → ∀ axis ∈ n.axes, n.ShowsField k p.object axis axis := by
  intro claim
  obtain ⟨spec, definitions, fields, below, map, definition, field⟩ :=
    claim _ _ (twiceBoundSteps_grown rfl) rfl _ rfl _ (.tail _ (.head _)) _ _ _ _ _ rfl rfl rfl
      "column" (.head _)
  cases below
  cases map
  cases definition
  have same : some (Chart.axisField "row") = some (Chart.axisField "column") := field
  simp [Chart.axisField] at same

end ChartTree
