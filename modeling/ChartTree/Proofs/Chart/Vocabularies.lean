import ChartTree.Proofs.Chart.Fidelity
import ChartTree.Proofs.Chart.Sources
import ChartTree.Proofs.Session.Vocabularies

/-!
# Types in a document

Compiling neither brings a type from outside the vocabularies into a document nor takes one away:
the channels that a repeat binds keep their types, and the definitions that it adds have one of the
data types. So the object of a node has all its types in the vocabularies just if the node has.
-/

namespace ChartTree

/-! ### Bound channels -/

theorem Dict.get?_append (d d' : Dict) (key : Value) :
    Dict.get? (d ++ d') key = (Dict.get? d key).or (Dict.get? d' key) := by
  rw [get?, get?, get?, List.find?_append, Option.map_or]

theorem Chart.newDefinition_typedBy (axis : Value) : (newDefinition axis).TypedBy .dataTypes :=
  ⟨_, rfl, DataType.ofRepeated, rfl⟩

/-- Binding channels to axes changes no type and adds definitions with types. -/
theorem Binds.typed_iff {axes : List String} {before after : Dict} (h : Binds axes before after) :
    (∀ e ∈ after, e.2.TypedBy .dataTypes) ↔ ∀ e ∈ before, e.2.TypedBy .dataTypes := by
  induction h with
  | refl => exact Iff.rfl
  | @field l r key fields axis mem earlier ih =>
    have kept : (Value.dict (Dict.insert fields (.string "field")
          (Chart.axisField axis))).TypedBy .dataTypes ↔
        (Value.dict fields).TypedBy .dataTypes := by
      have type : Dict.get? (Dict.insert fields (.string "field") (Chart.axisField axis))
          (.string "type") = Dict.get? fields (.string "type") :=
        Dict.get?_insert_of_ne fields (by decide) _
      simp only [Value.TypedBy, Value.field?, Value.content, type]
    rw [← ih, List.forall_mem_append, List.forall_mem_append, List.forall_mem_cons,
      List.forall_mem_cons, kept]
  | new mem text earlier ih =>
    rw [← ih, List.forall_mem_append, List.forall_mem_singleton]
    exact and_iff_left (Chart.newDefinition_typedBy _)

section Injection

variable {axes : List String} {key : String} {own after : Dict}

theorem Dict.get?_injected_of_ne (h : Injects axes key own after) {name : String}
    (differ : key ≠ name) : Dict.get? after (.string name) = Dict.get? own (.string name) := by
  cases h with
  | none => rfl
  | some split binds =>
    have other : (Value.string key).content ≠ .string name := by
      simpa [Value.content] using differ
    rw [split, get?_append, get?_append]
    exact congrArg _ ((get?_of_content_ne other).trans (get?_of_content_ne other).symm)

/-- Under the key itself the definitions are the same, or some of them are bound to axes. -/
theorem Dict.get?_injected (h : Injects axes key own after) :
    Dict.get? after (.string key) = Dict.get? own (.string key) ∨
      ∃ definitions bound, Dict.get? own (.string key) = some (.dict definitions) ∧
        Dict.get? after (.string key) = some (.dict bound) ∧ Binds axes definitions bound := by
  cases h with
  | none => exact .inl rfl
  | @some l before after r split binds =>
    have here (definitions : Dict) :
        Dict.get? (l ++ (.string key, .dict definitions) :: r) (.string key) =
          (Dict.get? l (.string key)).or (some (.dict definitions)) := by
      rw [get?_append]
      exact congrArg _ (get?_of_content rfl)
    rw [split, here, here]
    cases Dict.get? l (.string key) with
    | some v => exact .inl rfl
    | none => exact .inr ⟨before, after, rfl, rfl, binds⟩

/-- Binding channels in an object changes nothing about the vocabularies of its types. -/
theorem Dict.closedTypes_injected_iff {k : Kind} (h : Injects axes k.channelsKey own after) :
    (Value.dict after).ClosedTypes ↔ (Value.dict own).ClosedTypes := by
  refine forall_congr' fun name => ?_
  show (∀ v, Dict.get? after (.string name) = some v → _) ↔
    ∀ v, Dict.get? own (.string name) = some v → _
  by_cases here : k.channelsKey = name
  · subst here
    rcases get?_injected h with same | ⟨definitions, bound, held, now, binds⟩
    · rw [same]
    · simp only [held, now, Option.some.injEq, forall_eq', Value.typedUnder_channelsKey,
        Value.allTypedBy_dict, binds.typed_iff]
  · rw [get?_injected_of_ne h here]

end Injection

/-! ### Objects of nodes -/

namespace Node.Regular

variable {n : Node} (h : n.Regular)

include h

theorem closedTypes_ownEntries (isRoot : Bool) :
    (Value.dict (n.ownEntries isRoot)).ClosedTypes ↔ n.ClosedTypes := by
  obtain ⟨id, entries, eq, _⟩ := h.spec.properties
  refine Iff.trans (Value.closedTypes_congr fun key mem => ?_) (Value.closedTypes_copied none)
  have copies : (Value.copied none n.properties).field? key =
      Dict.get? n.entries (.string key) := by
    rw [Node.entries, Node.entriesOn_eq eq, eq, Value.copied]
    rfl
  rw [copies]
  cases isRoot with
  | true => rfl
  | false =>
    have stays : ∀ key ∈ typedKeys, key ∉ rootOnlyKeys := by decide
    exact Dict.get?_eraseAll_of_not_mem n.entries (stays key mem)

/-- What stands behind the entries of a node has nothing to do with types. -/
theorem closedTypes_object {isRoot : Bool} {axes : List String} {own rest : Dict}
    (carried : Injects axes n.kind.channelsKey (n.ownEntries isRoot) own)
    (generated : rest.Under generatedKeys) :
    (Value.dict (own ++ rest)).ClosedTypes ↔ n.ClosedTypes := by
  have apart : ∀ key ∈ typedKeys, key ∉ generatedKeys := by decide
  refine Iff.trans (Value.closedTypes_congr fun key mem => ?_)
    ((Dict.closedTypes_injected_iff carried).trans (h.closedTypes_ownEntries isRoot))
  show Dict.get? (own ++ rest) (.string key) = Dict.get? own (.string key)
  rw [Dict.get?_append, generated.get?_eq_none (apart key mem), Option.or_none]

end Node.Regular

/-! ### Placements -/

/-- An object shows another one, which may have got the dataset table besides. -/
def Value.ShowsAll (v object : Value) : Prop :=
  ∀ key, key ≠ Document.datasetsKey → object.field? key = v.field? key

/-- The object at a placement shows one that mirrors its chart. -/
def Placement.Mirrored (p : Placement) : Prop :=
  ∃ isRoot axes v, Chart.Mirrors isRoot axes p.chart v ∧ v.ShowsAll p.object

namespace Chart

/-- Every visited node of a chart has a placement in an object, at which an object mirrors its
chart. -/
def MirroredIn (facet : Option Value) (object : Value) (c : Chart) : Prop :=
  ∃ ps, c.placements facet object = some ps ∧ ∀ p ∈ ps, p.Mirrored

theorem placementsAll_mirrored {cs : List Chart} {vs : List Value} (facet : Option Value)
    (length : vs.length = cs.length)
    (below : ∀ p ∈ cs.zip vs, p.1.MirroredIn facet p.2) :
    ∃ ps, placementsAll facet vs cs = some ps ∧ ∀ p ∈ ps, p.Mirrored := by
  induction cs generalizing vs with
  | nil =>
    cases List.eq_nil_of_length_eq_zero length
    exact ⟨[], rfl, List.forall_mem_nil _⟩
  | cons c cs ih =>
    cases vs with
    | nil => cases length
    | cons v vs =>
      obtain ⟨first, rest⟩ := List.forall_mem_cons.1 below
      obtain ⟨ps, placed, mirrored⟩ := first
      obtain ⟨qs, placed_rest, mirrored_rest⟩ := ih (Nat.succ.inj length) rest
      exact ⟨_, placementsAll_cons placed placed_rest,
        List.forall_mem_append.2 ⟨mirrored, mirrored_rest⟩⟩

/-- The object of a node has the first entry behind those of the node under its key. -/
theorem field?_behind {n : Node} (h : n.Regular) {isRoot : Bool} {axes : List String} {own : Dict}
    (carried : Injects axes n.kind.channelsKey (n.ownEntries isRoot) own) {key : String}
    (generated : key ∉ propertyKeys) (v : Value) (rest : Dict) :
    (Value.dict (own ++ (.string key, v) :: rest)).field? key = some v := by
  have differ : n.kind.channelsKey ≠ key := by
    rintro rfl
    exact generated (Edit.channelsKey_mem n.kind)
  have absent : Dict.get? own (.string key) = none :=
    (Dict.get?_injected_of_ne carried differ).trans
      ((h.ownEntries_under isRoot).get?_eq_none generated)
  show Dict.get? (own ++ (.string key, v) :: rest) (.string key) = _
  rw [Dict.get?_append, absent, Option.none_or]
  exact Dict.get?_of_content rfl

/-- An object that mirrors a chart has placements for all visited nodes, and what stands there
mirrors them. -/
theorem Mirrors.mirroredIn {isRoot : Bool} {axes : List String} {c : Chart} {v : Value}
    (h : Mirrors isRoot axes c v) (regular : c.All Node.Regular) (facet : Option Value)
    {object : Value} (shows : v.ShowsAll object) : c.MirroredIn facet object := by
  have whole := h
  induction h generalizing facet object with
  | unit kind carried placed =>
    exact ⟨_, placements_unit kind, List.forall_mem_singleton.2 ⟨_, _, _, whole, shows⟩⟩
  | emptyFacet kind carried placed =>
    exact ⟨_, placements_single_none (by rw [kind]; rfl),
      List.forall_mem_singleton.2 ⟨_, _, _, whole, shows⟩⟩
  | emptyRepeat kind =>
    exact ⟨_, placements_single_none (by rw [kind]; rfl),
      List.forall_mem_singleton.2 ⟨_, _, _, whole, shows⟩⟩
  | facet kind carried placed below ih =>
    cases regular with
    | node node _ child =>
      have spec := (shows "spec" (by decide)).trans
        (field?_behind node carried (by decide) _ _)
      obtain ⟨ps, placed, mirrored⟩ := ih (child _ rfl) (some object) (fun _ _ => rfl) below
      exact ⟨_, placements_facet kind spec placed,
        List.forall_mem_cons.2 ⟨⟨_, _, _, whole, shows⟩, mirrored⟩⟩
  | repeated kind below ih =>
    cases regular with
    | node node _ child =>
      have spec := (shows "spec" (by decide)).trans
        (field?_behind node (@Injects.none [] _ _) (by decide) _ _)
      obtain ⟨ps, placed, mirrored⟩ := ih (child _ rfl) facet (fun _ _ => rfl) below
      exact ⟨_, placements_repeated kind spec placed,
        List.forall_mem_cons.2 ⟨⟨_, _, _, whole, shows⟩, mirrored⟩⟩
  | @concat isRoot axes id n children child inner kind length below ih =>
    cases regular with
    | node node charts _ =>
      have generated : n.kind.name ∉ propertyKeys ∧ n.kind.name ≠ Document.datasetsKey := by
        rcases Kind.isConcat_iff.1 kind with kind | kind | kind <;> rw [kind] <;> decide
      have listed := (shows _ generated.2).trans
        (field?_behind node (@Injects.none [] _ _) generated.1 (.list inner) [])
      obtain ⟨ps, placed, mirrored⟩ := placementsAll_mirrored facet length fun p mem =>
        ih p mem (charts p.1 (List.of_mem_zip mem).1) facet (fun _ _ => rfl) (below p mem)
      exact ⟨_, placements_concat kind listed placed,
        List.forall_mem_cons.2 ⟨⟨_, _, _, whole, shows⟩, mirrored⟩⟩

/-- The object of a node has all its types in the vocabularies just if the node has. -/
theorem Mirrors.closedTypes_iff {isRoot : Bool} {axes : List String} {id : Nat} {n : Node}
    {children : List Chart} {child : Option Chart} {v : Value} (regular : n.Regular)
    (h : Mirrors isRoot axes (.node id n children child) v) : v.ClosedTypes ↔ n.ClosedTypes := by
  have data {d : Dict} (placed : d.IsData) : d.Under generatedKeys := by
    rcases placed with rfl | ⟨object, rfl⟩
    · exact List.forall_mem_nil _
    · exact List.forall_mem_singleton.2 ⟨"data", by decide, rfl⟩
  have spec : "spec" ∈ generatedKeys := by decide
  cases h with
  | unit kind carried placed => exact regular.closedTypes_object carried (data placed)
  | emptyFacet kind carried placed => exact regular.closedTypes_object carried (data placed)
  | emptyRepeat kind => exact regular.closedTypes_ownEntries isRoot
  | facet kind carried placed below =>
    exact regular.closedTypes_object carried
      (List.forall_mem_cons.2 ⟨⟨"spec", spec, rfl⟩, data placed⟩)
  | repeated kind below =>
    exact regular.closedTypes_object (@Injects.none [] _ _)
      (List.forall_mem_singleton.2 ⟨"spec", spec, rfl⟩)
  | concat kind length below =>
    have generated : n.kind.name ∈ generatedKeys := by
      rcases Kind.isConcat_iff.1 kind with kind | kind | kind <;> rw [kind] <;> decide
    exact regular.closedTypes_object (@Injects.none [] _ _)
      (List.forall_mem_singleton.2 ⟨n.kind.name, generated, rfl⟩)

theorem Grown.mirrors_root {c : Chart} {d : Document} (grown : c.Grown)
    (compiled : c.compile = .ok d) : Mirrors true [] c d.root := by
  obtain ⟨w, run, _⟩ := compile_ok compiled
  have ends := grown.rewired.ends true (R := .empty) .outside
  rw [run] at ends
  cases violations : c.violations dataClashes .outside with
  | nil =>
    rw [violations] at ends
    obtain ⟨p, eq, mirrored⟩ := ends
    cases eq
    exact mirrored.object
  | cons e errors =>
    rw [violations] at ends
    cases ends

/-- In the document of a grown chart every visited node has an object, which has all its types in
the vocabularies just if the node has. -/
theorem Grown.closedTypes_placements {c : Chart} {d : Document} (grown : c.Grown)
    (compiled : c.compile = .ok d) :
    ∃ all, d.placements c = some all ∧ all.map Placement.chart = c.visited ∧
      ∀ p ∈ all, ∀ id n children child, p.chart = .node id n children child →
        (p.object.ClosedTypes ↔ n.ClosedTypes) := by
  have regular := grown.built.regular
  obtain ⟨entries, root, _⟩ := (grown.built.shown compiled).entries
  obtain ⟨all, placed, mirrored⟩ := (grown.mirrors_root compiled).mirroredIn regular none
    fun key other => field?_toValue root other
  have charts := charts_of_placements none d.toValue c placed
  refine ⟨all, placed, charts, fun p mem id n children child here => ?_⟩
  obtain ⟨isRoot, axes, v, mirrors, shows⟩ := mirrored p mem
  have regular_here := regular.of_mem_visited _ (charts ▸ List.mem_map_of_mem mem)
  rw [here] at mirrors regular_here
  cases regular_here with
  | node node _ _ =>
    have tables : ∀ key ∈ typedKeys, key ≠ Document.datasetsKey := by decide
    exact (Value.closedTypes_congr fun key mem => shows key (tables key mem)).trans
      (mirrors.closedTypes_iff node)

end Chart

/-- In a session that makes, changes and copies nodes, the types of all nodes are in their
vocabularies at every time just if no call that goes through gives an option that puts another type
in the place of the checked one. Whatever the calls gave, a document has types from outside only
where a node has: the object of every visited node, with all definitions that a repeat brought into
it, has its types in the vocabularies just if the node has. -/
theorem types_stay_closed_iff (settings : Settings) (steps : List Step)
    (checked : ∀ step ∈ steps, step.Checked) (proper : (Session.start settings).Proper steps) :
    ((∀ done rest, steps = done ++ rest →
        ((Session.start settings).run done).store.Every Node.ClosedTypes) ↔
      (Session.start settings).KeepsTypes steps) ∧
    ∀ id c d, ((Session.start settings).run steps).store.chart? id = some c → c.compile = .ok d →
      ∃ all, d.placements c = some all ∧ all.map Placement.chart = c.visited ∧
        (∀ p ∈ all, ∀ id n children child, p.chart = .node id n children child →
          (p.object.ClosedTypes ↔ n.ClosedTypes)) ∧
        ((Session.start settings).KeepsTypes steps → ∀ p ∈ all, p.object.ClosedTypes) := by
  have nodes := Session.run_closedTypes_iff (s := .start settings) Store.empty_sound
    Store.Every.empty checked proper
  refine ⟨nodes, fun id c d found compiled => ?_⟩
  have grown : c.Grown := ⟨settings, steps, id, checked, proper, found⟩
  obtain ⟨all, placed, charts, objects⟩ := grown.closedTypes_placements compiled
  refine ⟨all, placed, charts, objects, fun keeps p mem => ?_⟩
  have every := nodes.2 keeps steps [] (List.append_nil steps).symm
  have closed : c.All Node.ClosedTypes :=
    (Session.run_regular Store.empty_regular checked).unfold_all_of every found
  have here := closed.of_mem_visited p.chart (charts ▸ List.mem_map_of_mem mem)
  cases chart : p.chart with
  | other v =>
    rw [chart] at here
    cases here
  | node id n children child =>
    rw [chart] at here
    cases here with
    | node node _ _ => exact (objects p mem id n children child chart).2 node

theorem Step.checked_call (id : Nat) {method : Method} {positional : List Shared}
    {named : List (String × Shared)} {call : Call}
    (fits : method.bind? ⟨positional, named⟩ = some call)
    (distinct : (named.map Prod.fst).Nodup) : (Step.call id call).Checked := by
  have given : Arguments.Distinct ⟨positional, named⟩ := distinct
  exact .call id given fits

/-- A unit with a color and a title beside what is checked, one type given twice, and a
projection, repeated along an axis that brings a definition of its own. -/
def typedSteps : List Step :=
  let text (number : Nat) (s : String) : Shared := ⟨.object number, .string s⟩
  let fields : Shared := ⟨.object 9, .list ["u"]⟩
  [.unit (text 0 "a.csv") [],
    .call 0 (.mark (text 1 "bar").value (Dict.ofFields [("color", (text 2 "red").value)])),
    .call 0 (.encode (text 3 "x").value (text 4 "a").value (text 5 "n").value
      (Dict.ofFields [("type", (text 6 "temporal").value), ("title", (text 7 "A").value)])),
    .call 0 (.projection (text 8 "albers").value (Dict.ofFields [])),
    .around .repeated [⟨0, .unit⟩],
    .call 1 (.bindAxis .row (text 10 "y").value fields.value)]

theorem typedSteps_checked : ∀ step ∈ typedSteps, step.Checked := by
  let text (number : Nat) (s : String) : Shared := ⟨.object number, .string s⟩
  simp only [typedSteps, List.forall_mem_cons]
  refine ⟨Step.checked_unit _ List.nodup_nil, ?_, ?_, ?_, Step.checked_around _ _,
    Step.checked_bindAxis _ _ _ _, List.forall_mem_nil _⟩
  · have fits : Method.mark.bind? ⟨[text 1 "bar"], [("color", text 2 "red")]⟩ =
        some (.mark _ _) := rfl
    exact Step.checked_call 0 fits (List.nodup_singleton _)
  · have fits : Method.encode.bind? ⟨[text 3 "x", text 4 "a", text 5 "n"],
        [("type", text 6 "temporal"), ("title", text 7 "A")]⟩ = some (.encode _ _ _ _) := rfl
    exact Step.checked_call 0 fits (by decide)
  · have fits : Method.projection.bind? ⟨[text 8 "albers"], []⟩ = some (.projection _ _) := rfl
    exact Step.checked_call 0 fits List.nodup_nil

theorem typedSteps_proper : (Session.start .unset).Proper typedSteps := by
  refine ⟨.make (Store.none_stand _), .call 0 (Store.none_stand _), .call 0 (Store.none_stand _),
    .call 0 (Store.none_stand _), .make fun m hm => ?_, .call 1 (Store.none_stand _), trivial⟩
  cases List.mem_singleton.1 hm
  exact ⟨_, rfl, rfl⟩

theorem typedSteps_keep : (Session.start .unset).KeepsTypes typedSteps := by
  refine ⟨fun _ _ _ => nofun, ?_, ?_, ?_, fun _ _ _ => nofun, ?_, trivial⟩
  · rintro _ _ _ ⟨⟩ _ _
    refine .inr fun _ _ typing type held => ?_
    cases typing
    cases held
  · rintro _ _ _ ⟨⟩ _ _
    refine .inr fun _ _ typing type held => ?_
    cases typing
    cases held
    exact ⟨.temporal, rfl⟩
  · rintro _ _ _ ⟨⟩ _ _
    refine .inr fun _ _ typing type held => ?_
    cases typing
    cases held
  · rintro _ _ _ ⟨⟩ _ _
    exact .inr fun _ _ => nofun

theorem types_stay_closed_iff_of_typed :
    (Session.start .unset).KeepsTypes typedSteps ∧
      ((Session.start .unset).run typedSteps).store.Every Node.ClosedTypes ∧
      ∃ c d, ((Session.start .unset).run typedSteps).store.chart? 1 = some c ∧
        c.compile = .ok d ∧ ∃ all, d.placements c = some all ∧
          all.map Placement.chart = c.visited ∧ ∀ p ∈ all, p.object.ClosedTypes := by
  obtain ⟨nodes, documents⟩ :=
    types_stay_closed_iff .unset typedSteps typedSteps_checked typedSteps_proper
  obtain ⟨c, d, found, compiled⟩ : ∃ c d,
      ((Session.start .unset).run typedSteps).store.chart? 1 = some c ∧ c.compile = .ok d :=
    ⟨_, _, rfl, rfl⟩
  obtain ⟨all, placed, charts, _, closed⟩ := documents 1 c d found compiled
  exact ⟨typedSteps_keep, nodes.2 typedSteps_keep typedSteps [] rfl, c, d, found, compiled, all,
    placed, charts, closed typedSteps_keep⟩

/-- A unit with a mark, and an option that puts another one in its place. -/
def overridingSteps : List Step :=
  let text (number : Nat) (s : String) : Shared := ⟨.object number, .string s⟩
  [.unit (text 0 "a.csv") [],
    .call 0 (.mark (text 1 "bar").value (Dict.ofFields [("type", (text 2 "pie").value)]))]

theorem overridingSteps_checked : ∀ step ∈ overridingSteps, step.Checked := by
  let text (number : Nat) (s : String) : Shared := ⟨.object number, .string s⟩
  have fits : Method.mark.bind? ⟨[text 1 "bar"], [("type", text 2 "pie")]⟩ =
      some (.mark _ _) := rfl
  exact List.forall_mem_cons.2 ⟨Step.checked_unit _ List.nodup_nil,
    List.forall_mem_singleton.2 (Step.checked_call 0 fits (List.nodup_singleton _))⟩

theorem overridingSteps_proper : (Session.start .unset).Proper overridingSteps :=
  ⟨.make (Store.none_stand _), .call 0 (Store.none_stand _), trivial⟩

/-- An option can give a node a mark that is none. -/
theorem types_not_always_closed :
    ¬ ∀ (settings : Settings) (steps : List Step), (∀ step ∈ steps, step.Checked) →
      (Session.start settings).Proper steps →
        ((Session.start settings).run steps).store.Every Node.ClosedTypes := by
  intro claim
  obtain ⟨n, found, mark⟩ : ∃ n,
      ((Session.start .unset).run overridingSteps).store.node? 0 = some n ∧
        (n.properties.field? "mark").bind (Value.field? · "type") =
          some (Shared.value ⟨.object 2, .string "pie"⟩) := ⟨_, rfl, rfl⟩
  obtain ⟨object, held, shown⟩ := Option.bind_eq_some_iff.1 mark
  have closed :=
    claim .unset overridingSteps overridingSteps_checked overridingSteps_proper 0 n found
  obtain ⟨type, listed, m, content⟩ := closed "mark" object held
  cases shown.symm.trans listed
  have name : "pie" = m.name := Content.string.inj content
  cases m <;> revert name <;> decide

end ChartTree
