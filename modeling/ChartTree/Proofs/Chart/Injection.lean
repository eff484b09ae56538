import ChartTree.Proofs.Chart.Sources
import ChartTree.Proofs.Session.Clearing
import ChartTree.Value.Display

/-!
# What binding the axes changes

A chart with a repeat in it, once as it is and once with the axes of the repeat taken away. The walk
over the one does the same as the walk over the other, and the documents are the same everywhere but
in the object of the repeat: there the repeated axes differ, and of the channel definitions below it
those that an axis is bound to.
-/

namespace ChartTree

theorem Dict.insert_comm_of_held {d : Dict} {name other : String} {held : Value}
    (present : get? d (.string name) = some held) (differ : name ≠ other) (v w : Value) :
    insert (insert d (.string other) w) (.string name) v =
      insert (insert d (.string name) v) (.string other) w := by
  induction d with
  | nil => cases present
  | cons e d ih =>
    by_cases here : e.1.content = .string name
    · have apart : e.1.content ≠ .string other := content_ne_of_ne differ here
      rw [insert_cons_of_content_ne apart, insert_cons_of_content here,
        insert_cons_of_content here]
      exact (insert_cons_of_content_ne (e := (e.1, v)) apart).symm
    · rw [get?_of_content_ne here] at present
      by_cases there : e.1.content = .string other
      · rw [insert_cons_of_content there, insert_cons_of_content_ne here,
          insert_cons_of_content there]
        exact insert_cons_of_content_ne (e := (e.1, w)) here
      · rw [insert_cons_of_content_ne there, insert_cons_of_content_ne here,
          insert_cons_of_content_ne here, insert_cons_of_content_ne there, ih present]

namespace Chart

/-- The objects of a chart, once with nothing repeated along the axes of one repeat in it and once
with its axes bound: they are the same but at the place of the repeat. There the axes stand under
`repeat`, and the channel definitions in the object below are those that binding the axes leaves. -/
inductive BindsAt (id : Nat) : Chart → Value → Value → Prop where
  | here {n : Node} {children : List Chart} {c : Chart} {k : Kind}
      {entries spec before after : Dict} {repeated : Value} (kind : c.kindOf = .ok k)
      (cleared : Dict.get? entries (.string "repeat") = some (.dict []))
      (object : Dict.get? entries (.string "spec") = some (.dict spec))
      (definitions : Dict.get? spec (.string k.channelsKey) = some (.dict before))
      (nested : before.Nested) (axes : repeated.names? = some n.axes)
      (rebound : Dict.Rebound n.bindings before after) :
      BindsAt id (.node id n children (some c)) (.dict entries)
        (.dict (Dict.insert (Dict.insert entries (.string "repeat") repeated) (.string "spec")
          (.dict (Dict.insert spec (.string k.channelsKey) (.dict after)))))
  | spec {i : Nat} {n : Node} {children : List Chart} {c : Chart} {entries : Dict} {v w : Value}
      (kind : n.kind.isSingle = true) (object : Dict.get? entries (.string "spec") = some v)
      (below : BindsAt id c v w) :
      BindsAt id (.node i n children (some c)) (.dict entries)
        (.dict (Dict.insert entries (.string "spec") w))
  | item {i : Nat} {n : Node} {earlier later : List Chart} {c : Chart} {child : Option Chart}
      {entries : Dict} {vs ws : List Value} {v w : Value} (kind : n.kind.isConcat = true)
      (place : vs.length = earlier.length)
      (object : Dict.get? entries (.string n.kind.name) = some (.list (vs ++ v :: ws)))
      (below : BindsAt id c v w) :
      BindsAt id (.node i n (earlier ++ c :: later) child) (.dict entries)
        (.dict (Dict.insert entries (.string n.kind.name) (.list (vs ++ w :: ws))))

/-- The keys under which the two objects may differ. -/
def boundKeys : List String :=
  ["repeat", "spec", "layer", "hconcat", "vconcat"]

/-- The two objects have the same under every other key, and stay related if the same is written
there. -/
theorem BindsAt.apart {id : Nat} {c : Chart} {v w : Value} (h : BindsAt id c v w) :
    ∃ before after, v = .dict before ∧ w = .dict after ∧ ∀ key, key ∉ boundKeys →
      Dict.get? before (.string key) = Dict.get? after (.string key) ∧
        ∀ x, BindsAt id c (.dict (Dict.insert before (.string key) x))
          (.dict (Dict.insert after (.string key) x)) := by
  cases h with
  | @here n children c k entries spec before after repeated kind cleared object definitions nested
      axes rebound =>
    refine ⟨_, _, rfl, rfl, fun key other => ?_⟩
    have apart : ∀ name ∈ boundKeys, name ≠ key := fun name mem same => other (same ▸ mem)
    have not_repeat := apart "repeat" (by decide)
    have not_spec := apart "spec" (by decide)
    have with_repeat : Dict.get? (Dict.insert entries (.string "repeat") repeated)
        (.string "spec") = some (.dict spec) :=
      (Dict.get?_insert_of_ne entries (by decide) repeated).trans object
    refine ⟨?_, fun x => ?_⟩
    · rw [Dict.get?_insert_of_ne _ not_spec, Dict.get?_insert_of_ne _ not_repeat]
    · rw [← Dict.insert_comm_of_held with_repeat not_spec,
        ← Dict.insert_comm_of_held cleared not_repeat]
      exact .here kind ((Dict.get?_insert_of_ne _ (Ne.symm not_repeat) x).trans cleared)
        ((Dict.get?_insert_of_ne _ (Ne.symm not_spec) x).trans object) definitions nested axes
        rebound
  | @spec i n children c entries v w kind object below =>
    refine ⟨_, _, rfl, rfl, fun key other => ?_⟩
    have differ : "spec" ≠ key := fun same => other (same ▸ by decide)
    refine ⟨(Dict.get?_insert_of_ne entries differ w).symm, fun x => ?_⟩
    rw [← Dict.insert_comm_of_held object differ]
    exact .spec kind ((Dict.get?_insert_of_ne entries (Ne.symm differ) x).trans object) below
  | @item i n earlier later c child entries vs ws v w kind place object below =>
    refine ⟨_, _, rfl, rfl, fun key other => ?_⟩
    have differ : n.kind.name ≠ key := by
      rintro rfl
      revert other
      rcases Kind.isConcat_iff.1 kind with kind | kind | kind <;> rw [kind] <;> decide
    refine ⟨(Dict.get?_insert_of_ne entries differ _).symm, fun x => ?_⟩
    rw [← Dict.insert_comm_of_held object differ]
    exact .item kind place ((Dict.get?_insert_of_ne entries (Ne.symm differ) x).trans object) below

/-! ### Where a node stands -/

/-- Where a visited node stands that has one place in a chart: at the top, in the single place of
inner nodes, or in the list of them. -/
inductive StandsOnce (id : Nat) (r : Chart) : Chart → Prop where
  | top {n : Node} {cs : List Chart} {c? : Option Chart} (same : r = .node id n cs c?)
      (listed : id ∉ idsAll cs) (wrapped : id ∉ idsAll c?.toList) :
      StandsOnce id r (.node id n cs c?)
  | single {i : Nat} {n : Node} {cs : List Chart} {c : Chart} (other : i ≠ id)
      (kind : n.kind.isSingle = true) (visited : r ∈ c.visited) (once : c.ids.count id = 1) :
      StandsOnce id r (.node i n cs (some c))
  | listed {i : Nat} {n : Node} {earlier later : List Chart} {c : Chart} {c? : Option Chart}
      (other : i ≠ id) (kind : n.kind.isConcat = true) (visited : r ∈ c.visited)
      (once : c.ids.count id = 1) (before : id ∉ idsAll earlier) (behind : id ∉ idsAll later) :
      StandsOnce id r (.node i n (earlier ++ c :: later) c?)

theorem idsAll_append (cs ds : List Chart) : idsAll (cs ++ ds) = idsAll cs ++ idsAll ds := by
  induction cs with
  | nil => rfl
  | cons c cs ih => rw [List.cons_append, idsAll, ih, idsAll, List.append_assoc]

theorem All.mem_ids {P : Node → Prop} {c : Chart} (all : c.All P) {id : Nat} {n : Node}
    {cs : List Chart} {c? : Option Chart} (mem : .node id n cs c? ∈ c.visited) : id ∈ c.ids := by
  induction all with
  | @node i m ds d? _ _ _ ih_children ih_child =>
    rw [mem_ids_node]
    rcases visited_cases mem with top | ⟨_, d, rfl, below⟩ | ⟨_, d, hd, below⟩
    · cases top
      exact .inl rfl
    · exact .inr (.inr ⟨d, rfl, ih_child d rfl below⟩)
    · exact .inr (.inl ⟨d, hd, ih_children d hd below⟩)

theorem All.standsOnce {P : Node → Prop} {i : Nat} {m : Node} {ds : List Chart}
    {d? : Option Chart} (all : (Chart.node i m ds d?).All P) {id : Nat} {n : Node}
    {cs : List Chart} {c? : Option Chart} (mem : .node id n cs c? ∈ (Chart.node i m ds d?).visited)
    (once : (Chart.node i m ds d?).ids.count id = 1) :
    StandsOnce id (.node id n cs c?) (.node i m ds d?) := by
  cases all with
  | node _ children child =>
    rw [ids_node, List.count_cons, List.count_append] at once
    rcases visited_cases mem with top | ⟨kind, d, rfl, below⟩ | ⟨kind, d, hd, below⟩
    · obtain rfl : id = i := by
        cases top
        rfl
      rw [if_pos (beq_self_eq_true id)] at once
      exact .top top (List.count_eq_zero.1 (by omega)) (List.count_eq_zero.1 (by omega))
    · have there : 0 < d.ids.count id := List.count_pos_iff.2 ((child d rfl).mem_ids below)
      have inside : (idsAll (some d).toList).count id = d.ids.count id := by
        rw [Option.toList_some, idsAll, idsAll, List.append_nil]
      rw [inside] at once
      have other : i ≠ id := by
        intro same
        rw [if_pos (beq_iff_eq.2 same)] at once
        omega
      exact .single other kind below (by omega)
    · obtain ⟨earlier, later, rfl⟩ := List.append_of_mem hd
      have there : 0 < d.ids.count id := List.count_pos_iff.2 ((children d hd).mem_ids below)
      rw [idsAll_append, idsAll, List.count_append, List.count_append] at once
      have other : i ≠ id := by
        intro same
        rw [if_pos (beq_iff_eq.2 same)] at once
        omega
      exact .listed other kind below (by omega) (List.count_eq_zero.1 (by omega))
        (List.count_eq_zero.1 (by omega))

/-! ### Two walks -/

theorem run_bind_ok {α β : Type} {x : Walker α} {f : α → Walker β} {w t : Walk} {a : α}
    (first : x.run w = .ok (a, t)) : (x >>= f).run w = (f a).run t := by
  rw [StateT.run_bind, first]
  rfl

/-- A walk over a list of charts with another chart in one place, which gives another object there
and leaves the walk in the same state. -/
theorem run_all_focus {earlier later : List Chart} {c : Chart} {w u : Walk} {vs : List Value}
    (run : (assembleAll (earlier ++ c :: later)).run w = .ok (vs, u)) :
    ∃ before v behind w₁ w₂, vs = before ++ v :: behind ∧ before.length = earlier.length ∧
      (assemble false c).run w₁ = .ok (v, w₂) ∧
        ∀ c' v', (assemble false c').run w₁ = .ok (v', w₂) →
          (assembleAll (earlier ++ c' :: later)).run w = .ok (before ++ v' :: behind, u) := by
  induction earlier generalizing w vs with
  | nil =>
    rw [List.nil_append, assembleAll_cons] at run
    obtain ⟨v, w₂, first, run⟩ := bind_ok run
    obtain ⟨behind, w₃, rest, last⟩ := bind_ok run
    obtain ⟨rfl, rfl⟩ := pure_ok last
    refine ⟨[], v, behind, w, w₂, rfl, rfl, first, fun c' v' first' => ?_⟩
    rw [List.nil_append, assembleAll_cons, run_bind_ok first', run_bind_ok rest]
    rfl
  | cons d earlier ih =>
    rw [List.cons_append, assembleAll_cons] at run
    obtain ⟨x, w', first, run⟩ := bind_ok run
    obtain ⟨rest, w'', run_rest, last⟩ := bind_ok run
    obtain ⟨rfl, rfl⟩ := pure_ok last
    obtain ⟨before, v, behind, w₁, w₂, rfl, length, here, focus⟩ := ih run_rest
    refine ⟨x :: before, v, behind, w₁, w₂, rfl, congrArg (· + 1) length, here,
      fun c' v' here' => ?_⟩
    rw [List.cons_append, assembleAll_cons, run_bind_ok first, run_bind_ok (focus c' v' here')]
    rfl

section Cleared

variable {id i : Nat} {n m l : Node} {cs ds : List Chart} {c inner : Chart} {d? : Option Chart}
  {isRoot : Bool} {w u : Walk} {v : Value}

theorem binds_top (node : n.Grown) (below : inner.All Node.Grown) (grown : m.Grown)
    (cleared : n.ClearedTo m) (kind : n.kind = .repeated) (absent : id ∉ inner.ids)
    (run : (assemble isRoot (.node id n cs (some inner))).run w = .ok (v, u)) :
    ∃ v₀, (assemble isRoot ((Chart.node id n cs (some inner)).withNode id m)).run w = .ok (v₀, u) ∧
      BindsAt id (.node id n cs (some inner)) v₀ v := by
  obtain ⟨k, own, before, made⟩ := repeatRun_of_run node kind below run
  obtain ⟨bindings, axes, held⟩ := node.rewired.get?_repeat isRoot kind
  have unbound : m.bindings = [] := by
    rw [Node.bindings, cleared.axes]
    rfl
  refine ⟨.dict (Dict.insert (m.ownEntries isRoot) (.string "spec") (.dict own)), ?_, ?_⟩
  · rw [withNode_node, if_pos rfl, Option.map_some, withNode_of_not_mem id m inner absent,
      run_repeated grown cleared.kind (below.imp fun _ node => node.regular) made.kind made.may
        made.below made.held made.nested, unbound]
    show Except.ok (Value.dict (Dict.insert _ _ (.dict (Dict.insert own _ (.dict before)))), u) = _
    rw [Dict.insert_of_held made.held]
  · have names : (Value.dict (AxisBinding.repeatedFields bindings)).names? = some n.axes := by
      rw [axes]
      exact AxisBinding.names?_repeatedFields bindings
    have empty : Dict.get? (m.ownEntries isRoot) (.string "repeat") = some (.dict []) := by
      rw [cleared.ownEntries]
      exact Dict.get?_insert_self ..
    -- Writing the repeated axes back gives the entries of the repeat itself.
    have back : Dict.insert (Dict.insert (m.ownEntries isRoot) (.string "spec") (.dict own))
        (.string "repeat") (.dict (AxisBinding.repeatedFields bindings)) =
          Dict.insert (n.ownEntries isRoot) (.string "spec") (.dict own) := by
      rw [Dict.insert_comm_of_held empty (by decide), cleared.ownEntries, Dict.insert_insert_self,
        Dict.insert_of_held held]
    have bound : BindsAt id (.node id n cs (some inner)) _ _ := .here made.kind
      ((Dict.get?_insert_of_ne _ (by decide) _).trans empty) (Dict.get?_insert_self ..) made.held
      made.nested names (Dict.rebound_spec n.bindings made.nested).2
    rw [back, Dict.insert_insert_self, ← made.object] at bound
    exact bound

theorem binds_facet (node : l.Regular) (kind : l.kind = .facet) (other : i ≠ id)
    (below : ∀ {w u v}, (assemble false c).run w = .ok (v, u) →
      ∃ v₀, (assemble false (c.withNode id m)).run w = .ok (v₀, u) ∧ BindsAt id c v₀ v)
    (run : (assemble isRoot (.node i l ds (some c))).run w = .ok (v, u)) :
    ∃ v₀, (assemble isRoot ((Chart.node i l ds (some c)).withNode id m)).run w = .ok (v₀, u) ∧
      BindsAt id (.node i l ds (some c)) v₀ v := by
  rw [withNode_node_of_ne other, Option.map_some]
  rw [assemble_facet_some isRoot node kind] at run ⊢
  obtain ⟨_, w₁, enter, run⟩ := bind_ok run
  obtain ⟨_, w₂, place, run⟩ := bind_ok run
  obtain ⟨R₁, s₁⟩ := w₁
  obtain ⟨_, ⟨entries, rfl, _⟩, _⟩ := walked_data node isRoot place i ds none
  obtain ⟨object, ⟨R₃, s₃⟩, inside, run⟩ := bind_ok run
  rw [withField_dict, pure_bind, run_leaveFacet] at run
  cases run
  obtain ⟨object₀, inside₀, binds⟩ := below inside
  refine ⟨.dict (withHeld (Dict.insert entries (.string "spec") object₀) s₃), ?_, ?_⟩
  · rw [run_bind_ok enter, run_bind_ok place, run_bind_ok inside₀, withField_dict, pure_bind,
      run_leaveFacet]
  · have spec : BindsAt id (.node i l ds (some c)) _ _ := .spec (by rw [kind]; rfl)
      (Dict.get?_insert_self entries "spec" object₀) binds
    rw [Dict.insert_insert_self] at spec
    cases s₃ with
    | outside => exact spec
    | waiting => exact spec
    | holding data =>
      obtain ⟨_, _, eq, eq', same⟩ := spec.apart
      cases eq
      cases eq'
      exact (same "data" (by decide)).2 (.dict data)

theorem binds_repeated (node : l.Grown) (all : c.All Node.Grown) (grown : m.Grown)
    (kind : l.kind = .repeated) (other : i ≠ id) (same : (c.withNode id m).kindOf = c.kindOf)
    (below : ∀ {w u v}, (assemble false c).run w = .ok (v, u) →
      ∃ v₀, (assemble false (c.withNode id m)).run w = .ok (v₀, u) ∧ BindsAt id c v₀ v)
    (run : (assemble isRoot (.node i l ds (some c))).run w = .ok (v, u)) :
    ∃ v₀, (assemble isRoot ((Chart.node i l ds (some c)).withNode id m)).run w = .ok (v₀, u) ∧
      BindsAt id (.node i l ds (some c)) v₀ v := by
  obtain ⟨k, own, before, made⟩ := repeatRun_of_run node kind all run
  obtain ⟨_, inside, binds⟩ := below made.below
  obtain ⟨own₀, own', rfl, eq, apart⟩ := binds.apart
  cases eq
  have unbound : k.channelsKey ∉ boundKeys := by
    cases k <;> decide
  have regular : (c.withNode id m).All Node.Regular :=
    (all.withNode id grown).imp fun _ node => node.regular
  obtain ⟨kept, written⟩ := apart k.channelsKey unbound
  refine ⟨.dict (Dict.insert (l.ownEntries isRoot) (.string "spec")
    (.dict (Dict.insert own₀ (.string k.channelsKey)
      (.dict (Dict.rebound l.bindings before))))), ?_, ?_⟩
  · rw [withNode_node_of_ne other, Option.map_some, run_repeated node kind regular
      (same.trans made.kind) made.may inside (kept.trans made.held) made.nested, made.placed]
  · have spec : BindsAt id (.node i l ds (some c)) _ _ := .spec (by rw [kind]; rfl)
      (Dict.get?_insert_self (l.ownEntries isRoot) "spec" _)
      (written (.dict (Dict.rebound l.bindings before)))
    rw [Dict.insert_insert_self, ← made.object] at spec
    exact spec

theorem binds_concat {earlier later : List Chart} (node : l.Regular)
    (kind : l.kind.isConcat = true) (other : i ≠ id) (before : id ∉ idsAll earlier)
    (behind : id ∉ idsAll later)
    (below : ∀ {w u v}, (assemble false c).run w = .ok (v, u) →
      ∃ v₀, (assemble false (c.withNode id m)).run w = .ok (v₀, u) ∧ BindsAt id c v₀ v)
    (run : (assemble isRoot (.node i l (earlier ++ c :: later) d?)).run w = .ok (v, u)) :
    ∃ v₀, (assemble isRoot ((Chart.node i l (earlier ++ c :: later) d?).withNode id m)).run w =
        .ok (v₀, u) ∧ BindsAt id (.node i l (earlier ++ c :: later) d?) v₀ v := by
  rw [withNode_node_of_ne other, List.map_append, List.map_cons, ← withNodeAll_eq_map,
    ← withNodeAll_eq_map, withNodeAll_of_not_mem id m earlier before,
    withNodeAll_of_not_mem id m later behind]
  rw [assemble_concat isRoot node kind] at run ⊢
  obtain ⟨objects, t, inside, last⟩ := bind_ok run
  obtain ⟨rfl, rfl⟩ := pure_ok last
  obtain ⟨vs, v, ws, w₁, w₂, rfl, length, here, focus⟩ := run_all_focus inside
  obtain ⟨v₀, here₀, binds⟩ := below here
  refine ⟨.dict (Dict.insert (l.ownEntries isRoot) (.string l.kind.name)
    (.list (vs ++ v₀ :: ws))), ?_, ?_⟩
  · rw [run_bind_ok (focus _ v₀ here₀)]
    rfl
  · have listed : Dict.get? (Dict.insert (l.ownEntries isRoot) (.string l.kind.name)
        (.list (vs ++ v₀ :: ws))) (.string l.kind.name) = some (.list (vs ++ v₀ :: ws)) :=
      Dict.get?_insert_self ..
    have item : BindsAt id (.node i l (earlier ++ c :: later) d?) _ _ :=
      .item kind length listed binds
    rw [Dict.insert_insert_self] at item
    exact item

/-- The walk over a chart with a cleared repeat goes as that over the chart itself, and the objects
differ at the repeat only. -/
theorem All.run_cleared (all : c.All Node.Grown) (grown : m.Grown) (cleared : n.ClearedTo m)
    (kind : n.kind = .repeated) (mem : .node id n cs (some inner) ∈ c.visited)
    (once : c.ids.count id = 1) (run : (assemble isRoot c).run w = .ok (v, u)) :
    ∃ v₀, (assemble isRoot (c.withNode id m)).run w = .ok (v₀, u) ∧ BindsAt id c v₀ v := by
  induction all generalizing isRoot w u v with
  | @node i l ds d? node children child ih_children ih_child =>
    have whole : (Chart.node i l ds d?).All Node.Grown := .node node children child
    cases whole.standsOnce mem once with
    | top same listed wrapped =>
      cases same
      rw [Option.toList_some, idsAll, idsAll, List.append_nil] at wrapped
      exact binds_top node (child inner rfl) grown cleared kind wrapped run
    | @single _ _ _ c other single visited alone =>
      rcases Kind.isSingle_iff.1 single with facet | repeated
      · exact binds_facet node.regular facet other (ih_child c rfl visited alone) run
      · refine binds_repeated node (child c rfl) grown repeated other ?_
          (ih_child c rfl visited alone) run
        refine kindOf_withNode fun n' cs' c?' eq => ?_
        subst eq
        cases (child _ rfl).standsOnce visited alone with
        | top same _ _ =>
          cases same
          exact cleared.kind.trans kind.symm
        | single other _ _ _ => exact absurd rfl other
        | listed other _ _ _ _ _ => exact absurd rfl other
    | @listed _ _ earlier later c _ other concat visited alone before behind =>
      exact binds_concat node.regular concat other before behind
        (ih_children c (List.mem_append_right _ (List.mem_cons_self ..)) visited alone) run

end Cleared

/-- A table at the root stands behind everything else in both documents. -/
theorem BindsAt.toValue {id : Nat} {c : Chart} {v w : Value} {registry : Registry}
    (h : BindsAt id c v w) :
    BindsAt id c (Document.mk v registry).toValue (Document.mk w registry).toValue := by
  obtain ⟨before, after, rfl, rfl, apart⟩ := h.apart
  rw [Document.toValue, Document.toValue]
  show BindsAt id c (if _ then _ else _) (if _ then _ else _)
  by_cases empty : registry.size = 0
  · rw [if_pos empty, if_pos empty]
    exact h
  · rw [if_neg empty, if_neg empty]
    exact (apart "datasets" (by decide)).2 _

/-- The definition of a channel in the object that a repeat repeats. -/
def repeatedDefinition? (k : Kind) (channel : String) (v : Value) : Option Value := do
  let spec ← v.field? "spec"
  let definitions ← spec.field? k.channelsKey
  definitions.field? channel

/-- Nothing is bound in a node without inner nodes. -/
theorem not_bindsAt_leaf {id i : Nat} {n : Node} {v w : Value} :
    ¬BindsAt id (.node i n [] none) v w := by
  generalize children : ([] : List Chart) = cs
  intro h
  cases h with
  | item kind place object below =>
    exact List.append_ne_nil_of_right_ne_nil _ (by simp) children.symm

/-- Around a node without inner nodes, a channel that no axis is bound to keeps its definition. -/
theorem BindsAt.unbound {id i : Nat} {n m : Node} {v w : Value}
    (h : BindsAt id (.node id n [] (some (.node i m [] none))) v w) (channel : String)
    (free : lastAxis n.bindings channel = none) :
    repeatedDefinition? m.kind channel v = repeatedDefinition? m.kind channel w := by
  generalize children : ([] : List Chart) = cs at h
  cases h with
  | here kind cleared object definitions nested axes rebound =>
    cases kind
    have field (d : Dict) (key : String) : (Value.dict d).field? key = Dict.get? d (.string key) :=
      rfl
    simp only [repeatedDefinition?, field, object, definitions, Dict.get?_insert_self,
      Option.bind_eq_bind, Option.bind_some]
    exact (rebound.unbound channel free).symm
  | spec kind object below => exact (not_bindsAt_leaf (children ▸ below)).elim
  | item kind place object below => simp at children

end Chart

/-- Where a chart compiles that has a repeat with a node in it in one place, it compiles too once
both axes of the repeat are taken away. The documents have the same data sets and differ in the
object of the repeat only, and there in nothing but the repeated axes and the definitions of the
channels that they are bound to. -/
theorem binding_changes_bound_channels_only {settings : Settings} {steps : List Step}
    {id rid : Nat} {c inner : Chart} {d : Document} {n : Node} {children : List Chart}
    {first second : Axis} (checked : ∀ step ∈ steps, step.Checked)
    (proper : (Session.start settings).Proper steps)
    (found : ((Session.start settings).run steps).store.chart? id = some c)
    (compiled : c.compile = .ok d) (kind : n.kind = .repeated)
    (visited : .node rid n children (some inner) ∈ c.visited) (once : c.ids.count rid = 1)
    (differ : first ≠ second) (i j : Identity) :
    let cleared := ((Session.start settings).run steps).run
      [.clear rid first i, .clear rid second j]
    ∃ c₀ d₀, cleared.store.chart? id = some c₀ ∧ c₀.compile = .ok d₀ ∧
      d₀.datasets = d.datasets ∧ Chart.BindsAt rid c d₀.toValue d.toValue := by
  intro cleared
  have grown : c.Grown := ⟨settings, steps, id, checked, proper, found⟩
  have node := Store.node?_of_mem_visited found visited
  obtain ⟨m, grown_m, cleared_m, charts⟩ := Session.run_clear checked proper node kind differ i j
  obtain ⟨u, run, registry⟩ := Chart.compile_ok compiled
  obtain ⟨v₀, run₀, binds⟩ := grown.all.run_cleared grown_m cleared_m kind visited once run
  have compiled₀ : (c.withNode rid m).compile = .ok ⟨v₀, u.registry⟩ := by
    rw [Chart.compile, run₀]
    rfl
  refine ⟨c.withNode rid m, ⟨v₀, u.registry⟩, charts id c found, compiled₀, registry.symm, ?_⟩
  obtain ⟨root, datasets⟩ := d
  subst registry
  exact binds.toValue

/-- A unit that has a field in one of its channels, in a repeat along both axes, in a concatenation:
one axis is bound to that channel and the other to a channel without a definition. -/
def injectedSteps : List Step :=
  let rows : Shared := ⟨.object 0, .list []⟩
  let x : Shared := ⟨.object 1, .string "x"⟩
  let y : Shared := ⟨.object 2, .string "y"⟩
  let field : Shared := ⟨.object 3, .string "a"⟩
  let fields : Shared := ⟨.object 4, .list ["b"]⟩
  [.unit rows [], .call 0 (.encode x.value field.value Method.defaultDataType []),
    .around .repeated [⟨0, .unit⟩], .call 1 (.bindAxis .column x.value fields.value),
    .call 1 (.bindAxis .row y.value fields.value), .around .hconcat [⟨1, .repeated⟩]]

theorem injectedSteps_checked : ∀ step ∈ injectedSteps, step.Checked := by
  have encoded (id : Nat) (channel field : Shared) : (Step.call id
      (.encode channel.value field.value Method.defaultDataType [])).Checked := by
    have given : Arguments.Distinct ⟨[channel, field], []⟩ := List.nodup_nil
    have fits : Method.encode.bind? ⟨[channel, field], []⟩ =
        some (.encode channel.value field.value Method.defaultDataType []) := rfl
    exact .call id given fits
  simp only [injectedSteps, List.forall_mem_cons]
  exact ⟨Step.checked_unit _ List.nodup_nil, encoded _ _ _, Step.checked_around _ _,
    Step.checked_bindAxis _ _ _ _, Step.checked_bindAxis _ _ _ _, Step.checked_around _ _,
    List.forall_mem_nil _⟩

theorem injectedSteps_proper : (Session.start .unset).Proper injectedSteps := by
  refine ⟨.make (Store.none_stand _), .call 0 (Store.none_stand _), .make fun m hm => ?_,
    .call 1 (Store.none_stand _), .call 1 (Store.none_stand _), .make fun m hm => ?_, trivial⟩
  · cases List.mem_singleton.1 hm
    exact ⟨_, rfl, rfl⟩
  · cases List.mem_singleton.1 hm
    exact ⟨_, rfl, rfl⟩

theorem binding_changes_bound_channels_only_of_injected :
    let reached := (Session.start .unset).run injectedSteps
    let cleared := reached.run [.clear 1 .row (.object 5), .clear 1 .column (.object 5)]
    ∃ c d, reached.store.chart? 2 = some c ∧ c.compile = .ok d ∧ c.ids.count 1 = 1 ∧
      ∃ c₀ d₀, cleared.store.chart? 2 = some c₀ ∧ c₀.compile = .ok d₀ ∧
        d₀.datasets = d.datasets ∧ Chart.BindsAt 1 c d₀.toValue d.toValue := by
  intro reached cleared
  obtain ⟨c, d, n, children, inner, found, compiled, kind, visited, once⟩ :
      ∃ c d n children inner, reached.store.chart? 2 = some c ∧ c.compile = .ok d ∧
        n.kind = .repeated ∧ .node 1 n children (some inner) ∈ c.visited ∧ c.ids.count 1 = 1 :=
    ⟨_, _, _, _, _, rfl, rfl, rfl, .tail _ (.head _), rfl⟩
  exact ⟨c, d, found, compiled, once, binding_changes_bound_channels_only injectedSteps_checked
    injectedSteps_proper found compiled kind visited once (by decide) (.object 5) (.object 5)⟩

/-- A unit in which the definition of one channel is handed over as an option of another one, in a
repeat that binds the first. -/
def heldSteps : List Step :=
  let rows : Shared := ⟨.object 0, .list []⟩
  let held : Shared := ⟨.object 1, .dict [("field", "a"), ("type", "quantitative")]⟩
  let x : Shared := ⟨.object 2, .string "x"⟩
  let y : Shared := ⟨.object 3, .string "y"⟩
  let a : Shared := ⟨.object 4, .string "a"⟩
  let b : Shared := ⟨.object 5, .string "b"⟩
  let fields : Shared := ⟨.object 6, .list ["f"]⟩
  [.unit rows [], .call 0 (.encode x.value a.value Method.defaultDataType []),
    .hold 0 .properties ["encoding", "x"] 1,
    .call 0 (.encode y.value b.value Method.defaultDataType [("extra", held.value)]),
    .around .repeated [⟨0, .unit⟩], .call 1 (.bindAxis .column x.value fields.value)]

/-- The field of a channel is bound wherever its definition stands. -/
theorem binding_reaches_held_definitions :
    let reached := (Session.start .unset).run heldSteps
    let cleared := reached.run [.clear 1 .row (.object 7), .clear 1 .column (.object 7)]
    (∀ step ∈ heldSteps, step.Checked ∨ ∃ path number, step = .hold 0 .properties path number) ∧
      ∃ c d c₀ d₀, reached.store.chart? 1 = some c ∧ c.compile = .ok d ∧ c.ids.count 1 = 1 ∧
        cleared.store.chart? 1 = some c₀ ∧ c₀.compile = .ok d₀ ∧
          ¬Chart.BindsAt 1 c d₀.toValue d.toValue := by
  intro reached cleared
  refine ⟨?_, _, _, _, _, rfl, rfl, by decide, rfl, rfl, fun binds => ?_⟩
  · have encoded (channel field : Shared) (options : List (String × Shared)) {call : Call}
        (distinct : (options.map Prod.fst).Nodup)
        (fits : Method.encode.bind? ⟨[channel, field], options⟩ = some call) :
        (Step.call 0 call).Checked := by
      have given : Arguments.Distinct ⟨[channel, field], options⟩ := distinct
      exact .call 0 given fits
    simp only [heldSteps, List.forall_mem_cons]
    exact ⟨.inl (Step.checked_unit _ List.nodup_nil),
      .inl (encoded ⟨_, _⟩ ⟨_, _⟩ [] List.nodup_nil rfl), .inr ⟨_, _, rfl⟩,
      .inl (encoded ⟨_, _⟩ ⟨_, _⟩ [("extra", ⟨_, _⟩)] (List.nodup_singleton _) rfl),
      .inl (Step.checked_around _ _), .inl (Step.checked_bindAxis _ _ _ _), List.forall_mem_nil _⟩
  · have same := congrArg (Option.map Value.literal) (binds.unbound "y" rfl)
    exact absurd same (by decide +kernel)

end ChartTree
