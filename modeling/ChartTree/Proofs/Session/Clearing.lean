import ChartTree.Proofs.Chart.Rebinding

/-!
# Clearing the axes of a repeat

Taking both axes of a repeat away leaves nothing under `repeat`, and everything else about the node
as it was. A chart that has the repeat in it then has the cleared node in its place.
-/

namespace ChartTree

/-! ### Another node in the places of a node -/

namespace Chart

mutual

/-- The chart with a node in the places of all nodes of a number. -/
def withNode (id : Nat) (m : Node) : Chart → Chart
  | .node i n children child =>
    .node i (if i = id then m else n) (withNodeAll id m children) (match child with
      | none => none
      | some c => some (withNode id m c))
  | .other v => .other v
termination_by structural c => c

def withNodeAll (id : Nat) (m : Node) : List Chart → List Chart
  | [] => []
  | c :: cs => withNode id m c :: withNodeAll id m cs
termination_by structural cs => cs

end

variable {id i : Nat} {n m : Node} {cs : List Chart} {c? : Option Chart}

theorem withNodeAll_eq_map (id : Nat) (m : Node) (cs : List Chart) :
    withNodeAll id m cs = cs.map (withNode id m) := by
  induction cs with
  | nil => rfl
  | cons c cs ih => rw [withNodeAll, ih, List.map_cons]

theorem withNode_node : (node i n cs c?).withNode id m =
    .node i (if i = id then m else n) (cs.map (withNode id m)) (c?.map (withNode id m)) := by
  cases c? <;> rw [withNode, withNodeAll_eq_map] <;> rfl

theorem withNode_node_of_ne (other : i ≠ id) : (node i n cs c?).withNode id m =
    .node i n (cs.map (withNode id m)) (c?.map (withNode id m)) := by
  rw [withNode_node, if_neg other]

mutual

/-- A chart in which no node has the number stays as it is. -/
theorem withNode_of_not_mem (id : Nat) (m : Node) :
    ∀ c : Chart, id ∉ c.ids → c.withNode id m = c
  | .other _, _ => rfl
  | .node i n cs c?, absent => by
    have other : i ≠ id := fun same => absent (mem_ids_node.2 (.inl same.symm))
    have listed : withNodeAll id m cs = cs := withNodeAll_of_not_mem id m cs fun mem => by
      obtain ⟨c, hc, mem⟩ := mem_idsAll.1 mem
      exact absent (mem_ids_node.2 (.inr (.inl ⟨c, hc, mem⟩)))
    cases c? with
    | none => rw [withNode, if_neg other, listed]
    | some c =>
      have wrapped : c.withNode id m = c := withNode_of_not_mem id m c fun mem =>
        absent (mem_ids_node.2 (.inr (.inr ⟨c, rfl, mem⟩)))
      rw [withNode, if_neg other, listed, wrapped]

theorem withNodeAll_of_not_mem (id : Nat) (m : Node) :
    ∀ cs : List Chart, id ∉ idsAll cs → withNodeAll id m cs = cs
  | [], _ => rfl
  | c :: cs, absent => by
    rw [idsAll, List.mem_append, not_or] at absent
    rw [withNodeAll, withNode_of_not_mem id m c absent.1, withNodeAll_of_not_mem id m cs absent.2]

end

theorem All.withNode {P : Node → Prop} {c : Chart} (all : c.All P) (id : Nat) (hm : P m) :
    (c.withNode id m).All P := by
  induction all with
  | @node i n cs c? hn _ _ ih_children ih_child =>
    rw [withNode_node]
    refine .node ?_ (List.forall_mem_map.2 ih_children) fun d hd => ?_
    · split
      · exact hm
      · exact hn
    · obtain ⟨c, eq, rfl⟩ := Option.map_eq_some_iff.1 hd
      exact ih_child c eq

theorem kindOf_withNode {c : Chart} (same : ∀ n cs c?, c = .node id n cs c? → m.kind = n.kind) :
    (c.withNode id m).kindOf = c.kindOf := by
  cases c with
  | other v => rfl
  | node i n cs c? =>
    rw [withNode_node]
    by_cases here : i = id
    · subst here
      rw [if_pos rfl]
      exact congrArg Except.ok (same n cs c? rfl)
    · rw [if_neg here]
      rfl

end Chart

namespace Store

variable {s : Store} {id : Nat} {n m : Node}

theorem node?_set_eq (found : s.node? id = some n) (i : Nat) :
    (s.set id m).node? i = if i = id then some m else s.node? i := by
  rw [node?, set, Array.getElem?_setIfInBounds]
  by_cases here : id = i
  · subst here
    rw [if_pos rfl, if_pos rfl]
    exact if_pos (node?_lt found)
  · rw [if_neg here, if_neg (Ne.symm here)]
    rfl

theorem set_set (s : Store) (id : Nat) (n m : Node) : (s.set id n).set id m = s.set id m := by
  simp [set]

/-- Where a node takes the place of one with the same inner nodes, it does so in every chart. -/
theorem unfold_set (found : s.node? id = some n) (children : m.children = n.children)
    (child : m.child = n.child) {fuel i : Nat} {c : Chart} (unfolded : s.unfold fuel i = some c) :
    (s.set id m).unfold fuel i = some (c.withNode id m) := by
  induction fuel generalizing i c with
  | zero => cases unfolded
  | succ fuel ih =>
    obtain ⟨l, cs, c?, here, listed, wrapped, rfl⟩ := unfold_eq_some_iff.1 unfolded
    have inner (v : Value) (d : Chart) (at_v : s.chartAt? fuel v = some d) :
        (s.set id m).chartAt? fuel v = some (d.withNode id m) := by
      rw [chartAt?] at at_v ⊢
      split at at_v
      · exact ih at_v
      · cases at_v
        rfl
    have places : ∃ k, (s.set id m).node? i = some k ∧ k.children = l.children ∧
        k.child = l.child ∧ k = if i = id then m else l := by
      rw [node?_set_eq found]
      by_cases same : i = id
      · subst same
        cases found.symm.trans here
        exact ⟨m, if_pos rfl, children, child, (if_pos rfl).symm⟩
      · exact ⟨l, (if_neg same).trans here, rfl, rfl, (if_neg same).symm⟩
    obtain ⟨k, there, same_children, same_child, which⟩ := places
    refine unfold_eq_some_iff.2 ⟨k, cs.map (Chart.withNode id m), c?.map (Chart.withNode id m),
      there, ?_, ?_, ?_⟩
    · rw [same_children]
      exact mapM_map listed fun v d _ => inner v d
    · rw [same_child]
      refine childAt?_eq_some_iff.2 ((childAt?_eq_some_iff.1 wrapped).imp ?_ ?_)
      · rintro ⟨null, rfl⟩
        exact ⟨null, rfl⟩
      · rintro ⟨given, d, at_child, rfl⟩
        exact ⟨given, _, inner _ d at_child, rfl⟩
    · rw [Chart.withNode_node, which]

/-- The node of a visited place is the node of its number in the store. -/
theorem node?_of_mem_visited {fuel i : Nat} {c : Chart} (unfolded : s.unfold fuel i = some c)
    {cs : List Chart} {c? : Option Chart} (mem : .node id n cs c? ∈ c.visited) :
    s.node? id = some n := by
  induction fuel generalizing i c with
  | zero => cases unfolded
  | succ fuel ih =>
    obtain ⟨l, ds, d?, here, listed, wrapped, rfl⟩ := unfold_eq_some_iff.1 unfolded
    have inner {v : Value} {d : Chart} (at_v : s.chartAt? fuel v = some d)
        (below : .node id n cs c? ∈ d.visited) : s.node? id = some n := by
      rw [chartAt?] at at_v
      split at at_v
      · exact ih at_v below
      · cases at_v
        cases below
    rcases Chart.visited_cases mem with top | ⟨_, d, rfl, below⟩ | ⟨_, d, hd, below⟩
    · cases top
      exact here
    · obtain ⟨_, none⟩ | ⟨_, d', at_child, eq⟩ := childAt?_eq_some_iff.1 wrapped
      · cases none
      · cases eq
        exact inner at_child below
    · obtain ⟨v, _, at_v⟩ := exists_of_mem_mapM listed hd
      exact inner at_v below

end Store

/-! ### Cleared nodes -/

/-- A node is another one with nothing repeated along its axes. -/
structure Node.ClearedTo (n m : Node) : Prop where
  kind : m.kind = .repeated
  children : m.children = n.children
  child : m.child = n.child
  axes : m.axes = []
  ownEntries : ∀ isRoot, m.ownEntries isRoot =
    Dict.insert (n.ownEntries isRoot) (.string "repeat") (.dict [])

theorem Dict.copiedEntries_insert (occasion : Option Nat) (d : Dict) (name : String) (v : Value) :
    Value.copiedEntries occasion (insert d (.string name) v) =
      insert (Value.copiedEntries occasion d) (.string name) (Value.copied occasion v) := by
  induction d with
  | nil => rfl
  | cons e d ih =>
    obtain ⟨key, w⟩ := e
    let copy : Value × Value := (Value.copied occasion key, Value.copied occasion w)
    by_cases here : key.content = .string name
    · have same : copy.1.content = .string name := Value.content_copied_eq_string.2 here
      rw [insert_cons_of_content here]
      exact (insert_cons_of_content same).symm
    · have differ : copy.1.content ≠ .string name := mt Value.content_copied_eq_string.1 here
      rw [insert_cons_of_content_ne here, Value.copiedEntries, ih]
      exact (insert_cons_of_content_ne differ).symm

/-- A repeat without one of its axes. -/
theorem Spec.ShapedAs.clear {n : Node} {entries definitions : Dict} {bindings : List AxisBinding}
    (shaped : n.toSpec.ShapedAs entries definitions bindings) (kind : n.kind = .repeated)
    (axis : Axis) : (n.put (.axis axis) (none, none)).toSpec.ShapedAs
      (Dict.insert entries (.string "repeat")
        (.dict (AxisBinding.repeatedFields (AxisBinding.unbind bindings axis))))
      definitions (AxisBinding.unbind bindings axis) :=
  shaped.assign_axis kind (AxisBinding.erase_underAxes _ bindings axis)
    (AxisBinding.erase_underAxes _ bindings axis)
    (AxisBinding.nodup_axes_unbind shaped.distinct axis)
    fun b hb => shaped.texts b (List.mem_filter.1 hb).1

/-- Takes an axis of a repeat away. -/
def Call.clear (axis : Axis) (absent : Identity) : Call :=
  .bindAxis axis (Shared.value ⟨absent, .null⟩) (.tuple [])

def Step.clear (id : Nat) (axis : Axis) (absent : Identity) : Step :=
  .call id (.clear axis absent)

theorem Step.checked_clear (id : Nat) (axis : Axis) (absent : Identity) :
    (Step.clear id axis absent).Checked := by
  have given : Arguments.Distinct ⟨[⟨absent, .null⟩], []⟩ := List.nodup_nil
  have fits : (Method.bindAxis axis).bind? ⟨[⟨absent, .null⟩], []⟩ =
      some (.clear axis absent) := rfl
  exact .call id given fits

namespace Node.Shaped

variable {n : Node} (h : n.Shaped) (kind : n.kind = .repeated)

include h kind

theorem on_clear (axis : Axis) (absent : Identity) :
    (Call.clear axis absent).on n = n.put (.axis axis) (none, none) := by
  have verdict : (Call.clear axis absent).verdict n.kind =
      .ok ⟨.axis axis, (none, none)⟩ := by
    rw [kind]
    rfl
  rw [Call.on_eq h, verdict]

/-- A repeat is cleared once both of its axes are taken away. -/
theorem clearedTo {a b : Axis} (differ : a ≠ b) (i j : Identity) :
    n.ClearedTo ((Call.clear b j).on ((Call.clear a i).on n)) := by
  have shaped_first : (n.put (.axis a) (none, none)).Shaped := h.put ⟨kind, .inl ⟨rfl, rfl⟩⟩
  rw [h.on_clear kind, shaped_first.on_clear kind]
  obtain ⟨entries, definitions, bindings, shaped⟩ := h.spec
  have cleared := (shaped.clear kind a).clear kind b
  have none_left : AxisBinding.unbind (AxisBinding.unbind bindings a) b = [] := by
    rw [AxisBinding.unbind, List.filter_eq_nil_iff]
    intro x hx
    have other : x.axis ≠ a := by simpa using (List.mem_filter.1 hx).2
    revert differ other
    cases x.axis <;> cases a <;> cases b <;> decide
  rw [none_left, Dict.insert_insert_self] at cleared
  refine ⟨kind, rfl, rfl, axes_eq cleared kind, fun isRoot => ?_⟩
  have entries_eq : Node.entries ((n.put (.axis a) (none, none)).put (.axis b) (none, none)) =
      Dict.insert n.entries (.string "repeat") (.dict []) := by
    rw [Node.entries, Node.entries, Node.entriesOn_eq cleared.properties,
      Node.entriesOn_eq shaped.properties]
    exact Dict.copiedEntries_insert none entries "repeat" _
  rw [ownEntries_eq, ownEntries_eq, entries_eq]
  cases isRoot with
  | true => rfl
  | false => exact Dict.eraseAll_insert_of_not_mem n.entries (by decide) _

end Node.Shaped

/-! ### Cleared charts -/

namespace Session

theorem Proper.concat {s : Session} {steps more : List Step} (proper : s.Proper steps)
    (rest : (s.run steps).Proper more) : s.Proper (steps ++ more) := by
  induction steps generalizing s with
  | nil => exact rest
  | cons step steps ih => exact ⟨proper.1, ih proper.2 rest⟩

theorem step_clear {s : Session} {id : Nat} {n : Node} (found : s.store.node? id = some n)
    (shaped : n.Shaped) (axis : Axis) (absent : Identity) : (s.step (.clear id axis absent)).2 =
      { s with store := s.store.set id ((Call.clear axis absent).on n) } :=
  congrArg Prod.snd (call_eq found shaped (.clear axis absent))

/-- Where both axes of a grown repeat are taken away, its cleared node is grown and stands in its
place in every chart. -/
theorem run_clear {settings : Settings} {steps : List Step} {rid : Nat} {n : Node}
    (checked : ∀ step ∈ steps, step.Checked) (proper : (start settings).Proper steps)
    (found : ((start settings).run steps).store.node? rid = some n) (kind : n.kind = .repeated)
    {a b : Axis} (differ : a ≠ b) (i j : Identity) :
    let reached := (start settings).run steps
    ∃ m, m.Grown ∧ n.ClearedTo m ∧ ∀ id c, reached.store.chart? id = some c →
      (reached.run [.clear rid a i, .clear rid b j]).store.chart? id = some (c.withNode rid m) := by
  intro reached
  have shaped : n.Shaped := Node.Grown.shaped ⟨settings, steps, rid, checked, proper, found⟩
  have cleared := shaped.clearedTo kind differ i j
  -- The second call finds what the first one left.
  have after_first : (reached.store.set rid ((Call.clear a i).on n)).node? rid =
      some ((Call.clear a i).on n) := by
    rw [Store.node?_set_eq found, if_pos rfl]
  have final : (reached.run [.clear rid a i, .clear rid b j]).store =
      reached.store.set rid ((Call.clear b j).on ((Call.clear a i).on n)) := by
    show ((reached.step (.clear rid a i)).2.step (.clear rid b j)).2.store = _
    rw [step_clear found shaped, step_clear after_first ((Call.clear a i).shaped_on shaped)]
    exact Store.set_set ..
  generalize (Call.clear b j).on ((Call.clear a i).on n) = m at cleared final
  refine ⟨m, ⟨settings, steps ++ [.clear rid a i, .clear rid b j], rid, ?_, ?_, ?_⟩, cleared,
    fun id c here => ?_⟩
  · refine List.forall_mem_append.2 ⟨checked, ?_⟩
    simp only [List.forall_mem_cons]
    exact ⟨Step.checked_clear .., Step.checked_clear .., List.forall_mem_nil _⟩
  · exact proper.concat ⟨.call rid (Store.none_stand _), .call rid (Store.none_stand _), trivial⟩
  · rw [run_append, final, Store.node?_set_eq found, if_pos rfl]
  · have size : (reached.store.set rid m).size = reached.store.size := Array.size_setIfInBounds
    rw [final, Store.chart?, size]
    exact Store.unfold_set found cleared.children cleared.child here

end Session

end ChartTree
