import ChartTree.Proofs.Session.Sound

/-!
# Copying a chart in a store

Copying takes new nodes into the store and changes none that is there. A recursive copy takes in one
node for every place of the chart, so no two places of the copy hold the same node, however often
the chart itself uses one. A plain copy takes in one node around the inner nodes of the original.
-/

namespace ChartTree

namespace Chart

/-- A chart reaches down a number of levels at most. -/
inductive Within : Nat → Chart → Prop where
  | node {levels id : Nat} {n : Node} {children : List Chart} {child : Option Chart}
      (children_within : ∀ c ∈ children, Within levels c)
      (child_within : ∀ c, child = some c → Within levels c) :
      Within (levels + 1) (.node id n children child)
  | other (levels : Nat) (v : Value) : Within levels (.other v)

/-- A chart and a copy of it: the same places, in which copies of the nodes stand, or the very same
nodes from some place on. -/
inductive Copied : Chart → Chart → Prop where
  | same (c : Chart) : Copied c c
  | node {id copy : Nat} {n m : Node} {children copies : List Chart} {child copy? : Option Chart}
      {first second : Option Nat} (spec : n.toSpec.copied first second = .ok m.toSpec)
      (length : children.length = copies.length)
      (children_copied : ∀ p ∈ children.zip copies, Copied p.1 p.2)
      (present : child.isSome = copy?.isSome)
      (child_copied : ∀ c d, child = some c → copy? = some d → Copied c d) :
      Copied (.node id n children child) (.node copy m copies copy?)
  | other {v w : Value} (copied : v.selfCopy = .ok w) : Copied (.other v) (.other w)

/-- Every node of a chart has a property, and so has everything in the place of a node that is
none. -/
inductive Each (P : Node → Prop) (Q : Value → Prop) : Chart → Prop where
  | node {id : Nat} {n : Node} {children : List Chart} {child : Option Chart} (node : P n)
      (children_each : ∀ c ∈ children, Each P Q c) (child_each : ∀ c, child = some c → Each P Q c) :
      Each P Q (.node id n children child)
  | other {v : Value} (other : Q v) : Each P Q (.other v)

end Chart

theorem Value.selfCopy_ok {v w : Value} (h : v.selfCopy = .ok w) :
    w.node? = none ∧ w.isNull = false := by
  obtain ⟨id, content⟩ := v
  cases content <;> cases h <;> exact ⟨rfl, rfl⟩

namespace Store

variable {s t u : Store}

/-! ### Stores that go on from another one -/

/-- A store goes on from another one: all nodes of that are in it as they were. -/
structure Continues (s t : Store) : Prop where
  size : s.size ≤ t.size
  occasions : s.occasions ≤ t.occasions
  nodes : ∀ id, id < s.size → t.node? id = s.node? id

theorem Continues.refl (s : Store) : s.Continues s :=
  ⟨Nat.le_refl _, Nat.le_refl _, fun _ _ => rfl⟩

theorem Continues.trans (h : s.Continues t) (h' : t.Continues u) : s.Continues u where
  size := Nat.le_trans h.size h'.size
  occasions := Nat.le_trans h.occasions h'.occasions
  nodes id lt := (h'.nodes id (Nat.lt_of_lt_of_le lt h.size)).trans (h.nodes id lt)

theorem size_add (s : Store) (n : Node) : (s.add n).2.size = s.size + 1 :=
  Array.size_push n

theorem node?_add_self (s : Store) (n : Node) : (s.add n).2.node? s.size = some n := by
  rw [node?, add, Array.getElem?_push]
  exact if_pos rfl

theorem continues_add (s : Store) (n : Node) : s.Continues (s.add n).2 where
  size := by rw [size_add]; omega
  occasions := Nat.le_refl _
  nodes id lt := by
    rw [node?, add, Array.getElem?_push]
    exact if_neg (Nat.ne_of_lt lt)

theorem continues_later (s : Store) : s.Continues { s with occasions := s.occasions + 2 } where
  size := Nat.le_refl _
  occasions := Nat.le_add_right _ 2
  nodes _ _ := rfl

/-- What a store unfolds to stays the same in every store that goes on from it. -/
theorem Continues.unfold (h : s.Continues t) {fuel more id : Nat} {c : Chart} (le : fuel ≤ more)
    (unfolded : s.unfold fuel id = some c) : t.unfold more id = some c := by
  refine unfold_of_agree unfolded le fun i mem => h.nodes i ?_
  obtain ⟨n, found⟩ := node?_of_mem_ids unfolded i mem
  exact (Array.getElem?_eq_some_iff.1 found).1

theorem Continues.chart? (h : s.Continues t) {id : Nat} {c : Chart}
    (unfolded : s.chart? id = some c) : t.chart? id = some c :=
  h.unfold h.size unfolded

theorem unfold_within {fuel id : Nat} {c : Chart} (unfolded : s.unfold fuel id = some c) :
    c.Within fuel := by
  induction fuel generalizing id c with
  | zero => cases unfolded
  | succ fuel ih =>
    obtain ⟨n, cs, c?, found, listed, wrapped, rfl⟩ := unfold_eq_some_iff.1 unfolded
    have inner {v : Value} {d : Chart} (here : s.chartAt? fuel v = some d) : d.Within fuel :=
      chartAt?_of_unfold (.other fuel) (fun _ _ here => ih here) here
    refine .node (fun d hd => ?_) fun d hd => ?_
    · obtain ⟨v, _, here⟩ := exists_of_mem_mapM listed hd
      exact inner here
    · obtain ⟨_, none⟩ | ⟨_, d', here, eq⟩ := childAt?_eq_some_iff.1 wrapped
      · cases none.symm.trans hd
      · cases eq.symm.trans hd
        exact inner here

/-- Every node of a store has a property. -/
def Every (P : Node → Prop) (s : Store) : Prop :=
  ∀ id n, s.node? id = some n → P n

namespace Every

variable {P : Node → Prop}

theorem empty : Store.empty.Every P := by
  intro id n found
  simp [node?, Store.empty] at found

theorem set (h : s.Every P) (id : Nat) {n : Node} (hn : P n) : (s.set id n).Every P := by
  intro other m found
  rcases node?_set found with ⟨rfl, _⟩ | found
  · exact hn
  · exact h other m found

/-- A store that goes on from another one has other nodes besides. -/
theorem continues (h : s.Every P) (later : s.Continues t)
    (fresh : ∀ id n, s.size ≤ id → t.node? id = some n → P n) : t.Every P := by
  intro id n found
  by_cases lt : id < s.size
  · exact h id n ((later.nodes id lt).symm.trans found)
  · exact fresh id n (Nat.le_of_not_lt lt) found

theorem add (h : s.Every P) {n : Node} (hn : P n) : (s.add n).2.Every P := by
  refine h.continues (continues_add s n) fun id m le found => ?_
  rw [node?, Store.add, Array.getElem?_push] at found
  split at found
  · cases found
    exact hn
  · exact h id m found

end Every

theorem unfold_each {P : Node → Prop} {Q : Value → Prop} {fuel id : Nat} {c : Chart}
    (unfolded : s.unfold fuel id = some c) (node : ∀ i ∈ c.ids, ∀ n, s.node? i = some n → P n)
    (children : ∀ n, P n → ∀ v ∈ itemsIn n.children, v.node? = none → Q v)
    (child : ∀ n, P n → n.child.isNull = false → n.child.node? = none → Q n.child) :
    c.Each P Q := by
  induction fuel generalizing id c with
  | zero => cases unfolded
  | succ fuel ih =>
    obtain ⟨n, cs, c?, found, listed, wrapped, rfl⟩ := unfold_eq_some_iff.1 unfolded
    have here := node id (Chart.mem_ids_node.2 (.inl rfl)) n found
    have inner {v : Value} {d : Chart} (below : ∀ i ∈ d.ids, i ∈ (Chart.node id n cs c?).ids)
        (there : s.chartAt? fuel v = some d) (other : v.node? = none → Q v) : d.Each P Q := by
      rw [chartAt?] at there
      split at there
      · exact ih there fun i mem => node i (below i mem)
      · cases there
        exact .other (other ‹_›)
    refine .node here (fun d hd => ?_) fun d hd => ?_
    · obtain ⟨v, mem, there⟩ := exists_of_mem_mapM listed hd
      exact inner (fun i hi => Chart.mem_ids_node.2 (.inr (.inl ⟨d, hd, hi⟩))) there
        (children n here v mem)
    · obtain ⟨_, none⟩ | ⟨present, d', there, eq⟩ := childAt?_eq_some_iff.1 wrapped
      · cases none.symm.trans hd
      · cases eq.symm.trans hd
        exact inner (fun i hi => Chart.mem_ids_node.2 (.inr (.inr ⟨d, eq, hi⟩))) there
          (child n here present)

/-! ### What copying leaves in the store -/

theorem continues_copySpec {spec copy : Spec} (h : s.copySpec spec = .ok (copy, t)) :
    s.Continues t := by
  obtain ⟨_, rfl⟩ := copySpec_ok h
  exact continues_later s

mutual

theorem copyChart_continues : ∀ (c : Chart) {s t : Store} {v : Value},
    copyChart c s = .ok (v, t) → s.Continues t
  | .node id n cs none, s, t, v, h => by
    obtain ⟨spec, q, vs, r, w, u, copySpec, charts, child, rfl, rfl⟩ := copyChart_node h
    cases child
    exact ((continues_copySpec copySpec).trans (copyCharts_continues cs charts)).trans
      (continues_add _ _)
  | .node id n cs (some c), s, t, v, h => by
    obtain ⟨spec, q, vs, r, w, u, copySpec, charts, child, rfl, rfl⟩ := copyChart_node h
    have listed := (continues_copySpec copySpec).trans (copyCharts_continues cs charts)
    exact (listed.trans (copyChart_continues c child)).trans (continues_add _ _)
  | .other v, s, t, w, h => by
    obtain ⟨_, rfl⟩ := copyChart_other h
    exact .refl _
termination_by structural c => c

theorem copyCharts_continues : ∀ (cs : List Chart) {s t : Store} {vs : List Value},
    copyCharts cs s = .ok (vs, t) → s.Continues t
  | [], s, t, vs, h => by
    rw [copyCharts] at h
    cases h
    exact .refl _
  | c :: cs, s, t, vs, h => by
    obtain ⟨v, q, rest, first, others, rfl⟩ := copyCharts_cons h
    exact (copyChart_continues c first).trans (copyCharts_continues cs others)
termination_by structural cs => cs

end

theorem copyChild_continues (c? : Option Chart) {w : Value} (h : copyChild c? s = .ok (w, t)) :
    s.Continues t := by
  cases c? with
  | none =>
    cases h
    exact .refl _
  | some c => exact copyChart_continues c h

/-- What a value comes to that stands for the copy of a chart: a chart of new nodes, a different
one in every place, that is there to stay. -/
structure CopyOf (s t : Store) (levels : Nat) (c : Chart) (v : Value) (d : Chart) : Prop where
  copied : c.Copied d
  fresh : ∀ i ∈ d.ids, s.size ≤ i ∧ i < t.size
  distinct : d.ids.Nodup
  places : d.ids.length = c.ids.length
  present : v.isNull = false
  stands : ∀ u, t.Continues u → u.chartAt? levels v = some d

/-- The same for a list of charts, no two of which share a node. -/
structure CopiesOf (s t : Store) (levels : Nat) (cs : List Chart) (vs : List Value)
    (ds : List Chart) : Prop where
  length : cs.length = ds.length
  copied : ∀ p ∈ cs.zip ds, p.1.Copied p.2
  fresh : ∀ i ∈ Chart.idsAll ds, s.size ≤ i ∧ i < t.size
  distinct : (Chart.idsAll ds).Nodup
  places : (Chart.idsAll ds).length = (Chart.idsAll cs).length
  stands : ∀ u, t.Continues u → vs.mapM (u.chartAt? levels) = some ds

theorem copyCharts_copies {levels : Nat} {cs : List Chart}
    (each : ∀ c ∈ cs, ∀ {s t : Store} {v : Value}, copyChart c s = .ok (v, t) →
      ∃ d, CopyOf s t levels c v d) {vs : List Value} (h : copyCharts cs s = .ok (vs, t)) :
    ∃ ds, CopiesOf s t levels cs vs ds := by
  induction cs generalizing s vs with
  | nil =>
    rw [copyCharts] at h
    cases h
    exact ⟨[], rfl, fun p hp => (List.not_mem_nil hp).elim,
      fun i hi => (List.not_mem_nil hi).elim, List.nodup_nil, rfl, fun u _ => rfl⟩
  | cons c cs ih =>
    obtain ⟨v, q, rest, first, others, rfl⟩ := copyCharts_cons h
    obtain ⟨d, copy⟩ := each c (List.mem_cons_self ..) first
    obtain ⟨ds, copies⟩ := ih (fun c hc => each c (List.mem_cons_of_mem _ hc)) others
    have before := (copyChart_continues c first).size
    have continued := copyCharts_continues cs others
    have after := continued.size
    refine ⟨d :: ds, congrArg (· + 1) copies.length, ?_, ?_, ?_, ?_, fun u later => ?_⟩
    · rw [List.zip_cons_cons]
      exact List.forall_mem_cons.2 ⟨copy.copied, copies.copied⟩
    · intro i hi
      rw [Chart.idsAll, List.mem_append] at hi
      rcases hi with hi | hi
      · have := copy.fresh i hi
        omega
      · have := copies.fresh i hi
        omega
    · -- The nodes of the first copy are in the store before those of the others.
      refine List.nodup_append.2 ⟨copy.distinct, copies.distinct, fun i hi j hj => ?_⟩
      have first := copy.fresh i hi
      have later := copies.fresh j hj
      omega
    · rw [Chart.idsAll, Chart.idsAll, List.length_append, List.length_append, copy.places,
        copies.places]
    · rw [List.mapM_cons, copy.stands u (continued.trans later), copies.stands u later]
      rfl

theorem copyChart_copies {levels : Nat} {c : Chart} (within : c.Within levels) {v : Value}
    (h : copyChart c s = .ok (v, t)) : ∃ d, CopyOf s t levels c v d := by
  induction within generalizing s t v with
  | other levels other =>
    obtain ⟨copied, rfl⟩ := copyChart_other h
    obtain ⟨none, present⟩ := Value.selfCopy_ok copied
    refine ⟨.other v, .other copied, fun i hi => (List.not_mem_nil hi).elim, List.nodup_nil, rfl,
      present, fun u _ => ?_⟩
    rw [chartAt?, none]
  | @node levels id n cs c? _ _ ih_children ih_child =>
    obtain ⟨spec, q, vs, r, w, u, copySpec, charts, child, rfl, rfl⟩ := copyChart_node h
    obtain ⟨ds, copies⟩ := copyCharts_copies (fun c hc _ _ _ => ih_children c hc) charts
    have bumped := (continues_copySpec copySpec).size
    have listed := (copyCharts_continues cs charts).size
    have added := continues_add u ⟨spec, .list vs, w⟩
    have last := size_add u ⟨spec, .list vs, w⟩
    have node : ∀ x, (u.add ⟨spec, .list vs, w⟩).2.Continues x →
        x.node? u.size = some ⟨spec, .list vs, w⟩ := fun x later =>
      (later.nodes u.size (by omega)).trans (node?_add_self u _)
    cases c? with
    | none =>
      cases child
      refine ⟨.node r.size ⟨spec, .list vs, .null⟩ ds none,
        .node (copySpec_ok copySpec).1 copies.length copies.copied rfl
          (by rintro _ _ ⟨⟩), fun i hi => ?_, ?_, ?_, rfl, fun x later => ?_⟩
      · rcases Chart.mem_ids_node.1 hi with rfl | ⟨d, hd, hi⟩ | ⟨d, hd, _⟩
        · omega
        · have := copies.fresh i (Chart.mem_idsAll.2 ⟨d, hd, hi⟩)
          omega
        · cases hd
      · rw [Chart.ids, List.append_nil]
        exact List.nodup_cons.2 ⟨fun mem => Nat.lt_irrefl _ (copies.fresh _ mem).2, copies.distinct⟩
      · simp only [Chart.ids, List.length_cons, List.append_nil, copies.places]
      · exact unfold_eq_some_iff.2 ⟨_, ds, none, node x later, copies.stands x (added.trans later),
          childAt?_eq_some_iff.2 (.inl ⟨rfl, rfl⟩), rfl⟩
    | some c =>
      obtain ⟨d, copy⟩ := ih_child c rfl child
      have wrapped := copyChart_continues c child
      have size := wrapped.size
      refine ⟨.node u.size ⟨spec, .list vs, w⟩ ds (some d),
        .node (copySpec_ok copySpec).1 copies.length copies.copied rfl fun c d hc hd => ?_,
        fun i hi => ?_, ?_, ?_, rfl, fun x later => ?_⟩
      · cases hc
        cases hd
        exact copy.copied
      · rcases Chart.mem_ids_node.1 hi with rfl | ⟨d, hd, hi⟩ | ⟨d, hd, hi⟩
        · omega
        · have := copies.fresh i (Chart.mem_idsAll.2 ⟨d, hd, hi⟩)
          omega
        · cases hd
          have := copy.fresh i hi
          omega
      · -- The nodes of the listed charts come first, then those of the wrapped one, then the node.
        rw [Chart.ids, List.nodup_cons, List.mem_append, not_or, List.nodup_append]
        refine ⟨⟨fun mem => ?_, fun mem => Nat.lt_irrefl _ (copy.fresh _ mem).2⟩,
          copies.distinct, copy.distinct, fun i hi j hj => ?_⟩
        · have := copies.fresh _ mem
          omega
        · have first := copies.fresh i hi
          have second := copy.fresh j hj
          omega
      · simp only [Chart.ids, List.length_cons, List.length_append, copies.places, copy.places]
      · exact unfold_eq_some_iff.2 ⟨_, ds, some d, node x later,
          copies.stands x ((wrapped.trans added).trans later),
          childAt?_eq_some_iff.2 (.inr ⟨copy.present, d, copy.stands x (added.trans later), rfl⟩),
          rfl⟩

/-! ### The nodes that copying takes in -/

section Takes

variable {P P' : Node → Prop} {Q R : Value → Prop} {low high : Nat}

/-- What copying takes in are copies of the nodes of the chart around one another, each made on two
occasions of its own. -/
structure Takes (P P' : Node → Prop) (Q R : Value → Prop) (low high : Nat) : Prop where
  node : ∀ {n : Node} {occasion : Nat} {spec : Spec} {children : List Value} {child : Value}, P n →
    low ≤ occasion → occasion + 2 ≤ high →
      n.toSpec.copied (some occasion) (some (occasion + 1)) = .ok spec → (∀ v ∈ children, R v) →
        (child = .null ∨ R child) → P' ⟨spec, .list children, child⟩
  ref : ∀ m : NodeRef, R (.ofNode m)
  other : ∀ {v w : Value}, Q v → v.selfCopy = .ok w → R w

theorem node?_add (s : Store) (n : Node) {id : Nat} {m : Node}
    (found : (s.add n).2.node? id = some m) : id = s.size ∧ m = n ∨ s.node? id = some m := by
  rw [node?, add, Array.getElem?_push] at found
  split at found
  · exact .inl ⟨‹_›, (Option.some.inj found).symm⟩
  · exact .inr found

theorem copyCharts_takes {cs : List Chart}
    (each : ∀ c ∈ cs, ∀ {s t : Store} {v : Value}, low ≤ s.occasions → t.occasions ≤ high →
      copyChart c s = .ok (v, t) → R v ∧ ∀ id m, s.size ≤ id → t.node? id = some m → P' m)
    {vs : List Value} (above : low ≤ s.occasions) (below : t.occasions ≤ high)
    (h : copyCharts cs s = .ok (vs, t)) :
    (∀ v ∈ vs, R v) ∧ ∀ id m, s.size ≤ id → t.node? id = some m → P' m := by
  induction cs generalizing s vs with
  | nil =>
    rw [copyCharts] at h
    cases h
    exact ⟨fun v hv => (List.not_mem_nil hv).elim, fun id m le found =>
      absurd (node?_lt found) (Nat.not_lt.2 le)⟩
  | cons c cs ih =>
    obtain ⟨v, q, rest, first, others, rfl⟩ := copyCharts_cons h
    have before := copyChart_continues c first
    have after := copyCharts_continues cs others
    obtain ⟨hv, fresh⟩ := each c (List.mem_cons_self ..) above
      (Nat.le_trans after.occasions below) first
    obtain ⟨hvs, fresh'⟩ := ih (fun c hc => each c (List.mem_cons_of_mem _ hc))
      (Nat.le_trans above before.occasions) others
    refine ⟨List.forall_mem_cons.2 ⟨hv, hvs⟩, fun id m le found => ?_⟩
    by_cases lt : id < q.size
    · exact fresh id m le ((after.nodes id lt).symm.trans found)
    · exact fresh' id m (Nat.le_of_not_lt lt) found

/-- Copying a chart takes in nothing else. -/
theorem copyChart_takes (takes : Takes P P' Q R low high) {c : Chart} (each : c.Each P Q)
    {v : Value} (above : low ≤ s.occasions) (below : t.occasions ≤ high)
    (h : copyChart c s = .ok (v, t)) :
    R v ∧ ∀ id m, s.size ≤ id → t.node? id = some m → P' m := by
  induction each generalizing s t v with
  | other other =>
    obtain ⟨copied, rfl⟩ := copyChart_other h
    exact ⟨takes.other other copied, fun id m le found =>
      absurd (node?_lt found) (Nat.not_lt.2 le)⟩
  | @node id n cs c? hn _ _ ih_children ih_child =>
    obtain ⟨spec, q, vs, r, w, u, copySpec, charts, child, rfl, rfl⟩ := copyChart_node h
    obtain ⟨copied, rfl⟩ := copySpec_ok copySpec
    have listed := copyCharts_continues cs charts
    have wrapped := copyChild_continues c? child
    have occasions := listed.occasions
    have later := wrapped.occasions
    simp only [Store.add] at occasions later below
    obtain ⟨hvs, fresh⟩ := copyCharts_takes (fun c hc _ _ _ => ih_children c hc)
      (Nat.le_trans above (Nat.le_add_right _ 2)) (Nat.le_trans later below) charts
    obtain ⟨hw, fresh'⟩ : (w = .null ∨ R w) ∧
        ∀ id m, r.size ≤ id → u.node? id = some m → P' m := by
      cases c? with
      | none =>
        cases child
        exact ⟨.inl rfl, fun id m le found => absurd (node?_lt found) (Nat.not_lt.2 le)⟩
      | some c =>
        obtain ⟨hw, fresh'⟩ := ih_child c rfl (by omega) below child
        exact ⟨.inr hw, fresh'⟩
    refine ⟨takes.ref _, fun id m le found => ?_⟩
    rcases node?_add u _ found with ⟨rfl, rfl⟩ | found
    · exact takes.node hn above (by omega) copied hvs hw
    · by_cases lt : id < r.size
      · exact fresh id m le ((wrapped.nodes id lt).symm.trans found)
      · exact fresh' id m (Nat.le_of_not_lt lt) found

end Takes

/-! ### Copies of regular charts -/

theorem copyCharts_ok {cs : List Chart}
    (each : ∀ c ∈ cs, ∀ s : Store, ∃ v t, copyChart c s = .ok (v, t)) (s : Store) :
    ∃ vs t, copyCharts cs s = .ok (vs, t) := by
  induction cs generalizing s with
  | nil => exact ⟨[], s, by rw [copyCharts]; rfl⟩
  | cons c cs ih =>
    obtain ⟨v, q, first⟩ := each c (List.mem_cons_self ..) s
    obtain ⟨vs, t, rest⟩ := ih (fun c hc => each c (List.mem_cons_of_mem _ hc)) q
    refine ⟨v :: vs, t, ?_⟩
    rw [copyCharts]
    simp only [first, rest, bind, Except.bind]
    rfl

theorem copyChart_ok {c : Chart} (regular : c.All Node.Regular) (s : Store) :
    ∃ v t, copyChart c s = .ok (v, t) := by
  induction regular generalizing s with
  | @node id n cs c? node _ _ ih_children ih_child =>
    obtain ⟨spec, copied, _⟩ := node.spec.copied (some s.occasions) (some (s.occasions + 1))
    obtain ⟨nodes, items⟩ := itemsOf_children node
    obtain ⟨vs, t, charts⟩ := copyCharts_ok ih_children { s with occasions := s.occasions + 2 }
    have copySpec : s.copySpec n.toSpec =
        .ok (spec, { s with occasions := s.occasions + 2 }) := by
      rw [Store.copySpec, copied]
      rfl
    obtain ⟨w, u, child⟩ : ∃ w u, copyChild c? t = .ok (w, u) := by
      cases c? with
      | none => exact ⟨.null, t, rfl⟩
      | some c => exact ih_child c rfl t
    exact ⟨_, _, copyChart_node_of copySpec items charts child⟩

theorem copyNode_ok {n : Node} (regular : n.Regular) (s : Store) :
    ∃ r, s.copyNode n = .ok r := by
  obtain ⟨spec, copied, _⟩ := regular.spec.copied (some s.occasions) (some (s.occasions + 1))
  obtain ⟨nodes, items⟩ := itemsOf_children regular
  rw [copyNode, copySpec, copied, items]
  exact ⟨_, rfl⟩

end Store

/-! ### Copies in a session -/

namespace Session

variable {s : Store} {id : Nat} {c : Chart} {r : Option NodeRef × Store}

/-- A recursive copy of a chart stands in new nodes, one for each of its places. -/
theorem copied_recursive (found : s.chart? id = some c) (done : copied s id true = .ok r) :
    s.Continues r.2 ∧ ∃ m d, r.1 = some m ∧ r.2.chart? m.id = some d ∧ c.Copied d ∧
      (∀ i ∈ d.ids, s.size ≤ i) ∧ d.ids.Nodup ∧ d.ids.length = c.ids.length := by
  obtain ⟨answer, t⟩ := r
  cases copying_of_copied done with
  | noChart missing => cases missing.symm.trans found
  | chart found' copy =>
    cases found.symm.trans found'
    have continued := Store.copyChart_continues c copy
    obtain ⟨d, of⟩ := Store.copyChart_copies (Store.unfold_within found) copy
    obtain ⟨n, cs, c?, _, rfl⟩ := Store.unfold_top found
    obtain ⟨spec, _, _, _, _, u, _, _, _, rfl, _⟩ := Store.copyChart_node copy
    have stands : t.unfold s.size u.size = some d := of.stands t (.refl t)
    exact ⟨continued, ⟨u.size, spec.kind⟩, d, rfl, Store.unfold_le continued.size stands,
      of.copied, fun i hi => (of.fresh i hi).1, of.distinct, of.places⟩

/-- A plain copy of a node is one new node around the same inner nodes, in a list of its own. -/
theorem copied_plain {n : Node} (found : s.node? id = some n) (done : copied s id false = .ok r) :
    ∃ spec items, n.toSpec.copied (some s.occasions) (some (s.occasions + 1)) = .ok spec ∧
      n.children.itemsOf = .ok items ∧ r.1 = some ⟨s.size, spec.kind⟩ ∧
        r.2 = (Store.add { s with occasions := s.occasions + 2 }
          ⟨spec, .list items, n.child⟩).2 := by
  obtain ⟨answer, t⟩ := r
  cases copying_of_copied done with
  | noNode missing => cases missing.symm.trans found
  | node found' copy =>
    cases found.symm.trans found'
    obtain ⟨spec, q, items, copySpec, given, rfl, rfl⟩ := Store.copyNode_eq_ok copy
    obtain ⟨made, rfl⟩ := Store.copySpec_ok copySpec
    exact ⟨spec, items, made, given, rfl, rfl⟩

/-- Copying leaves a store with nodes of one property only, if the property passes from nodes to
copies of what they hold. -/
theorem copied_every {P : Node → Prop} (h : s.Every P)
    (copies : ∀ {n : Node} {first second : Option Nat} {spec : Spec} {children child : Value},
      P n → n.toSpec.copied first second = .ok spec → P ⟨spec, children, child⟩)
    {recursive : Bool} (done : copied s id recursive = .ok r) : r.2.Every P := by
  obtain ⟨answer, t⟩ := r
  cases copying_of_copied done with
  | noChart | noNode => exact h
  | @chart c v _ found copy =>
    have takes : Store.Takes P P (fun _ => True) (fun _ => True) s.occasions t.occasions :=
      ⟨fun held _ _ copy _ _ => copies held copy, fun _ => trivial, fun _ _ => trivial⟩
    have each : c.Each P fun _ => True :=
      Store.unfold_each found (fun i _ n => h i n) (fun _ _ _ _ _ => trivial)
        fun _ _ _ _ => trivial
    exact h.continues (Store.copyChart_continues c copy)
      (Store.copyChart_takes takes each (Nat.le_refl _) (Nat.le_refl _) copy).2
  | node found _ =>
    obtain ⟨spec, items, copy, _, _, store⟩ := copied_plain found done
    rw [store]
    exact Store.Every.add (s := { s with occasions := s.occasions + 2 }) h
      (copies (h id _ found) copy)

/-- A plain copy of a chart has the very charts of the original below it. -/
theorem copied_plain_chart (found : s.chart? id = some c) (done : copied s id false = .ok r) :
    s.Continues r.2 ∧ ∃ m d, r.1 = some m ∧ r.2.chart? m.id = some d ∧ c.Copied d ∧
      d.ids = s.size :: c.ids.tail := by
  cases size : s.size with
  | zero =>
    rw [Store.chart?, size] at found
    cases found
  | succ fuel =>
    rw [Store.chart?, size] at found
    obtain ⟨n, cs, c?, node, listed, wrapped, rfl⟩ := Store.unfold_eq_some_iff.1 found
    obtain ⟨spec, items, copied, given, made, store⟩ := copied_plain node done
    let q : Store := { s with occasions := s.occasions + 2 }
    let copy : Node := ⟨spec, .list items, n.child⟩
    have continued : s.Continues (q.add copy).2 :=
      (Store.continues_later s).trans (Store.continues_add q copy)
    have same : Store.itemsIn copy.children = Store.itemsIn n.children := by
      rw [Store.itemsIn, Store.itemsIn, given]
      rfl
    have inner {v : Value} {d : Chart} (here : s.chartAt? fuel v = some d) :
        (q.add copy).2.chartAt? s.size v = some d := by
      rw [Store.chartAt?] at here ⊢
      split at here
      · exact continued.unfold (by omega) here
      · exact here
    rw [made, store]
    have places : (Chart.node s.size copy cs c?).ids =
        (fuel + 1) :: (Chart.node id n cs c?).ids.tail := by
      rw [Chart.ids_node, Chart.ids_node, List.tail_cons, size]
    refine ⟨continued, _, .node s.size copy cs c?, rfl, ?_, .node copied rfl (fun p hp => ?_) rfl
      fun c d hc hd => ?_, places⟩
    · rw [Store.chart?, Store.size_add]
      refine Store.unfold_eq_some_iff.2 ⟨copy, cs, c?, Store.node?_add_self q copy, ?_, ?_, rfl⟩
      · rw [same]
        exact Store.mapM_imp listed fun v d _ here => inner here
      · refine Store.childAt?_eq_some_iff.2 ((Store.childAt?_eq_some_iff.1 wrapped).imp_right ?_)
        rintro ⟨present, d, here, rfl⟩
        exact ⟨present, d, inner here, rfl⟩
    · have eq : p.1 = p.2 := by
        obtain ⟨i, hi, rfl⟩ := List.getElem_of_mem hp
        simp only [List.getElem_zip]
      exact eq ▸ .same p.1
    · cases hc.symm.trans hd
      exact .same c

end Session

end ChartTree
