import ChartTree.Session

/-!
# Unfolding a store

The chart below a node depends on the nodes in it and on nothing else of the store: it stays the
same in every store that agrees on them, and with every greater number of levels.
-/

namespace ChartTree

namespace Chart

mutual

/-- The numbers of the nodes of a chart, one for each place, each before those below it. -/
def ids : Chart → List Nat
  | .node id _ children child => id :: (idsAll children ++ match child with
    | none => []
    | some c => ids c)
  | .other _ => []
termination_by structural c => c

/-- The numbers of the nodes in a list of charts. -/
def idsAll : List Chart → List Nat
  | [] => []
  | c :: cs => ids c ++ idsAll cs
termination_by structural cs => cs

end

theorem mem_idsAll {cs : List Chart} {i : Nat} : i ∈ idsAll cs ↔ ∃ c ∈ cs, i ∈ c.ids := by
  induction cs with
  | nil => simp [idsAll]
  | cons c cs ih => simp [idsAll, ih]

theorem mem_ids_node {id : Nat} {n : Node} {cs : List Chart} {c? : Option Chart} {i : Nat} :
    i ∈ (node id n cs c?).ids ↔
      i = id ∨ (∃ c ∈ cs, i ∈ c.ids) ∨ ∃ c, c? = some c ∧ i ∈ c.ids := by
  cases c? <;> rw [ids, List.mem_cons, List.mem_append, mem_idsAll] <;> simp

theorem ids_node (id : Nat) (n : Node) (cs : List Chart) (c? : Option Chart) :
    (node id n cs c?).ids = id :: (idsAll cs ++ idsAll c?.toList) := by
  cases c? with
  | none => rw [ids]; rfl
  | some c => rw [ids, Option.toList_some, idsAll, idsAll, List.append_nil]

theorem length_ids_le {cs : List Chart} {c : Chart} (mem : c ∈ cs) :
    c.ids.length ≤ (idsAll cs).length := by
  induction cs with
  | nil => cases mem
  | cons d cs ih =>
    rw [idsAll, List.length_append]
    rcases List.mem_cons.1 mem with rfl | mem
    · omega
    · have := ih mem
      omega

end Chart

namespace Store

variable {s t : Store}

/-! ### Lists of places -/

theorem mapM_map {α β γ : Type} {f : α → Option β} {g : α → Option γ} {h : β → γ} {xs : List α}
    {ys : List β} (eq : xs.mapM f = some ys)
    (each : ∀ x, ∀ y ∈ ys, f x = some y → g x = some (h y)) : xs.mapM g = some (ys.map h) := by
  induction xs generalizing ys with
  | nil =>
    cases eq
    rfl
  | cons x xs ih =>
    simp only [List.mapM_cons, Option.bind_eq_bind, Option.bind_eq_some_iff, Option.pure_def,
      Option.some.injEq] at eq ⊢
    obtain ⟨y, hy, rest, hrest, rfl⟩ := eq
    exact ⟨h y, each x y (List.mem_cons_self ..) hy, rest.map h,
      ih hrest fun x y mem => each x y (List.mem_cons_of_mem _ mem), rfl⟩

theorem mapM_imp {α β : Type} {f g : α → Option β} {xs : List α} {ys : List β}
    (h : xs.mapM f = some ys) (imp : ∀ x, ∀ y ∈ ys, f x = some y → g x = some y) :
    xs.mapM g = some ys := by
  rw [← List.map_id ys]
  exact mapM_map h imp

theorem exists_of_mem_mapM {α β : Type} {f : α → Option β} {xs : List α} {ys : List β}
    (h : xs.mapM f = some ys) {y : β} (mem : y ∈ ys) : ∃ x ∈ xs, f x = some y := by
  induction xs generalizing ys with
  | nil =>
    cases h
    cases mem
  | cons x xs ih =>
    simp only [List.mapM_cons, Option.bind_eq_bind, Option.bind_eq_some_iff] at h
    obtain ⟨y', hy, ys', hys, eq⟩ := h
    cases eq
    rcases List.mem_cons.1 mem with rfl | mem
    · exact ⟨x, List.mem_cons_self .., hy⟩
    · obtain ⟨x', hx, eq⟩ := ih hys mem
      exact ⟨x', List.mem_cons_of_mem _ hx, eq⟩

/-! ### Charts at places -/

/-- The chart that stands where a value does. -/
def chartAt? (s : Store) (fuel : Nat) (v : Value) : Option Chart :=
  match v.node? with
  | some m => s.unfold fuel m.id
  | none => some (.other v)

/-- The chart that stands where a value does that may be absent. -/
def childAt? (s : Store) (fuel : Nat) (v : Value) : Option (Option Chart) :=
  if v.isNull then some none else (s.chartAt? fuel v).map some

theorem unfold_eq_some_iff {fuel id : Nat} {c : Chart} : s.unfold (fuel + 1) id = some c ↔
    ∃ n cs c?, s.node? id = some n ∧ (itemsIn n.children).mapM (s.chartAt? fuel) = some cs ∧
      s.childAt? fuel n.child = some c? ∧ c = .node id n cs c? := by
  have unfolded : s.unfold (fuel + 1) id = (s.node? id).bind fun n =>
      ((itemsIn n.children).mapM (s.chartAt? fuel)).bind fun cs =>
        (s.childAt? fuel n.child).bind fun c? => some (.node id n cs c?) := by
    rw [unfold]
    cases s.node? id with
    | none => rfl
    | some n =>
      show ((itemsIn n.children).mapM (s.chartAt? fuel) >>= fun cs =>
        if n.child.isNull then some (Chart.node id n cs none)
        else (s.chartAt? fuel n.child).map some >>= fun c? => some (Chart.node id n cs c?)) = _
      simp only [Option.bind_some, childAt?]
      cases n.child.isNull <;> rfl
  simp only [unfolded, Option.bind_eq_some_iff, Option.some.injEq]
  constructor
  · rintro ⟨n, found, cs, listed, c?, wrapped, rfl⟩
    exact ⟨n, cs, c?, found, listed, wrapped, rfl⟩
  · rintro ⟨n, cs, c?, found, listed, wrapped, rfl⟩
    exact ⟨n, found, cs, listed, c?, wrapped, rfl⟩

theorem childAt?_eq_some_iff {fuel : Nat} {v : Value} {c? : Option Chart} :
    s.childAt? fuel v = some c? ↔ v.isNull = true ∧ c? = none ∨
      v.isNull = false ∧ ∃ c, s.chartAt? fuel v = some c ∧ c? = some c := by
  rw [childAt?]
  cases v.isNull with
  | true => simp [eq_comm]
  | false => cases s.chartAt? fuel v <;> simp [eq_comm]

theorem chartAt?_of_unfold {P : Chart → Prop} (other : ∀ v, P (.other v)) {fuel : Nat}
    (node : ∀ id c, s.unfold fuel id = some c → P c) {v : Value} {c : Chart}
    (h : s.chartAt? fuel v = some c) : P c := by
  rw [chartAt?] at h
  split at h
  · exact node _ _ h
  · cases h
    exact other v

/-! ### What a chart depends on -/

/-- A chart unfolds alike in a store with the same nodes in its places, and with more levels. -/
theorem unfold_of_agree {fuel more id : Nat} {c : Chart} (unfolded : s.unfold fuel id = some c)
    (le : fuel ≤ more) (agree : ∀ i ∈ c.ids, t.node? i = s.node? i) :
    t.unfold more id = some c := by
  induction fuel generalizing more id c with
  | zero => cases unfolded
  | succ fuel ih =>
    obtain ⟨n, cs, c?, found, listed, wrapped, rfl⟩ := unfold_eq_some_iff.1 unfolded
    obtain ⟨more, rfl⟩ : ∃ k, more = k + 1 := ⟨more - 1, by omega⟩
    have inner {v : Value} {d : Chart} (below : ∀ i ∈ d.ids, i ∈ (Chart.node id n cs c?).ids)
        (here : s.chartAt? fuel v = some d) : t.chartAt? more v = some d := by
      rw [chartAt?] at here ⊢
      split at here
      · exact ih here (by omega) fun i mem => agree i (below i mem)
      · exact here
    refine unfold_eq_some_iff.2 ⟨n, cs, c?, ?_, ?_, ?_, rfl⟩
    · rw [agree id (Chart.mem_ids_node.2 (.inl rfl)), found]
    · exact mapM_imp listed fun v d mem here =>
        inner (fun i hi => Chart.mem_ids_node.2 (.inr (.inl ⟨d, mem, hi⟩))) here
    · refine childAt?_eq_some_iff.2 ((childAt?_eq_some_iff.1 wrapped).imp_right ?_)
      rintro ⟨given, d, here, rfl⟩
      exact ⟨given, d,
        inner (fun i hi => Chart.mem_ids_node.2 (.inr (.inr ⟨d, rfl, hi⟩))) here, rfl⟩

theorem unfold_le {fuel more id : Nat} {c : Chart} (le : fuel ≤ more)
    (unfolded : s.unfold fuel id = some c) : s.unfold more id = some c :=
  unfold_of_agree unfolded le fun _ _ => rfl

theorem unfold_top {fuel id : Nat} {c : Chart} (unfolded : s.unfold fuel id = some c) :
    ∃ n cs c?, s.node? id = some n ∧ c = .node id n cs c? := by
  cases fuel with
  | zero => cases unfolded
  | succ fuel =>
    obtain ⟨n, cs, c?, found, _, _, eq⟩ := unfold_eq_some_iff.1 unfolded
    exact ⟨n, cs, c?, found, eq⟩

theorem node?_of_mem_ids {fuel id : Nat} {c : Chart} (unfolded : s.unfold fuel id = some c) :
    ∀ i ∈ c.ids, ∃ n, s.node? i = some n := by
  induction fuel generalizing id c with
  | zero => cases unfolded
  | succ fuel ih =>
    obtain ⟨n, cs, c?, found, listed, wrapped, rfl⟩ := unfold_eq_some_iff.1 unfolded
    have inner {v : Value} {d : Chart} (here : s.chartAt? fuel v = some d) :
        ∀ i ∈ d.ids, ∃ n, s.node? i = some n :=
      chartAt?_of_unfold (P := fun d => ∀ i ∈ d.ids, ∃ n, s.node? i = some n)
        (fun v i hi => by simp [Chart.ids] at hi) (fun id c here => ih here) here
    intro i hi
    rcases Chart.mem_ids_node.1 hi with rfl | ⟨d, hd, below⟩ | ⟨d, rfl, below⟩
    · exact ⟨n, found⟩
    · obtain ⟨v, _, here⟩ := exists_of_mem_mapM listed hd
      exact inner here i below
    · obtain ⟨_, none⟩ | ⟨_, d', here, eq⟩ := childAt?_eq_some_iff.1 wrapped
      · cases none
      · cases eq
        exact inner here i below

/-- The chart below any node of a chart has no more places. -/
theorem unfold_of_mem_ids {fuel id : Nat} {c : Chart} (unfolded : s.unfold fuel id = some c) :
    ∀ i ∈ c.ids, ∃ d, s.unfold fuel i = some d ∧ d.ids.length ≤ c.ids.length := by
  induction fuel generalizing id c with
  | zero => cases unfolded
  | succ fuel ih =>
    have whole := unfolded
    obtain ⟨n, cs, c?, found, listed, wrapped, rfl⟩ := unfold_eq_some_iff.1 unfolded
    have inner {v : Value} {e : Chart} (here : s.chartAt? fuel v = some e)
        (le : e.ids.length ≤ (Chart.node id n cs c?).ids.length) :
        ∀ i ∈ e.ids, ∃ d, s.unfold (fuel + 1) i = some d ∧
          d.ids.length ≤ (Chart.node id n cs c?).ids.length := by
      intro i hi
      rw [chartAt?] at here
      split at here
      · obtain ⟨d, there, shorter⟩ := ih here i hi
        exact ⟨d, unfold_le (Nat.le_succ fuel) there, Nat.le_trans shorter le⟩
      · cases here
        cases hi
    intro i hi
    rcases Chart.mem_ids_node.1 hi with rfl | ⟨e, he, below⟩ | ⟨e, rfl, below⟩
    · exact ⟨_, whole, Nat.le_refl _⟩
    · obtain ⟨v, _, here⟩ := exists_of_mem_mapM listed he
      refine inner here ?_ i below
      have := Chart.length_ids_le he
      rw [Chart.ids_node, List.length_cons, List.length_append]
      omega
    · obtain ⟨_, none⟩ | ⟨_, e', here, eq⟩ := childAt?_eq_some_iff.1 wrapped
      · cases none
      · cases eq
        refine inner here ?_ i below
        have := Chart.length_ids_le (List.mem_singleton_self e)
        rw [Chart.ids_node, List.length_cons, List.length_append, Option.toList_some]
        omega

/-- A node does not stand below itself. -/
theorem not_mem_tail_ids {fuel id : Nat} {c : Chart} (unfolded : s.unfold fuel id = some c) :
    id ∉ c.ids.tail := by
  cases fuel with
  | zero => cases unfolded
  | succ fuel =>
    have whole := unfolded
    obtain ⟨n, cs, c?, found, listed, wrapped, rfl⟩ := unfold_eq_some_iff.1 unfolded
    -- Otherwise the chart would stand in a shorter one below it.
    have inner {v : Value} {e : Chart} (here : s.chartAt? fuel v = some e)
        (lt : e.ids.length < (Chart.node id n cs c?).ids.length) : id ∉ e.ids := by
      intro mem
      rw [chartAt?] at here
      split at here
      · obtain ⟨d, there, shorter⟩ := unfold_of_mem_ids here id mem
        cases whole.symm.trans (unfold_le (Nat.le_succ fuel) there)
        omega
      · cases here
        cases mem
    rw [Chart.ids_node] at inner ⊢
    rw [List.length_cons, List.length_append] at inner
    intro mem
    rcases List.mem_append.1 mem with below | below
    · obtain ⟨e, he, hi⟩ := Chart.mem_idsAll.1 below
      obtain ⟨v, _, here⟩ := exists_of_mem_mapM listed he
      have := Chart.length_ids_le he
      exact inner here (by omega) hi
    · obtain ⟨e, he, hi⟩ := Chart.mem_idsAll.1 below
      obtain ⟨_, none⟩ | ⟨_, e', here, eq⟩ := childAt?_eq_some_iff.1 wrapped
      · cases none
        cases he
      · cases eq
        cases List.mem_singleton.1 he
        have := Chart.length_ids_le he
        exact inner here (by omega) hi

end Store

end ChartTree
