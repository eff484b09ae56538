import ChartTree.Proofs.Chart.Copies
import ChartTree.Proofs.Session.Isolation
import ChartTree.Value.Display

/-!
# Independent copies

A recursive copy shares no node with what was there before, and a plain copy shares the inner nodes
of the original and nothing else: whatever is later done to some nodes is not seen in a chart that
has none of them. So it is where no list and no dictionary is handed over to the nodes that are
worked on and to others as well, and where a copied node and its copy have nothing in common that a
write to one of them could change: for their channels and their data are the same objects.
-/

namespace ChartTree

/-- A recursive copy of a chart in a store stands in new nodes, a different one in every place. -/
structure Store.CopiedAfresh (s : Store) (c d : Chart) : Prop where
  copied : c.Copied d
  fresh : ∀ i ∈ d.ids, s.size ≤ i
  distinct : d.ids.Nodup
  places : d.ids.length = c.ids.length

/-- A node has the very inner nodes of another one, in a list of its own. -/
def Node.SharesInner (n m : Node) : Prop :=
  m.child = n.child ∧ ∃ items, n.children.itemsOf = .ok items ∧ m.children = .list items

namespace Session

variable {s : Session} {id : Nat} {recursive : Bool} {c : Chart}

theorem copy_eq_some {m : NodeRef}
    (answer : (s.step (.copy id recursive)).1 = .ok (some m)) :
    ∃ t, copied s.store id recursive = .ok (some m, t) ∧
      (s.step (.copy id recursive)).2 = { s with store := t } := by
  rw [Session.step, copy] at answer ⊢
  cases done : copied s.store id recursive with
  | error reason =>
    rw [done] at answer
    cases answer
  | ok r =>
    rw [done] at answer
    obtain ⟨m', t⟩ := r
    cases answer
    exact ⟨t, rfl, rfl⟩

/-- A chart of regular nodes can be copied. -/
theorem copy_of_regular (found : s.store.chart? id = some c) (regular : c.All Node.Regular) :
    ∃ m, (s.step (.copy id recursive)).1 = .ok (some m) := by
  rw [Session.step, copy]
  cases recursive with
  | true =>
    obtain ⟨v, t, copy⟩ := Store.copyChart_ok regular s.store
    have done : copied s.store id true = .ok (v.node?, t) := by
      rw [copied, if_pos rfl, found]
      simp only [copy]
      rfl
    obtain ⟨_, m, _, answer, _⟩ := copied_recursive found done
    rw [done]
    exact ⟨m, congrArg Except.ok answer⟩
  | false =>
    obtain ⟨n, _, _, node, rfl⟩ := Store.unfold_top found
    obtain ⟨r, copy⟩ := Store.copyNode_ok (Chart.all_inner regular).1 s.store
    have done : copied s.store id false = .ok (some r.1, r.2) := by
      rw [copied, if_neg Bool.false_ne_true, node]
      simp only [copy]
      rfl
    rw [done]
    exact ⟨r.1, rfl⟩

theorem copied_afresh {s t : Store} {m : NodeRef} (found : s.chart? id = some c)
    (done : copied s id true = .ok (some m, t)) :
    ∃ d, t.chart? m.id = some d ∧ s.CopiedAfresh c d := by
  obtain ⟨_, m', d, answer, stands, copy, fresh, distinct, places⟩ := copied_recursive found done
  cases answer
  exact ⟨d, stands, copy, fresh, distinct, places⟩

/-- A plain copy of a chart is one new node. Its chart has no place for the node that is copied. -/
theorem copied_beside {s t : Store} {m : NodeRef} (found : s.chart? id = some c)
    (done : copied s id false = .ok (some m, t)) :
    m.id = s.size ∧ (∃ n copy, s.node? id = some n ∧ t.node? m.id = some copy ∧
      n.SharesInner copy) ∧ ∃ d, t.chart? m.id = some d ∧ c.Copied d ∧ id ∉ d.ids := by
  obtain ⟨_, m', d, answer, stands, copy, places⟩ := copied_plain_chart found done
  cases answer
  obtain ⟨n, _, _, node, _⟩ := Store.unfold_top found
  obtain ⟨spec, items, _, listed, number, store⟩ := copied_plain node done
  cases number
  have stored : t = _ := store
  refine ⟨rfl, ⟨n, ⟨spec, .list items, n.child⟩, node, ?_, rfl, items, listed, rfl⟩,
    d, stands, copy, ?_⟩
  · rw [stored]
    exact Store.node?_add_self _ _
  · rw [places, List.mem_cons, not_or]
    exact ⟨Nat.ne_of_lt (Store.node?_lt node), Store.not_mem_tail_ids found⟩

/-- A call of `inner` changes the node that it is addressed to and no other one. -/
theorem node?_call_inner (s : Session) {i j : Nat} (args : List Value) (ne : i ≠ j) :
    (s.step (.call i (.inner args))).2.store.node? j = s.store.node? j := by
  have other (n : Node) : (s.store.set i n).node? j = s.store.node? j := by
    rw [Store.node?, Store.set, Array.getElem?_setIfInBounds]
    exact if_neg ne
  change (s.call i (.inner args)).2.store.node? j = _
  rw [call]
  cases s.store.node? i with
  | none => rfl
  | some n => cases run : (Call.inner args).edit.run n <;> simp only [run] <;> exact other _

/-- The chart of a copy is made of new nodes, or it is one new node with the inner nodes of the
original. -/
theorem copied_stands {m : NodeRef} (found : s.store.chart? id = some c)
    (answer : (s.step (.copy id recursive)).1 = .ok (some m)) :
    ∃ d, (s.step (.copy id recursive)).2.store.chart? m.id = some d ∧
      (recursive = true → s.store.CopiedAfresh c d) ∧
      (recursive = false → s.store.size ≤ m.id ∧ c.Copied d ∧ id ∉ d.ids ∧
        ∃ n copy, s.store.node? id = some n ∧
          (s.step (.copy id recursive)).2.store.node? m.id = some copy ∧ n.SharesInner copy) := by
  obtain ⟨t, done, eq⟩ := copy_eq_some answer
  rw [eq]
  cases recursive with
  | true =>
    obtain ⟨d, stands, afresh⟩ := copied_afresh found done
    exact ⟨d, stands, fun _ => afresh, fun eq => (nomatch eq)⟩
  | false =>
    obtain ⟨number, inner, d, stands, like, elsewhere⟩ := copied_beside found done
    exact ⟨d, stands, fun eq => (nomatch eq), fun _ =>
      ⟨Nat.le_of_eq number.symm, like, elsewhere, inner⟩⟩

end Session

/-- A recursive copy stands in new nodes, and a plain copy in one new node around the inner nodes of
the original. No chart sees what is later done to nodes that it has not, be it the chart of a copy
or one that was there before. What is not seen leaves the chart as it is, and with it what the chart
looks like and compiles to. -/
theorem copies_are_independent {settings : Settings} {before : List Step} {id : Nat}
    {recursive : Bool} {c : Chart}
    (found : ((Session.start settings).run before).store.chart? id = some c) :
    let reached := (Session.start settings).run before
    let after := (reached.step (.copy id recursive)).2
    (c.All Node.Regular → ∃ m, (reached.step (.copy id recursive)).1 = .ok (some m)) ∧
      ∀ m, (reached.step (.copy id recursive)).1 = .ok (some m) →
        ∃ d, after.store.chart? m.id = some d ∧
          (recursive = true → reached.store.CopiedAfresh c d) ∧
          (recursive = false → reached.store.size ≤ m.id ∧ c.Copied d ∧ id ∉ d.ids ∧
            ∃ n copy, reached.store.node? id = some n ∧ after.store.node? m.id = some copy ∧
              n.SharesInner copy) ∧
          ∀ later, let final := after.run later
            (∀ i j args, i ≠ j →
              (final.step (.call i (.inner args))).2.store.node? j = final.store.node? j) ∧
            ∀ given worked, (Session.start settings).HandsOver given worked
                (before ++ .copy id recursive :: later) →
              (∀ step ∈ later, ∀ i, step.target? = some i → worked i = true) →
                (∀ i e, reached.store.chart? i = some e → (∀ j ∈ e.ids, worked j = false) →
                  final.store.chart? i = some e) ∧
                ((∀ j ∈ d.ids, worked j = false) → final.store.chart? m.id = some d) := by
  intro reached after
  refine ⟨Session.copy_of_regular found, fun m answer => ?_⟩
  obtain ⟨d, stands, afresh, beside⟩ := Session.copied_stands found answer
  refine ⟨d, stands, afresh, beside, fun later => ?_⟩
  intro final
  refine ⟨fun i j args => final.node?_call_inner args, fun given worked hands addressed => ?_⟩
  obtain ⟨first, copying, rest⟩ := Session.handsOver_append.1 hands
  have empty : (Session.start settings).store.Owned given (fun _ => false) worked :=
    Store.owned_empty
  obtain ⟨⟨made, owned⟩, _⟩ := Session.run_isolated empty first
  obtain ⟨⟨made', owned'⟩, copied⟩ := Session.step_isolated owned copying
  obtain ⟨_, spared⟩ := Session.run_isolated owned' rest
  have later_spares : after.store.Spares worked final.store := spared addressed
  -- The copy is addressed to no node, so only the later steps can have changed an old one.
  have spares : reached.store.Spares worked final.store :=
    (copied fun _ target => nomatch target).trans later_spares
  exact ⟨fun i e there others => spares.chart? there others, later_spares.chart? stands⟩

/-- A dictionary of titles that a caller has. -/
def titles (number : Nat) (title : String) : Value :=
  ⟨some (.object number), .dict [("title", .string title)]⟩

theorem titles_sorted {given : Nat → Option Bool} {here : Bool} {number : Nat} (title : String)
    (mine : given number = some here) : (titles number title).Sorted (HandedTo given here) :=
  Value.sorted_dict.2 ⟨fun _ same => Option.some.inj same ▸ mine,
    List.forall_mem_singleton.2 ⟨Value.sorted_string _, Value.sorted_string _⟩⟩

/-- A layer of two units, one of them twice, with the same titles for an axis. -/
def titledSteps : List Step :=
  [.make (.unit none []), .call 0 (.encode "x" "a" "q" [("axis", titles 0 "a")]),
    .make (.unit none []), .call 1 (.encode "y" "b" "q" [("axis", titles 0 "a")]),
    .make (.composite .layer [.ofNode ⟨0, .unit⟩, .ofNode ⟨1, .unit⟩, .ofNode ⟨0, .unit⟩])]

/-- The same new titles for two units of a copy, then another title in one of them, and then a
copied unit in the place of all. -/
def retitlingSteps : List Step :=
  [.call 3 (.encode "x" "a" "q" [("axis", titles 1 "b")]),
    .call 4 (.encode "y" "b" "q" [("axis", titles 1 "b")]),
    .write 3 (.inside .properties ["encoding", "x", "axis", "title"] "c"),
    .call 6 (.inner [.ofNode ⟨0, .unit⟩])]

/-- The titles in a copy are changed in both units that have them, and in none that was copied. -/
theorem copies_are_independent_of_titled :
    let reached := (Session.start .unset).run titledSteps
    let after := (reached.step (.copy 2 true)).2
    let final := after.run retitlingSteps
    ∃ c d, reached.store.chart? 2 = some c ∧ c.ids = [2, 0, 1, 0] ∧
      after.store.chart? 6 = some d ∧ d.ids = [6, 3, 4, 5] ∧ reached.store.CopiedAfresh c d ∧
        final.store.chart? 2 = some c ∧ (final.store.chart? 6).map Chart.ids = some [6, 0] := by
  intro reached after final
  let given (number : Nat) : Option Bool := some (decide (number = 1))
  let worked (id : Nat) : Bool := decide (3 ≤ id)
  obtain ⟨c, found, ids⟩ : ∃ c, reached.store.chart? 2 = some c ∧ c.ids = [2, 0, 1, 0] :=
    ⟨_, rfl, rfl⟩
  have titled {here : Bool} {number : Nat} (title : String) (mine : given number = some here) :
      Dict.Sorted (HandedTo given here) [("axis", titles number title)] :=
    List.forall_mem_singleton.2 ⟨Value.sorted_string _, titles_sorted title mine⟩
  have titling : (Session.start .unset).HandsOver given worked titledSteps :=
    ⟨trivial, ⟨Value.sorted_string _, titled "a" rfl⟩, trivial,
      ⟨Value.sorted_string _, titled "a" rfl⟩, trivial, trivial⟩
  have plain : (Step.copy 2 true).HandsOver given worked reached := by
    intro _ _ i _ n here j new _
    obtain ⟨nodes, stored, unbound⟩ : ∃ nodes, reached.store.nodes = nodes ∧
        ∀ m ∈ nodes.toList, m.repeatChannels = .dict [] :=
      ⟨#[_, _, _], rfl, by rintro m (_ | ⟨_, _ | ⟨_, _ | ⟨_, ⟨⟩⟩⟩⟩) <;> rfl⟩
    rw [Store.node?, stored] at here
    have mem : n ∈ nodes.toList := List.mem_of_getElem? (Array.getElem?_toList.trans here)
    refine .inr ⟨fun entries bound => ?_, fun other => ?_⟩
    · rw [unbound n mem] at bound
      cases bound
      exact List.forall_mem_nil _
    · have copied : worked j = true := decide_eq_true (show 3 ≤ j from new)
      cases copied.symm.trans other
  have retitling : after.HandsOver given worked retitlingSteps := by
    refine ⟨⟨Value.sorted_string _, titled "b" rfl⟩, ⟨Value.sorted_string _, titled "b" rfl⟩,
      ⟨by simp, ?_, Value.sorted_string _⟩, trivial, trivial⟩
    simp only [List.forall_mem_cons]
    exact ⟨Value.sorted_string _, Value.sorted_string _, Value.sorted_string _,
      Value.sorted_string _, List.forall_mem_nil _⟩
  have hands : (Session.start .unset).HandsOver given worked
      (titledSteps ++ .copy 2 true :: retitlingSteps) :=
    Session.handsOver_append.2 ⟨titling, plain, retitling⟩
  have addressed : ∀ step ∈ retitlingSteps, ∀ i, step.target? = some i → worked i = true := by
    intro step mem i target
    simp only [retitlingSteps, List.mem_cons, List.not_mem_nil, or_false] at mem
    rcases mem with rfl | rfl | rfl | rfl <;> cases target <;> rfl
  have made : (reached.step (.copy 2 true)).1 = .ok (some ⟨6, .layer⟩) := rfl
  obtain ⟨d, stands, afresh, _, unseen⟩ := (copies_are_independent found).2 ⟨6, .layer⟩ made
  have numbers : d.ids = [6, 3, 4, 5] := by
    obtain ⟨e, there, ids⟩ : ∃ e, after.store.chart? 6 = some e ∧ e.ids = [6, 3, 4, 5] :=
      ⟨_, rfl, rfl⟩
    cases there.symm.trans stands
    exact ids
  have old : ∀ j ∈ c.ids, worked j = false := by
    rw [ids]
    decide
  have same := ((unseen retitlingSteps).2 given worked hands addressed).1 2 c found old
  exact ⟨c, d, found, ids, stands, numbers, afresh rfl, same, by decide +kernel⟩

/-! ### What copies share -/

/-- The properties, the channels and the inline data of a node, as they look. -/
def Dump.texts : Dump → List String
  | .other v => [v.literal]
  | .node spec _ _ => [spec.properties.literal, spec.repeatChannels.literal] ++
    match spec.data with
    | .reference r => r.values.toList.map (Value.literal ∘ Shared.value)
    | _ => []

/-- What is seen of the first of the inner nodes, if there are any. -/
def Dump.first : Dump → Dump
  | .node _ (d :: _) _ => d
  | d => d

/-- After a copy, steps that are addressed to one node change how a chart looks that is without the
node. -/
def Session.CopyEntangles (s : Session) (id : Nat) (recursive : Bool) (later : List Step)
    (target i : Nat) : Prop :=
  let after := (s.step (.copy id recursive)).2
  (∃ m, (s.step (.copy id recursive)).1 = .ok (some m)) ∧
    (∀ step ∈ later, step.target? = some target) ∧
      ∃ e, after.store.chart? i = some e ∧ target ∉ e.ids ∧
        ((after.run later).store.chart? i).map Chart.dump ≠ some e.dump

/-- A repeat with a list in the place of the channel that its rows are bound to. -/
def listBindingSteps : List Step :=
  [.make (.composite .repeated []), .write 0 (.repeatChannels
    ⟨some (.object 0), .dict [("row", ⟨some (.object 1), .list ["x"]⟩)]⟩)]

/-- A list among the channels is the same in a node and in its copy, and so are a dictionary that is
handed over to both and one among the data. The inner nodes that a plain copy shares may hold what
is handed over to the node that is copied. -/
theorem copies_share_objects :
    (((Session.start .unset).run listBindingSteps).CopyEntangles 0 true
        [.write 1 (.inside .repeatChannels ["row", .int 0] "changed")] 1 0 ∧
      ((Session.start .unset).run listBindingSteps).CopyEntangles 0 true
        [.write 0 (.inside .repeatChannels ["row", .int 0] "changed")] 0 1) ∧
    ((Session.start .unset).run [.make (.unit none []),
        .call 0 (.property .config (titles 0 "a"))]).CopyEntangles 0 true
      [.call 1 (.property .config (titles 0 "a")),
        .write 1 (.inside .properties ["config", "title"] "changed")] 1 0 ∧
    ((Session.start .unset).run [.make (.unit (some ⟨.object 0, (titles 0 "a").content⟩) []),
        .call 0 (.transform [titles 0 "a"])]).CopyEntangles 0 true
      [.write 0 (.inside .properties ["transform", .int 0, "title"] "changed")] 0 1 ∧
    ((Session.start .unset).run [.make (.unit none []),
        .call 0 (.property .config (titles 0 "a")), .make (.composite .layer [.ofNode ⟨0, .unit⟩]),
        .call 1 (.property .config (titles 0 "a"))]).CopyEntangles 1 false
      [.write 1 (.inside .properties ["config", "title"] "changed")] 1 2 := by
  have looks (f : Dump → List String) {a : Option Dump} {b : Dump} (h : a.map f ≠ some (f b)) :
      a ≠ some b := fun same => h (congrArg (Option.map f) same)
  have top {a : Option Dump} {b : Dump} := @looks Dump.texts a b
  refine ⟨⟨?_, ?_⟩, ?_, ?_, ?_⟩
  · exact ⟨⟨_, rfl⟩, by simp [Step.target?], _, rfl, by decide, top (by decide +kernel)⟩
  · exact ⟨⟨_, rfl⟩, by simp [Step.target?], _, rfl, by decide, top (by decide +kernel)⟩
  · exact ⟨⟨_, rfl⟩, by simp [Step.target?], _, rfl, by decide, top (by decide +kernel)⟩
  · exact ⟨⟨_, rfl⟩, by simp [Step.target?], _, rfl, by decide, top (by decide +kernel)⟩
  · exact ⟨⟨_, rfl⟩, by simp [Step.target?], _, rfl, by decide,
      looks (Dump.texts ∘ Dump.first) (by decide +kernel)⟩

end ChartTree
