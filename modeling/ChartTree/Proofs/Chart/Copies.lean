import ChartTree.Proofs.Chart.Fidelity
import ChartTree.Proofs.Session.Copying
import ChartTree.Proofs.Value.Copies

/-!
# Copies mean the same

A copy of a chart, recursive or plain, looks like the chart and compiles to the same document with
the same dataset table, or is refused for the same reason. Compiling copies every node that it comes
to, so whether that is a copy already does not matter; and it never asks which schema URL is
configured.
-/

namespace ChartTree

/-! ### What is seen of a chart -/

/-- What stands in a place for data, with the identical data and without the identities of the
objects in its options. -/
def DataSlot.bare : DataSlot → DataSlot
  | .empty => .empty
  | .reference r => .reference { r with options := r.options.bare }
  | .other v => .other v.bare

/-- What a node holds, without the identities of the objects in it. -/
def Spec.bare (s : Spec) : Spec :=
  { s with
    properties := s.properties.bare
    data := s.data.bare
    repeatChannels := s.repeatChannels.bare }

/-- What is seen of a chart: the same tree without the identities of its nodes. -/
inductive Dump where
  | node (spec : Spec) (children : List Dump) (child : Option Dump)
  | other (v : Value)

namespace Chart

mutual

def dump : Chart → Dump
  | .node _ n children child => .node n.toSpec.bare (dumpAll children) (match child with
    | none => none
    | some c => some (dump c))
  | .other v => .other v.bare
termination_by structural c => c

def dumpAll : List Chart → List Dump
  | [] => []
  | c :: cs => dump c :: dumpAll cs
termination_by structural cs => cs

end

theorem dumpAll_eq_map (cs : List Chart) : dumpAll cs = cs.map dump := by
  induction cs with
  | nil => rfl
  | cons c cs ih => rw [dumpAll, ih, List.map_cons]

theorem dump_node (id : Nat) (n : Node) (cs : List Chart) (c? : Option Chart) :
    dump (.node id n cs c?) = .node n.toSpec.bare (cs.map dump) (c?.map dump) := by
  cases c? <;> rw [dump, dumpAll_eq_map] <;> rfl

end Chart

/-! ### Copies of nodes -/

namespace Spec.Regular

variable {s t : Spec} {first second : Option Nat}

/-- The copy of what a regular node holds, place by place. -/
theorem copied_eq (h : s.Regular) (copy : s.copied first second = .ok t) :
    t.kind = s.kind ∧ t.properties = Value.copied first s.properties ∧
      (s.data = .empty ∧ t.data = .empty ∨
        ∃ r, s.data = .reference r ∧ r.Regular ∧ t.data = .reference (r.copied second)) ∧
      ∃ id entries, s.repeatChannels = ⟨id, .dict entries⟩ ∧ t.repeatChannels = .dict entries := by
  obtain ⟨id, entries, channels, _⟩ := h.repeatChannels
  rcases h.data with empty | ⟨_, r, reference, regular⟩
  · rw [Spec.copied, channels, empty] at copy
    cases copy
    exact ⟨rfl, rfl, .inl ⟨empty, rfl⟩, id, entries, channels, rfl⟩
  · rw [Spec.copied, channels, reference] at copy
    cases copy
    exact ⟨rfl, rfl, .inr ⟨r, reference, regular, rfl⟩, id, entries, channels, rfl⟩

theorem bare_copied (h : s.Regular) (copy : s.copied first second = .ok t) : t.bare = s.bare := by
  obtain ⟨kind, properties, data, id, entries, channels, channels'⟩ := h.copied_eq copy
  have same : t.data.bare = s.data.bare := by
    rcases data with ⟨empty, empty'⟩ | ⟨r, reference, _, reference'⟩
    · rw [empty, empty']
    · rw [reference, reference']
      simp only [DataSlot.bare, DataReference.copied, Value.bare_copied]
  rw [Spec.bare, Spec.bare, kind, properties, same, channels, channels', Value.bare_copied]
  rfl

end Spec.Regular

namespace Node.Regular

variable {n m : Node} {first second : Option Nat}

theorem entries_copied (h : n.Regular) (copy : n.toSpec.copied first second = .ok m.toSpec) :
    m.entries = n.entries := by
  obtain ⟨_, properties, _⟩ := h.spec.copied_eq copy
  obtain ⟨id, entries, eq, _⟩ := h.spec.properties
  rw [eq, Value.copied] at properties
  rw [Node.entries, Node.entries, Node.entriesOn_eq properties, Node.entriesOn_eq eq]
  exact Value.copiedEntries_copiedEntries first entries

theorem ownEntries_copied (h : n.Regular) (copy : n.toSpec.copied first second = .ok m.toSpec)
    (isRoot : Bool) : m.ownEntries isRoot = n.ownEntries isRoot := by
  rw [Node.ownEntries_eq, Node.ownEntries_eq, h.entries_copied copy]

end Node.Regular

theorem DataReference.toObject_copied (r : DataReference) (occasion : Option Nat) (name : Value) :
    (r.copied occasion).toObject name = r.toObject name := by
  show Dict.updated (r.payload name) (Value.copied none (Value.copied occasion r.options)) = _
  rw [Value.copied_copied]
  rfl

namespace Chart

theorem resolve_copied (r : DataReference) (occasion : Option Nat) :
    resolve (r.copied occasion) = resolve r := by
  simp only [resolve, DataReference.toObject_copied]
  rfl

theorem placeData_copied {n m : Node} {first second : Option Nat} (h : n.Regular)
    (copy : n.toSpec.copied first second = .ok m.toSpec) (own : Value) :
    placeData m.data own = placeData n.data own := by
  obtain ⟨_, _, ⟨empty, empty'⟩ | ⟨r, reference, _, reference'⟩, _⟩ := h.spec.copied_eq copy
  · rw [empty, empty']
  · rw [reference, reference']
    simp only [placeData, DataSlot.referenceFor?, DataSlot.referenceFor, Except.map, reached_ok,
      pure_bind, resolve_copied]

theorem bindAxesApart_copied {n m : Node} {first second : Option Nat} (h : n.Regular)
    (copy : n.toSpec.copied first second = .ok m.toSpec) (own : Value) (kind : Kind)
    (inner : Value) :
    bindAxesApart own m.repeatChannels kind inner =
      bindAxesApart own n.repeatChannels kind inner := by
  obtain ⟨_, _, _, id, entries, channels, channels'⟩ := h.spec.copied_eq copy
  rw [channels, channels']
  rfl

/-! ### Copies of charts -/

variable {c d : Chart}

theorem Copied.kindOf (h : c.Copied d) (regular : c.All Node.Regular) : d.kindOf = c.kindOf := by
  cases h with
  | same => rfl
  | node spec =>
    cases regular with
    | node regular => exact congrArg Except.ok (regular.spec.copied_eq spec).1
  | other => cases regular

theorem map_copies {α : Type} {f : Chart → α} {cs ds : List Chart} (length : cs.length = ds.length)
    (same : ∀ p ∈ cs.zip ds, f p.2 = f p.1) : ds.map f = cs.map f := by
  induction cs generalizing ds with
  | nil => rw [List.eq_nil_of_length_eq_zero length.symm]
  | cons c cs ih =>
    cases ds with
    | nil => cases length
    | cons d ds =>
      rw [List.zip_cons_cons] at same
      obtain ⟨first, rest⟩ := List.forall_mem_cons.1 same
      rw [List.map_cons, List.map_cons, first, ih (Nat.succ.inj length) rest]

theorem assembleAll_eq_mapM (cs : List Chart) :
    assembleAll cs = (cs.map (assemble false)).mapM id := by
  induction cs with
  | nil => rfl
  | cons c cs ih =>
    rw [assembleAll_cons, ih, List.map_cons, List.mapM_cons]
    rfl

/-- A copy of a chart of regular nodes looks like the chart. -/
theorem Copied.dump (h : c.Copied d) (regular : c.All Node.Regular) : d.dump = c.dump := by
  induction h with
  | same => rfl
  | @node id copy n m cs ds c? d? _ _ spec length _ present _ ih_children ih_child =>
    obtain ⟨node, children, child⟩ := all_inner regular
    have listed : ds.map Chart.dump = cs.map Chart.dump :=
      map_copies length fun p hp => ih_children p hp (children p.1 (List.of_mem_zip hp).1)
    have wrapped : d?.map Chart.dump = c?.map Chart.dump := by
      cases c? with
      | none =>
        cases d? with
        | none => rfl
        | some d => cases present
      | some c =>
        cases d? with
        | none => cases present
        | some d => exact congrArg some (ih_child c d rfl rfl (child c rfl))
    rw [dump_node, dump_node, node.spec.bare_copied spec, listed, wrapped]
  | other => cases regular

/-- A copy of a chart of regular nodes is assembled alike. -/
theorem Copied.assemble (h : c.Copied d) (regular : c.All Node.Regular)
    (regular' : d.All Node.Regular) : ∀ isRoot, d.assemble isRoot = c.assemble isRoot := by
  induction h with
  | same => exact fun _ => rfl
  | @node id copy n m cs ds c? d? _ _ spec length _ present child_copied ih_children ih_child =>
    obtain ⟨node, children, child⟩ := all_inner regular
    obtain ⟨node', children', child'⟩ := all_inner regular'
    intro isRoot
    have kind := (node.spec.copied_eq spec).1
    have own := node.ownEntries_copied spec isRoot
    have data := placeData_copied node spec
    -- Both sides wrap a chart or neither does, as `present` says.
    have wrapped {c d : Chart} (hc : c? = some c) (hd : d? = some d) :
        d.assemble false = c.assemble false ∧ d.kindOf = c.kindOf :=
      ⟨ih_child c d hc hd (child c hc) (child' d hd) false,
        (child_copied c d hc hd).kindOf (child c hc)⟩
    cases of : n.kind with
    | unit =>
      rw [assemble_unit isRoot node of, assemble_unit isRoot node' (kind.trans of), own, data]
    | facet =>
      cases c? with
      | none =>
        cases d? with
        | none =>
          rw [assemble_facet_none isRoot node of, assemble_facet_none isRoot node' (kind.trans of),
            own, data]
        | some d => cases present
      | some c =>
        cases d? with
        | none => cases present
        | some d =>
          rw [assemble_facet_some isRoot node of,
            assemble_facet_some isRoot node' (kind.trans of), own, data, (wrapped rfl rfl).1]
    | repeated =>
      cases c? with
      | none =>
        cases d? with
        | none =>
          rw [assemble_repeated_none isRoot node of,
            assemble_repeated_none isRoot node' (kind.trans of), own]
        | some d => cases present
      | some c =>
        cases d? with
        | none => cases present
        | some d =>
          rw [assemble_repeated_some isRoot node of (child c rfl),
            assemble_repeated_some isRoot node' (kind.trans of) (child' d rfl), own,
            (wrapped rfl rfl).1, (wrapped rfl rfl).2]
          simp only [bindAxesApart_copied node spec]
    | layer | hconcat | vconcat =>
      have concat : n.kind.isConcat = true := by
        rw [of]
        rfl
      have concat' : m.kind.isConcat = true := kind ▸ concat
      have listed : assembleAll ds = assembleAll cs := by
        rw [assembleAll_eq_mapM, assembleAll_eq_mapM, map_copies length fun p hp =>
          ih_children p hp (children p.1 (List.of_mem_zip hp).1)
            (children' p.2 (List.of_mem_zip hp).2) false]
      rw [assemble_concat isRoot node concat, assemble_concat isRoot node' concat', own, kind,
        listed]
  | other => cases regular

/-- A copy of a chart of regular nodes compiles to the same document, or is refused for the same
reason. -/
theorem Copied.compile (h : c.Copied d) (regular : c.All Node.Regular)
    (regular' : d.All Node.Regular) : d.compile = c.compile := by
  rw [Chart.compile, Chart.compile, h.assemble regular regular']

end Chart

/-! ### Copies in a session -/

namespace Session

theorem copied_ok {s : Store} (regular : s.Regular) (id : Nat) (recursive : Bool) :
    ∃ r, copied s id recursive = .ok r := by
  cases recursive with
  | true =>
    rw [copied, if_pos rfl]
    cases found : s.chart? id with
    | none => exact ⟨_, rfl⟩
    | some c =>
      obtain ⟨v, t, copy⟩ := Store.copyChart_ok (regular.unfold_all found) s
      simp only [copy]
      exact ⟨_, rfl⟩
  | false =>
    rw [copied, if_neg Bool.false_ne_true]
    cases found : s.node? id with
    | none => exact ⟨_, rfl⟩
    | some n =>
      obtain ⟨r, copy⟩ := Store.copyNode_ok (regular id n found).regular s
      simp only [copy]
      exact ⟨_, rfl⟩

/-- A copy is answered with a node, around which a copy of the chart stands beside the chart. -/
theorem copied_chart {s : Store} (regular : s.Regular) {id : Nat} {c : Chart}
    (found : s.chart? id = some c) (recursive : Bool) :
    ∃ m t d, copied s id recursive = .ok (some m, t) ∧ t.chart? id = some c ∧
      t.chart? m.id = some d ∧ c.Copied d := by
  obtain ⟨r, done⟩ := copied_ok regular id recursive
  have made : s.Continues r.2 ∧ ∃ m d, r.1 = some m ∧ r.2.chart? m.id = some d ∧ c.Copied d := by
    cases recursive with
    | true =>
      obtain ⟨continued, m, d, answer, stands, copy, _⟩ := copied_recursive found done
      exact ⟨continued, m, d, answer, stands, copy⟩
    | false =>
      obtain ⟨continued, m, d, answer, stands, copy, _⟩ := copied_plain_chart found done
      exact ⟨continued, m, d, answer, stands, copy⟩
  obtain ⟨continued, m, d, answer, stands, copy⟩ := made
  exact ⟨m, r.2, d, done.trans (congrArg Except.ok (Prod.ext answer rfl)), continued.chart? found,
    stands, copy⟩

end Session

/-- After checked steps every node of a chart can be copied, recursively or plainly. The copy looks
like the chart, the schema URL among its properties included, and compiles to the same document or
is refused for the same reason, whatever is configured when it is made or compiled. -/
theorem copies_mean_the_same {settings : Settings} {steps : List Step}
    (checked : ∀ step ∈ steps, step.Checked) {id : Nat} {c : Chart}
    (found : ((Session.start settings).run steps).store.chart? id = some c) (recursive : Bool)
    (atCopy atCompile : Settings) :
    let reached := (Session.start settings).run (steps ++ [.configure atCopy])
    let final := reached.run [.copy id recursive, .configure atCompile]
    ∃ m d, (reached.step (.copy id recursive)).1 = .ok (some m) ∧
      final.store.chart? id = some c ∧ final.store.chart? m.id = some d ∧
        d.dump = c.dump ∧ d.compile = c.compile := by
  have regular := Session.run_regular (s := .start settings) Store.empty_regular checked
  have configured : ((Session.start settings).run (steps ++ [.configure atCopy])).store =
      ((Session.start settings).run steps).store := by
    rw [Session.run_append]
    rfl
  intro reached final
  rw [← configured] at regular found
  obtain ⟨m, t, d, done, kept, stands, copy⟩ := Session.copied_chart regular found recursive
  have step : reached.step (.copy id recursive) = (.ok (some m), { reached with store := t }) := by
    rw [Session.step, Session.copy, done]
  have store : final.store = t := by
    show ((reached.step (.copy id recursive)).2.step (.configure atCompile)).2.store = t
    rw [step]
    rfl
  have regular' : t.Regular := Session.copied_regular regular done
  have all := regular.unfold_all found
  exact ⟨m, d, congrArg Prod.fst step, store ▸ kept, store ▸ stands, copy.dump all,
    copy.compile all (regular'.unfold_all stands)⟩

/-- A concatenation that holds a unit with rows twice and has lost its schema URL. -/
def sharingSteps : List Step :=
  [.unit ⟨.object 0, .list []⟩ [], .around .hconcat [⟨0, .unit⟩, ⟨0, .unit⟩],
    .call 1 (.property .schema (Shared.value ⟨.object 1, .null⟩))]

def sharingDocument : Value :=
  let unit : Value := .dict [("encoding", .dict []), ("mark", .dict [("type", "point")]),
    ("data", .dict [("name", "ds_0")])]
  .dict [("hconcat", .list [unit, unit]), ("datasets", .dict [("ds_0", .list [])])]

theorem sharingSteps_checked : ∀ step ∈ sharingSteps, step.Checked := by
  let held : Shared := ⟨.object 1, .null⟩
  have cleared : (Step.call 1 (.property .schema held.value)).Checked := by
    have given : Arguments.Distinct ⟨[held], []⟩ := List.nodup_nil
    have fits : (Method.property .schema).bind? ⟨[held], []⟩ =
        some (.property .schema held.value) := rfl
    exact .call 1 given fits
  simp only [sharingSteps, List.forall_mem_cons]
  exact ⟨Step.checked_unit _ List.nodup_nil, Step.checked_around _ _, cleared,
    List.forall_mem_nil _⟩

theorem copies_mean_the_same_of_sharing :
    let elsewhere : Settings := ⟨some "schema.json", none⟩
    let reached := (Session.start .unset).run (sharingSteps ++ [.configure elsewhere])
    let final := reached.run [.copy 1 true, .configure .unset]
    ∃ c d, c.ids = [1, 0, 0] ∧ d.ids = [4, 2, 3] ∧
      (c.compile.map fun document => document.toValue.bare) = .ok sharingDocument ∧
      ((Session.start .unset).run sharingSteps).store.chart? 1 = some c ∧
      (reached.step (.copy 1 true)).1 = .ok (some ⟨4, .hconcat⟩) ∧
      final.store.chart? 1 = some c ∧ final.store.chart? 4 = some d ∧
        d.dump = c.dump ∧ d.compile = c.compile := by
  intro elsewhere reached final
  obtain ⟨c, found, ids, document⟩ : ∃ c,
      ((Session.start .unset).run sharingSteps).store.chart? 1 = some c ∧ c.ids = [1, 0, 0] ∧
        (c.compile.map fun document => document.toValue.bare) = .ok sharingDocument :=
    ⟨_, rfl, rfl, rfl⟩
  obtain ⟨m, d, answer, kept, stands, dump, compile⟩ :=
    copies_mean_the_same sharingSteps_checked found true elsewhere .unset
  have made : (reached.step (.copy 1 true)).1 = .ok (some ⟨4, .hconcat⟩) := rfl
  cases made.symm.trans answer
  have fresh : ∃ e, final.store.chart? 4 = some e ∧ e.ids = [4, 2, 3] := ⟨_, rfl, rfl⟩
  obtain ⟨e, at_four, numbers⟩ := fresh
  cases at_four.symm.trans stands
  exact ⟨c, d, ids, numbers, document, found, made, kept, stands, dump, compile⟩

end ChartTree
