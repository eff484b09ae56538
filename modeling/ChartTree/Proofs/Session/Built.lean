import ChartTree.Proofs.Node.Sharing
import ChartTree.Proofs.Session.Unfolding

/-!
# Built charts

A chart is built if it stands in the store of a session that only makes nodes, calls their methods,
copies them and changes the settings. Every node of a built chart is regular. What a copy comes to
where it goes through is said here once, for whatever else copying keeps.
-/

namespace ChartTree

/-- No two arguments are given by one name. -/
def Arguments.Distinct (a : Arguments) : Prop :=
  (a.named.map Prod.fst).Nodup

/-- A step that goes through the checks: it makes a node, calls a method of a node with arguments
that fit its parameters, copies a node or changes the settings. -/
inductive Step.Checked : Step → Prop where
  | make {maker : Construction.Maker} {args : Arguments} {construction : Construction}
      (distinct : args.Distinct) (fits : Construction.bind? maker args = some construction) :
      Checked (.make construction)
  | call (id : Nat) {method : Method} {args : Arguments} {call : Call} (distinct : args.Distinct)
      (fits : method.bind? args = some call) : Checked (.call id call)
  | copy (id : Nat) (recursive : Bool) : Checked (.copy id recursive)
  | configure (settings : Settings) : Checked (.configure settings)

/-- A chart that stands in a store after checked steps. -/
def Chart.Built (c : Chart) : Prop :=
  ∃ (settings : Settings) (steps : List Step) (id : Nat), (∀ step ∈ steps, step.Checked) ∧
    ((Session.start settings).run steps).store.chart? id = some c

/-- Nodes alone stand in a chart, and all of them have a property. -/
inductive Chart.All (P : Node → Prop) : Chart → Prop where
  | node {id : Nat} {n : Node} {children : List Chart} {child : Option Chart} (node : P n)
      (children_all : ∀ c ∈ children, All P c) (child_all : ∀ c, child = some c → All P c) :
      All P (.node id n children child)

namespace Chart

theorem all_inner {id : Nat} {n : Node} {cs : List Chart} {c? : Option Chart} {P : Node → Prop}
    (h : (Chart.node id n cs c?).All P) :
    P n ∧ (∀ c ∈ cs, c.All P) ∧ ∀ c, c? = some c → c.All P := by
  cases h with
  | node node children child => exact ⟨node, children, child⟩

theorem All.imp {P Q : Node → Prop} (weaker : ∀ n, P n → Q n) {c : Chart} (all : c.All P) :
    c.All Q := by
  induction all with
  | node node _ _ ih_children ih_child => exact .node (weaker _ node) ih_children ih_child

end Chart

/-- All nodes of a store are regular and hold their dictionaries alone. -/
def Store.Regular (s : Store) : Prop :=
  ∀ id n, s.node? id = some n → n.Unshared

/-! ### Calls and constructions -/

namespace Arguments

variable {a rest : Arguments}

theorem take?_distinct (distinct : a.Distinct) {parameter : String} {held : Shared}
    (h : a.take? parameter = some (held, rest)) : rest.Distinct := by
  obtain ⟨positional, named⟩ := a
  cases positional with
  | cons first others =>
    cases h
    exact distinct
  | nil =>
    obtain ⟨found, _, eq⟩ := Option.map_eq_some_iff.1 h
    cases eq
    exact distinct.sublist (List.Sublist.map _ List.filter_sublist)

theorem options?_distinct (distinct : a.Distinct) {options : Dict}
    (h : a.options? = some options) :
    ∃ fields, options = Dict.ofFields fields ∧ (fields.map Prod.fst).Nodup := by
  rw [options?] at h
  split at h
  · cases h
    refine ⟨_, rfl, ?_⟩
    rw [List.map_map]
    exact distinct
  · cases h

end Arguments

theorem Method.bind?_data {m : Method} {a : Arguments} {source : Shared} {options : Dict}
    (h : m.bind? a = some (.data source options)) :
    ∃ rest, a.take? "source" = some (source, rest) ∧ rest.options? = some options := by
  cases m with
  | data =>
    simp only [Method.bind?, Option.bind_eq_bind, Option.bind_eq_some_iff, Option.pure_def,
      Option.some.injEq, Call.data.injEq] at h
    obtain ⟨⟨held, rest⟩, take, _, bound, rfl, rfl⟩ := h
    exact ⟨rest, take, bound⟩
  | _ => simp [Method.bind?, Option.bind_eq_some_iff] at h

theorem Call.keeps_regular {method : Method} {args : Arguments} {call : Call}
    (distinct : args.Distinct) (fits : method.bind? args = some call) (k : Kind) :
    Edit.Keeps (Edit.RegularOf k) call.edit := by
  cases call with
  | data source options =>
    obtain ⟨rest, take, bound⟩ := Method.bind?_data fits
    obtain ⟨fields, rfl, nodup⟩ :=
      Arguments.options?_distinct (Arguments.take?_distinct distinct take) bound
    exact Edit.keeps_data source nodup
  | inner args => exact Edit.keeps_inner args
  | mark type options => exact Edit.keeps_mark type options
  | encode channel field dataType options => exact Edit.keeps_encode channel field dataType options
  | bindAxis axis channel fields => exact Edit.keeps_bindAxis axis channel fields
  | transform items => exact Edit.keeps_transform items
  | projection type options => exact Edit.keeps_projection type options
  | property p value => exact Edit.keeps_property p value

theorem Construction.edited_regular {n m : Node} {edit : Edit Unit} {k : Kind}
    (keeps : Edit.Keeps (Edit.RegularOf k) edit) (hn : Edit.RegularOf k n)
    (h : edited n edit = .ok m) : m.Unshared := by
  rw [edited] at h
  split at h
  · rename_i run
    cases h
    exact (keeps.of_ok hn run).1
  · cases h

theorem Construction.bind?_unit {maker : Maker} {a : Arguments} {source : Option Shared}
    {options : Dict} (distinct : a.Distinct) (h : bind? maker a = some (.unit source options)) :
    ∃ fields, options = Dict.ofFields fields ∧ (fields.map Prod.fst).Nodup := by
  cases maker with
  | ofKind =>
    simp only [bind?] at h
    split at h <;> simp at h
  | composite kind => simp [bind?] at h
  | unit =>
    simp only [bind?] at h
    split at h
    · rename_i held rest take
      obtain ⟨_, bound, eq⟩ := Option.map_eq_some_iff.1 h
      cases eq
      exact Arguments.options?_distinct (Arguments.take?_distinct distinct take) bound
    · obtain ⟨_, bound, eq⟩ := Option.map_eq_some_iff.1 h
      cases eq
      exact Arguments.options?_distinct distinct bound

theorem Construction.build_regular {maker : Maker} {args : Arguments} {construction : Construction}
    (distinct : args.Distinct) (fits : bind? maker args = some construction) {url : String}
    {n : Node} (h : construction.build url = .ok n) : n.Unshared := by
  cases construction with
  | ofKind kind =>
    obtain ⟨k, _, made⟩ := bind_eq_ok_iff.1 h
    cases made
    exact Node.fresh_unshared k url
  | unit source options =>
    have fresh : Edit.RegularOf .unit (Node.fresh .unit url) := ⟨Node.fresh_unshared .unit url, rfl⟩
    obtain ⟨fields, rfl, nodup⟩ := bind?_unit distinct fits
    simp only [build] at h
    split at h
    · split at h
      · cases h
        exact fresh.1
      · exact edited_regular (Edit.keeps_data _ nodup) fresh h
    · cases h
      exact fresh.1
  | composite kind args =>
    have fresh : Edit.RegularOf kind (Node.fresh kind url) := ⟨Node.fresh_unshared kind url, rfl⟩
    simp only [build] at h
    split at h
    · cases h
      exact fresh.1
    · exact edited_regular (Edit.keeps_inner args) fresh h

/-! ### Stores -/

namespace Store

variable {s t : Store}

theorem empty_regular : Store.empty.Regular := by
  intro id n h
  simp [node?, empty] at h

theorem Regular.add (h : s.Regular) {n : Node} (hn : n.Unshared) : (s.add n).2.Regular := by
  intro id m hm
  simp only [Store.add, node?, Array.getElem?_push] at hm
  split at hm
  · cases hm
    exact hn
  · exact h id m hm

theorem Regular.set (h : s.Regular) (id : Nat) {n : Node} (hn : n.Unshared) :
    (s.set id n).Regular := by
  intro other m hm
  simp only [Store.set, node?, Array.getElem?_setIfInBounds] at hm
  split at hm
  · split at hm
    · cases hm
      exact hn
    · cases hm
  · exact h other m hm

/-! ### What copying comes to -/

theorem copySpec_ok {spec copy : Spec} (h : s.copySpec spec = .ok (copy, t)) :
    spec.copied (some s.occasions) (some (s.occasions + 1)) = .ok copy ∧
      t = { s with occasions := s.occasions + 2 } := by
  obtain ⟨spec', copied, made⟩ := bind_eq_ok_iff.1 h
  cases made
  exact ⟨copied, rfl⟩

theorem copyNode_eq_ok {n : Node} {m : NodeRef} (h : s.copyNode n = .ok (m, t)) :
    ∃ spec q items, s.copySpec n.toSpec = .ok (spec, q) ∧ n.children.itemsOf = .ok items ∧
      m = ⟨q.size, spec.kind⟩ ∧ t = (q.add ⟨spec, .list items, n.child⟩).2 := by
  obtain ⟨⟨spec, q⟩, copied, h⟩ := bind_eq_ok_iff.1 h
  obtain ⟨items, listed, h⟩ := bind_eq_ok_iff.1 h
  cases h
  exact ⟨spec, q, items, copied, listed, rfl, rfl⟩

/-- Copies what stands in the place of the wrapped chart, if anything does. -/
def copyChild (child : Option Chart) (s : Store) : Except Misuse (Value × Store) :=
  match child with
  | none => .ok (.null, s)
  | some c => copyChart c s

/-- A node is copied after everything below it, with a copy of what it holds. -/
theorem copyChart_node {id : Nat} {n : Node} {cs : List Chart} {c? : Option Chart} {v : Value}
    (h : copyChart (.node id n cs c?) s = .ok (v, t)) :
    ∃ spec q vs r w u, s.copySpec n.toSpec = .ok (spec, q) ∧ copyCharts cs q = .ok (vs, r) ∧
      copyChild c? r = .ok (w, u) ∧ v = .ofNode ⟨u.size, spec.kind⟩ ∧
        t = (u.add ⟨spec, .list vs, w⟩).2 := by
  rw [copyChart] at h
  obtain ⟨⟨spec, q⟩, copied, h⟩ := bind_eq_ok_iff.1 h
  obtain ⟨_, _, h⟩ := bind_eq_ok_iff.1 h
  obtain ⟨⟨vs, r⟩, charts, h⟩ := bind_eq_ok_iff.1 h
  cases c? with
  | none =>
    cases h
    exact ⟨spec, q, vs, r, .null, r, copied, charts, rfl, rfl, rfl⟩
  | some c =>
    obtain ⟨⟨w, u⟩, child, h⟩ := bind_eq_ok_iff.1 h
    cases h
    exact ⟨spec, q, vs, r, w, u, copied, charts, child, rfl, rfl⟩

theorem copyChart_node_of {id : Nat} {n : Node} {cs : List Chart} {c? : Option Chart}
    {spec : Spec} {items vs : List Value} {w : Value} {q r : Store}
    (copySpec : s.copySpec n.toSpec = .ok (spec, q)) (given : n.children.itemsOf = .ok items)
    (charts : copyCharts cs q = .ok (vs, r)) (child : copyChild c? r = .ok (w, u)) :
    copyChart (.node id n cs c?) s =
      .ok (.ofNode ⟨u.size, spec.kind⟩, (u.add ⟨spec, .list vs, w⟩).2) := by
  rw [copyChart]
  cases c? with
  | none =>
    cases child
    simp only [copySpec, given, charts, bind, Except.bind]
    rfl
  | some c =>
    rw [copyChild] at child
    simp only [copySpec, given, charts, child, bind, Except.bind]
    rfl

theorem copyChart_other {v w : Value} (h : copyChart (.other v) s = .ok (w, t)) :
    v.selfCopy = .ok w ∧ t = s := by
  rw [copyChart] at h
  obtain ⟨copy, copied, h⟩ := bind_eq_ok_iff.1 h
  cases h
  exact ⟨copied, rfl⟩

theorem copyCharts_cons {c : Chart} {cs : List Chart} {vs : List Value}
    (h : copyCharts (c :: cs) s = .ok (vs, t)) :
    ∃ v q rest, copyChart c s = .ok (v, q) ∧ copyCharts cs q = .ok (rest, t) ∧ vs = v :: rest := by
  rw [copyCharts] at h
  obtain ⟨⟨v, q⟩, first, h⟩ := bind_eq_ok_iff.1 h
  obtain ⟨⟨rest, u⟩, others, h⟩ := bind_eq_ok_iff.1 h
  cases h
  exact ⟨v, q, rest, first, others, rfl⟩

/-! ### Copies of regular nodes -/

/-- What is copied from a regular node is regular, and the nodes of the store stay as they are. -/
theorem copySpec_regular {spec : Spec} (hspec : spec.Regular) {r : Spec × Store}
    (h : s.copySpec spec = .ok r) :
    r.1.Regular ∧ r.1.repeatChannels.identity? = none ∧ r.2.nodes = s.nodes := by
  obtain ⟨copy, copied, regular, _, _, channels⟩ :=
    hspec.copied (some s.occasions) (some (s.occasions + 1))
  rw [copySpec, copied] at h
  cases h
  exact ⟨regular, channels, rfl⟩

theorem Regular.of_nodes_eq (h : s.Regular) (eq : t.nodes = s.nodes) : t.Regular := by
  intro id n hn
  rw [node?, eq] at hn
  exact h id n hn

theorem itemsOf_children {n : Node} (hn : n.Regular) :
    ∃ nodes : List NodeRef, n.children.itemsOf = .ok (nodes.map Value.ofNode) := by
  obtain ⟨id, nodes, eq⟩ := hn.children
  exact ⟨nodes, by rw [eq]; rfl⟩

theorem copyNode_regular (h : s.Regular) {n : Node} (hn : n.Regular) {m : NodeRef}
    (copied : s.copyNode n = .ok (m, t)) : t.Regular := by
  obtain ⟨nodes, listed⟩ := itemsOf_children hn
  obtain ⟨spec, q, items, copySpec, given, rfl, rfl⟩ := copyNode_eq_ok copied
  cases listed.symm.trans given
  obtain ⟨regular, channels, eq⟩ := copySpec_regular hn.spec copySpec
  exact (h.of_nodes_eq eq).add ⟨⟨regular, ⟨none, nodes, rfl⟩, hn.child⟩, channels⟩

theorem copyCharts_regular {cs : List Chart}
    (each : ∀ c ∈ cs, ∀ {s t : Store} {v : Value}, s.Regular → copyChart c s = .ok (v, t) →
      t.Regular ∧ ∃ m, v = .ofNode m)
    (h : s.Regular) {vs : List Value} (copied : copyCharts cs s = .ok (vs, t)) :
    t.Regular ∧ ∃ nodes : List NodeRef, vs = nodes.map Value.ofNode := by
  induction cs generalizing s t vs with
  | nil =>
    rw [copyCharts] at copied
    cases copied
    exact ⟨h, [], rfl⟩
  | cons c cs ih =>
    obtain ⟨v, q, rest, first, others, rfl⟩ := copyCharts_cons copied
    obtain ⟨regular, m, rfl⟩ := each c (List.mem_cons_self ..) h first
    obtain ⟨regular', nodes, rfl⟩ :=
      ih (fun c hc => each c (List.mem_cons_of_mem _ hc)) regular others
    exact ⟨regular', m :: nodes, rfl⟩

/-- Copying a chart of regular nodes takes in regular nodes only. -/
theorem copyChart_regular {c : Chart} (hc : c.All Node.Regular) (h : s.Regular) {v : Value}
    (copied : copyChart c s = .ok (v, t)) : t.Regular ∧ ∃ m, v = .ofNode m := by
  induction hc generalizing s t v with
  | @node id n children child hn _ _ ih_children ih_child =>
    obtain ⟨spec, q, vs, r, w, u, copySpec, charts, wrapped, rfl, rfl⟩ := copyChart_node copied
    obtain ⟨regular, channels, eq⟩ := copySpec_regular hn.spec copySpec
    obtain ⟨regular', nodes, rfl⟩ := copyCharts_regular
      (fun c hc _ _ _ regular => ih_children c hc regular) (h.of_nodes_eq eq) charts
    have listed : ∃ id, ∃ others : List NodeRef,
        Value.list (nodes.map Value.ofNode) = ⟨id, .list (others.map Value.ofNode)⟩ :=
      ⟨none, nodes, rfl⟩
    cases child with
    | none =>
      cases wrapped
      exact ⟨regular'.add ⟨⟨regular, listed, .inl rfl⟩, channels⟩, _, rfl⟩
    | some c =>
      obtain ⟨regular'', inner⟩ := ih_child c rfl regular' wrapped
      exact ⟨regular''.add ⟨⟨regular, listed, .inr inner⟩, channels⟩, _, rfl⟩

/-! ### Unfolding -/

theorem node?_ofNode (m : NodeRef) : (Value.ofNode m).node? = some m := rfl

theorem isNull_ofNode (m : NodeRef) : (Value.ofNode m).isNull = false := rfl

theorem inner_nodes {n : Node} (hn : n.Regular) :
    ∃ (i : Option Identity) (nodes : List NodeRef) (m? : Option NodeRef),
      n.children = ⟨i, .list (nodes.map Value.ofNode)⟩ ∧
        n.child = (m?.map Value.ofNode).getD .null := by
  obtain ⟨i, nodes, children⟩ := hn.children
  rcases hn.child with child | ⟨m, child⟩
  · exact ⟨i, nodes, none, children, child⟩
  · exact ⟨i, nodes, some m, children, child⟩

theorem unfold_succ {s : Store} {fuel id : Nat} {n : Node} {i : Option Identity}
    {nodes : List NodeRef} {m? : Option NodeRef} (found : s.node? id = some n)
    (children : n.children = ⟨i, .list (nodes.map Value.ofNode)⟩)
    (child : n.child = (m?.map Value.ofNode).getD .null) :
    s.unfold (fuel + 1) id = (nodes.mapM fun m => s.unfold fuel m.id).bind fun cs =>
      (m?.mapM fun m => s.unfold fuel m.id).map fun c => .node id n cs c := by
  have listed : itemsIn n.children = nodes.map Value.ofNode := by
    rw [children]
    rfl
  rw [unfold, found]
  simp only [Option.bind_eq_bind, Option.bind_some, listed, List.mapM_map]
  cases m? with
  | none =>
    rw [child]
    rfl
  | some m =>
    rw [child]
    cases unfolded : s.unfold fuel m.id with
    | none => simp [isNull_ofNode, node?_ofNode, unfolded]
    | some c =>
      simp only [Option.map_some, Option.getD_some, isNull_ofNode, node?_ofNode, unfolded,
        Option.mapM_some]
      rfl

/-- What a regular store unfolds to is a node of the store with charts that the store unfolds to. -/
theorem Regular.unfold_cases (h : s.Regular) {fuel id : Nat} {c : Chart}
    (unfolded : s.unfold fuel id = some c) :
    ∃ below n cs c?, fuel = below + 1 ∧ c = .node id n cs c? ∧ s.node? id = some n ∧
      (∀ d ∈ cs, ∃ id, s.unfold below id = some d) ∧
        ∀ d, c? = some d → ∃ id, s.unfold below id = some d := by
  cases fuel with
  | zero => cases unfolded
  | succ below =>
    cases found : s.node? id with
    | none => simp [unfold, found] at unfolded
    | some n =>
      obtain ⟨i, nodes, m?, children, child⟩ := inner_nodes (h id n found).regular
      rw [unfold_succ found children child, Option.bind_eq_some_iff] at unfolded
      obtain ⟨cs, hcs, rest⟩ := unfolded
      obtain ⟨c?, hc, rfl⟩ := Option.map_eq_some_iff.1 rest
      refine ⟨below, n, cs, c?, rfl, rfl, rfl, fun d hd => ?_, fun d hd => ?_⟩
      · obtain ⟨m, _, hm⟩ := exists_of_mem_mapM hcs hd
        exact ⟨m.id, hm⟩
      · cases m? with
        | none =>
          cases hc
          cases hd
        | some m =>
          obtain ⟨d', hd', rfl⟩ := Option.map_eq_some_iff.1 hc
          cases hd
          exact ⟨m.id, hd'⟩

/-- What holds of all nodes of a regular store holds of all that it unfolds to. -/
theorem Regular.unfold_all_of (h : s.Regular) {P : Node → Prop}
    (all : ∀ id n, s.node? id = some n → P n) {fuel id : Nat} {c : Chart}
    (unfolded : s.unfold fuel id = some c) : c.All P := by
  induction fuel generalizing id c with
  | zero => cases unfolded
  | succ fuel ih =>
    obtain ⟨below, n, cs, c?, eq, rfl, found, hcs, hc⟩ := h.unfold_cases unfolded
    cases eq
    refine .node (all id n found) (fun d hd => ?_) (fun d hd => ?_)
    · obtain ⟨_, hd⟩ := hcs d hd
      exact ih hd
    · obtain ⟨_, hd⟩ := hc d hd
      exact ih hd

theorem Regular.unfold_all (h : s.Regular) {fuel id : Nat} {c : Chart}
    (unfolded : s.unfold fuel id = some c) : c.All Node.Regular :=
  h.unfold_all_of (fun id n found => (h id n found).regular) unfolded

end Store

/-! ### Sessions -/

namespace Session

/-- A call that leaves a node with dictionaries of its own changes no other node. -/
theorem edited_of_unshared (s : Session) (id : Nat) {n : Node} (h : n.toSpec.Unshared)
    (channels : n.repeatChannels.identity? = none) {paths : List (Place × List String)}
    (call : ∀ path ∈ paths, IsCallPath path) :
    s.edited id n paths = { s with store := s.store.set id n } := by
  rw [edited, Store.foldl_putEntry_of_none _ fun _ mem => h.identity?_of_mem channels call mem]

theorem call_regular {s : Session} (h : s.store.Regular) (id : Nat) {c : Call}
    (keeps : ∀ k, Edit.Keeps (Edit.RegularOf k) c.edit) : (s.call id c).2.store.Regular := by
  rw [call]
  cases found : s.store.node? id with
  | none => exact h
  | some n =>
    have hn : Edit.RegularOf n.kind n := ⟨h id n found, rfl⟩
    cases run : c.edit.run n with
    | ok _ m =>
      obtain ⟨⟨regular, channels⟩, _⟩ := (keeps n.kind).of_ok hn run
      simp only [run,
        edited_of_unshared s id regular.spec.unshared channels (c.paths_isCallPath m.kind)]
      exact h.set id ⟨regular, channels⟩
    | error reason m =>
      obtain ⟨⟨regular, channels⟩, _⟩ := (keeps n.kind).of_error hn run
      simp only [run,
        edited_of_unshared s id regular.spec.unshared channels (c.pathsRefused_isCallPath m)]
      exact h.set id ⟨regular, channels⟩

/-- What a copy answers with and leaves behind: a copy of the chart or of the node, where there is
one. -/
inductive Copying (s : Store) (id : Nat) : Bool → Option NodeRef → Store → Prop where
  | noChart (missing : s.chart? id = none) : Copying s id true none s
  | chart {c : Chart} {v : Value} {t : Store} (found : s.chart? id = some c)
      (copy : s.copyChart c = .ok (v, t)) : Copying s id true v.node? t
  | noNode (missing : s.node? id = none) : Copying s id false none s
  | node {n : Node} {m : NodeRef} {t : Store} (found : s.node? id = some n)
      (copy : s.copyNode n = .ok (m, t)) : Copying s id false (some m) t

theorem copying_of_copied {s t : Store} {id : Nat} {recursive : Bool} {answer : Option NodeRef}
    (done : copied s id recursive = .ok (answer, t)) : Copying s id recursive answer t := by
  cases recursive with
  | true =>
    rw [copied, if_pos rfl] at done
    cases found : s.chart? id with
    | none =>
      rw [found] at done
      cases done
      exact .noChart found
    | some c =>
      rw [found] at done
      obtain ⟨⟨v, u⟩, copy, done⟩ := map_eq_ok_iff.1 done
      cases done
      exact .chart found copy
  | false =>
    rw [copied, if_neg Bool.false_ne_true] at done
    cases found : s.node? id with
    | none =>
      rw [found] at done
      cases done
      exact .noNode found
    | some n =>
      rw [found] at done
      obtain ⟨⟨m, u⟩, copy, done⟩ := map_eq_ok_iff.1 done
      cases done
      exact .node found copy

theorem copied_regular {s : Store} (h : s.Regular) {id : Nat} {recursive : Bool}
    {r : Option NodeRef × Store} (done : copied s id recursive = .ok r) : r.2.Regular := by
  obtain ⟨answer, t⟩ := r
  cases copying_of_copied done with
  | noChart | noNode => exact h
  | chart found copy => exact (Store.copyChart_regular (h.unfold_all found) h copy).1
  | node found copy => exact Store.copyNode_regular h (h id _ found).regular copy

/-- A checked step keeps all nodes regular. -/
theorem step_regular {s : Session} (h : s.store.Regular) {step : Step} (checked : step.Checked) :
    (s.step step).2.store.Regular := by
  cases checked with
  | @make maker args construction distinct fits =>
    simp only [Session.step]
    cases built : construction.build s.schemaUrl with
    | error reason => exact h
    | ok n => exact h.add (Construction.build_regular distinct fits built)
  | call id distinct fits => exact call_regular h id (Call.keeps_regular distinct fits)
  | copy id recursive =>
    simp only [Session.step, Session.copy]
    cases done : copied s.store id recursive with
    | error reason => exact h
    | ok r => exact copied_regular h done
  | configure settings => exact h

/-- Checked steps keep all nodes regular. -/
theorem run_regular {s : Session} (h : s.store.Regular) {steps : List Step}
    (checked : ∀ step ∈ steps, step.Checked) : (s.run steps).store.Regular := by
  induction steps generalizing s with
  | nil => exact h
  | cons step steps ih =>
    exact ih (step_regular h (checked step (List.mem_cons_self ..)))
      fun other mem => checked other (List.mem_cons_of_mem _ mem)

end Session

/-! ### Steps that make nodes -/

/-- Makes a unit with data from a source and options. -/
def Step.unit (source : Shared) (options : List (String × Shared)) : Step :=
  .make (.unit (some source) (Dict.ofFields (options.map fun (name, held) => (name, held.value))))

/-- Makes a node around other nodes. -/
def Step.around (kind : Kind) (inner : List NodeRef) : Step :=
  .make (.composite kind (inner.map Value.ofNode))

theorem Step.checked_unit (source : Shared) {options : List (String × Shared)}
    (distinct : (options.map Prod.fst).Nodup) : (Step.unit source options).Checked := by
  let args : Arguments := ⟨[source], options⟩
  have given : args.Distinct := distinct
  have fits : Construction.bind? .unit args = some (.unit (some source)
      (Dict.ofFields (options.map fun (name, held) => (name, held.value)))) := rfl
  exact .make given fits

theorem Step.checked_around (kind : Kind) (inner : List NodeRef) :
    (Step.around kind inner).Checked := by
  let args : Arguments := ⟨inner.map fun n => ⟨.node n.id, .node n.kind⟩, []⟩
  have given : args.Distinct := List.nodup_nil
  have fits : Construction.bind? (.composite kind) args =
      some (.composite kind (inner.map Value.ofNode)) := by
    simp only [args, Construction.bind?, Arguments.values?, List.isEmpty_nil, if_pos,
      Option.map_some, List.map_map]
    rfl
  exact .make given fits

theorem Step.checked_bindAxis (id : Nat) (axis : Axis) (channel fields : Shared) :
    (Step.call id (.bindAxis axis channel.value fields.value)).Checked := by
  have given : Arguments.Distinct ⟨[channel, fields], []⟩ := List.nodup_nil
  have fits : (Method.bindAxis axis).bind? ⟨[channel, fields], []⟩ =
      some (.bindAxis axis channel.value fields.value) := rfl
  exact .call id given fits

namespace Chart.Built

variable {c : Chart}

/-- Every node of a built chart is regular. -/
theorem regular (built : c.Built) : c.All Node.Regular := by
  obtain ⟨settings, steps, id, checked, found⟩ := built
  exact (Session.run_regular Store.empty_regular checked).unfold_all found

end Chart.Built

end ChartTree
