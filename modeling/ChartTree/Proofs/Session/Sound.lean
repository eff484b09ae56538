import ChartTree.Proofs.Node.Fluent
import ChartTree.Proofs.Session.Built

/-!
# Sound stores

In a session that makes nodes, calls their setters and copies them, every node of the store has the
proper shape, and its inner nodes are in the store as nodes of the kinds they are held to be. Nodes
never leave the store and never change their kinds.
-/

namespace ChartTree

/-- A reference to a node of a store by its kind. -/
def NodeRef.StandsIn (m : NodeRef) (s : Store) : Prop :=
  ∃ n, s.node? m.id = some n ∧ n.kind = m.kind

def Node.innerNodes (n : Node) : List NodeRef :=
  (Store.itemsIn n.children ++ [n.child]).filterMap Value.node?

/-- The nodes of one store are in another one, with the same kinds. -/
def Store.Grows (s t : Store) : Prop :=
  ∀ id n, s.node? id = some n → ∃ m, t.node? id = some m ∧ m.kind = n.kind

/-- Every node has the proper shape, and its inner nodes are in the store. -/
def Store.Sound (s : Store) : Prop :=
  ∀ id n, s.node? id = some n → n.Shaped ∧ ∀ m ∈ n.innerNodes, m.StandsIn s

/-- The nodes among the arguments for inner nodes. -/
def Construction.given : Construction → List NodeRef
  | .composite _ args => args.filterMap Value.node?
  | _ => []

def Call.given : Call → List NodeRef
  | .inner args => args.filterMap Value.node?
  | _ => []

/-- A step that makes a node, calls a setter, copies a node or changes the settings, and that is
given nodes of the store only. -/
inductive Step.Proper (s : Store) : Step → Prop where
  | make {construction : Construction} (given : ∀ m ∈ construction.given, m.StandsIn s) :
      Proper s (.make construction)
  | call (id : Nat) {call : Call} (given : ∀ m ∈ call.given, m.StandsIn s) :
      Proper s (.call id call)
  | copy (id : Nat) (recursive : Bool) : Proper s (.copy id recursive)
  | configure (settings : Settings) : Proper s (.configure settings)

/-- Steps each of which is proper where it is taken. -/
def Session.Proper (s : Session) : List Step → Prop
  | [] => True
  | step :: steps => step.Proper s.store ∧ Proper (s.step step).2 steps

/-! ### Inner nodes -/

namespace Node

theorem innerNodes_eq {n : Node} {nodes : List NodeRef} {node? : Option NodeRef}
    (children : n.children = .list (nodes.map Value.ofNode))
    (child : n.child = (node?.map Value.ofNode).getD .null) :
    n.innerNodes = nodes ++ node?.toList := by
  have listed : (nodes.map Value.ofNode).filterMap Value.node? = nodes := by
    rw [List.filterMap_map]
    exact List.filterMap_some
  have wrapped : [(node?.map Value.ofNode).getD .null].filterMap Value.node? = node?.toList := by
    cases node? <;> rfl
  rw [innerNodes, children, child, List.filterMap_append, wrapped]
  exact congrArg (· ++ node?.toList) listed

theorem innerNodes_put (n : Node) {s : Slot} (content : s.Content) (other : s ≠ .inner) :
    (n.put s content).innerNodes = n.innerNodes := by
  cases s with
  | inner => exact absurd rfl other
  | _ => rfl

end Node

theorem Call.slot?_ne_inner {call : Call} (other : ∀ args, call ≠ .inner args) :
    call.slot? ≠ some .inner := by
  cases call with
  | inner args => exact absurd rfl (other args)
  | encode channel field dataType options =>
    intro eq
    obtain ⟨c, _, inner⟩ := Option.map_eq_some_iff.1 eq
    cases inner
  | _ => exact fun eq => by cases eq

/-- A call leaves inner nodes that were there or that it is given. -/
theorem Call.innerNodes_on {n : Node} (h : n.Shaped) (call : Call) {m : NodeRef}
    (mem : m ∈ (call.on n).innerNodes) : m ∈ n.innerNodes ∨ m ∈ call.given := by
  rw [call.on_eq h] at mem
  cases verdict : call.verdict n.kind with
  | error reason =>
    rw [verdict] at mem
    exact .inl mem
  | ok r =>
    rw [verdict] at mem
    obtain ⟨s, content⟩ := r
    have slot := (settles_of_verdict verdict).slot
    by_cases inner : ∃ args, call = .inner args
    · obtain ⟨args, rfl⟩ := inner
      obtain ⟨listed, node?, eq, _, among⟩ := of_verdict_inner verdict
      cases eq
      let seats : Slot.inner.Content :=
        (.list (listed.map Value.ofNode), (node?.map Value.ofNode).getD .null)
      have seated : (n.put .inner seats).innerNodes = listed ++ node?.toList :=
        Node.innerNodes_eq rfl rfl
      have here : some m ∈ args.map Value.node? := by
        refine among m ?_
        have listed_mem : m ∈ listed ++ node?.toList := seated ▸ mem
        rw [List.mem_append, Option.mem_toList] at listed_mem
        exact listed_mem
      obtain ⟨v, hv, eq⟩ := List.mem_map.1 here
      exact .inr (List.mem_filterMap.2 ⟨v, hv, eq⟩)
    · have other : s ≠ .inner := by
        rintro rfl
        exact slot?_ne_inner (fun args eq => inner ⟨args, eq⟩) slot
      rw [Node.innerNodes_put n content other] at mem
      exact .inl mem

/-! ### Growth -/

namespace Store

variable {s t u : Store}

theorem Grows.refl (s : Store) : s.Grows s :=
  fun _ n hn => ⟨n, hn, rfl⟩

theorem Grows.trans (h : s.Grows t) (h' : t.Grows u) : s.Grows u := by
  intro id n hn
  obtain ⟨m, hm, kind⟩ := h id n hn
  obtain ⟨l, hl, kind'⟩ := h' id m hm
  exact ⟨l, hl, kind'.trans kind⟩

theorem Grows.stands (h : s.Grows t) {m : NodeRef} (stands : m.StandsIn s) : m.StandsIn t := by
  obtain ⟨n, hn, kind⟩ := stands
  obtain ⟨l, hl, kind'⟩ := h m.id n hn
  exact ⟨l, hl, kind'.trans kind⟩

theorem none_stand (s : Store) : ∀ m ∈ ([] : List NodeRef), m.StandsIn s :=
  fun _ hm => (List.not_mem_nil hm).elim

theorem Grows.of_nodes_eq (eq : t.nodes = s.nodes) : s.Grows t := by
  intro id n hn
  refine ⟨n, ?_, rfl⟩
  rw [node?, eq]
  exact hn

theorem node?_lt {id : Nat} {n : Node} (h : s.node? id = some n) : id < s.size :=
  (Array.getElem?_eq_some_iff.1 h).1

theorem grows_add (s : Store) (n : Node) : s.Grows (s.add n).2 := by
  intro id m hm
  refine ⟨m, ?_, rfl⟩
  rw [node?, add, Array.getElem?_push]
  exact (if_neg (Nat.ne_of_lt (node?_lt hm))).trans hm

theorem stands_add (s : Store) (n : Node) : (s.add n).1.StandsIn (s.add n).2 := by
  refine ⟨n, ?_, rfl⟩
  rw [node?, add, Array.getElem?_push]
  exact if_pos rfl

theorem node?_set {id other : Nat} {n m : Node} (h : (s.set id n).node? other = some m) :
    m = n ∧ other = id ∨ s.node? other = some m := by
  simp only [Store.set, node?, Array.getElem?_setIfInBounds] at h
  split at h
  · rename_i here
    split at h
    · exact .inl ⟨(Option.some.inj h).symm, here.symm⟩
    · cases h
  · exact .inr h

theorem grows_set {id : Nat} {n m : Node} (found : s.node? id = some n) (kind : m.kind = n.kind) :
    s.Grows (s.set id m) := by
  intro other l hl
  simp only [Store.set, node?, Array.getElem?_setIfInBounds]
  split
  · rename_i here
    subst here
    rw [found] at hl
    cases hl
    refine ⟨m, if_pos (node?_lt found), kind⟩
  · exact ⟨l, hl, rfl⟩

theorem empty_sound : Store.empty.Sound := by
  intro id n h
  simp [node?, empty] at h

theorem Sound.of_nodes_eq (h : s.Sound) (eq : t.nodes = s.nodes) : t.Sound := by
  intro id n hn
  rw [node?, eq] at hn
  obtain ⟨shaped, inner⟩ := h id n hn
  exact ⟨shaped, fun m hm => (Grows.of_nodes_eq eq).stands (inner m hm)⟩

theorem Sound.add (h : s.Sound) {n : Node} (shaped : n.Shaped)
    (inner : ∀ m ∈ n.innerNodes, m.StandsIn s) : (s.add n).2.Sound := by
  intro id m hm
  rw [node?, Store.add, Array.getElem?_push] at hm
  split at hm
  · cases hm
    exact ⟨shaped, fun m hm => (grows_add s n).stands (inner m hm)⟩
  · obtain ⟨shaped', inner'⟩ := h id m hm
    exact ⟨shaped', fun l hl => (grows_add s n).stands (inner' l hl)⟩

theorem Sound.set (h : s.Sound) {id : Nat} {n m : Node} (found : s.node? id = some n)
    (kind : m.kind = n.kind) (shaped : m.Shaped) (inner : ∀ l ∈ m.innerNodes, l.StandsIn s) :
    (s.set id m).Sound := by
  have grows := grows_set found kind
  intro other l hl
  rcases node?_set hl with ⟨rfl, _⟩ | held
  · exact ⟨shaped, fun l hl => grows.stands (inner l hl)⟩
  · obtain ⟨shaped', inner'⟩ := h other l held
    exact ⟨shaped', fun l hl => grows.stands (inner' l hl)⟩

end Store

/-! ### Makers -/

def Construction.kind? : Construction → Option Kind
  | .ofKind kind => (kindArg kind).toOption
  | .unit .. => some .unit
  | .composite kind _ => some kind

namespace Construction

theorem edited_eq {n m : Node} {call : Call} (h : edited n call.edit = .ok m) : m = call.on n := by
  rw [edited] at h
  rw [Call.on]
  cases run : call.edit.run n with
  | ok _ written =>
    rw [run] at h
    cases h
    rfl
  | error reason written =>
    rw [run] at h
    cases h

/-- What is made is a fresh node, or one after a call for its data or its inner nodes that is given
the same nodes. -/
theorem build_eq {c : Construction} {url : String} {n : Node} (h : c.build url = .ok n) :
    ∃ k, c.kind? = some k ∧ (n = .fresh k url ∨
      ∃ call : Call, n = call.on (.fresh k url) ∧ call.given = c.given ∧
        (call.slot? = some .data ∨ call.slot? = some .inner)) := by
  cases c with
  | ofKind kind =>
    obtain ⟨k, arg, made⟩ := bind_eq_ok_iff.1 h
    cases made
    exact ⟨k, by rw [kind?, arg]; rfl, .inl rfl⟩
  | unit source options =>
    refine ⟨.unit, rfl, ?_⟩
    simp only [build] at h
    split at h
    · rename_i source
      split at h
      · cases h
        exact .inl rfl
      · exact .inr ⟨.data source options, edited_eq h, rfl, .inl rfl⟩
    · cases h
      exact .inl rfl
  | composite kind args =>
    refine ⟨kind, rfl, ?_⟩
    simp only [build] at h
    split at h
    · cases h
      exact .inl rfl
    · exact .inr ⟨.inner args, edited_eq h, rfl, .inr rfl⟩

/-- A made node has the proper shape and the kind that was asked for, and its inner nodes were
given. -/
theorem build_shaped {c : Construction} {url : String} {n : Node} (h : c.build url = .ok n) :
    n.Shaped ∧ c.kind? = some n.kind ∧ ∀ m ∈ n.innerNodes, m ∈ c.given := by
  obtain ⟨k, kind, rfl | ⟨call, rfl, given, _⟩⟩ := build_eq h
  · exact ⟨Node.fresh_shaped k url, kind, fun m hm => by cases hm⟩
  · have fresh := Node.fresh_shaped k url
    refine ⟨call.shaped_on fresh, kind.trans (congrArg some (call.kind_on fresh).symm),
      fun m hm => ?_⟩
    rcases call.innerNodes_on fresh hm with hm | hm
    · cases hm
    · exact given ▸ hm

end Construction

/-! ### Unfolding -/

/-- A chart of nodes of the proper shape, with charts of the kinds of their inner nodes. -/
inductive Chart.Formed : Chart → Prop where
  | node {id : Nat} {n : Node} {children : List Chart} {child : Option Chart}
      {nodes : List NodeRef} {node? : Option NodeRef} (spec : n.toSpec.Shaped)
      (listed : n.children = .list (nodes.map Value.ofNode))
      (wrapped : n.child = (node?.map Value.ofNode).getD .null) (seats : n.kind.Seats nodes node?)
      (kinds : children.map Chart.kindOf = (nodes.map NodeRef.kind).map .ok)
      (kind : child.map Chart.kindOf = (node?.map NodeRef.kind).map .ok)
      (children_formed : ∀ c ∈ children, Formed c) (child_formed : ∀ c, child = some c → Formed c) :
      Formed (.node id n children child)

namespace Store

variable {s t : Store}

theorem map_of_mapM {α β γ : Type} {f : α → Option β} {g : β → γ} {h : α → γ} {xs : List α}
    {ys : List β} (each : ∀ x ∈ xs, ∀ y, f x = some y → g y = h x) (eq : xs.mapM f = some ys) :
    ys.map g = xs.map h := by
  induction xs generalizing ys with
  | nil =>
    cases eq
    rfl
  | cons x xs ih =>
    simp only [List.mapM_cons, Option.bind_eq_bind, Option.bind_eq_some_iff] at eq
    obtain ⟨y, hy, ys', hys, eq⟩ := eq
    cases eq
    rw [List.map_cons, List.map_cons, each x (List.mem_cons_self ..) y hy,
      ih (fun x hx => each x (List.mem_cons_of_mem _ hx)) hys]

theorem Sound.kindOf_unfold (h : s.Sound) {fuel id : Nat} {n : Node} {c : Chart}
    (found : s.node? id = some n) (unfolded : s.unfold fuel id = some c) :
    c.kindOf = .ok n.kind := by
  cases fuel with
  | zero => cases unfolded
  | succ fuel =>
    obtain ⟨⟨_, nodes, node?, listed, wrapped, _⟩, _⟩ := h id n found
    rw [unfold_succ found listed wrapped, Option.bind_eq_some_iff] at unfolded
    obtain ⟨_, _, rest⟩ := unfolded
    obtain ⟨_, _, rfl⟩ := Option.map_eq_some_iff.1 rest
    rfl

theorem Sound.unfold_formed (h : s.Sound) {fuel id : Nat} {c : Chart}
    (unfolded : s.unfold fuel id = some c) : c.Formed := by
  induction fuel generalizing id c with
  | zero => cases unfolded
  | succ fuel ih =>
    cases found : s.node? id with
    | none => simp [unfold, found] at unfolded
    | some n =>
      obtain ⟨⟨spec, nodes, node?, listed, wrapped, seats⟩, inner⟩ := h id n found
      rw [Node.innerNodes_eq listed wrapped] at inner
      have kindOf (m : NodeRef) (mem : m ∈ nodes ++ node?.toList) (d : Chart)
          (hd : s.unfold fuel m.id = some d) : d.kindOf = .ok m.kind := by
        obtain ⟨l, hl, kind⟩ := inner m mem
        rw [h.kindOf_unfold hl hd, kind]
      rw [unfold_succ found listed wrapped, Option.bind_eq_some_iff] at unfolded
      obtain ⟨cs, hcs, rest⟩ := unfolded
      obtain ⟨c?, hc, rfl⟩ := Option.map_eq_some_iff.1 rest
      refine .node spec listed wrapped seats ?_ ?_ (fun d hd => ?_) fun d hd => ?_
      · rw [List.map_map]
        exact map_of_mapM (fun m hm => kindOf m (List.mem_append_left _ hm)) hcs
      · cases node? with
        | none =>
          cases hc
          rfl
        | some m =>
          obtain ⟨d, hd, rfl⟩ := Option.map_eq_some_iff.1 hc
          exact congrArg some (kindOf m (by simp) d hd)
      · obtain ⟨m, _, hm⟩ := exists_of_mem_mapM hcs hd
        exact ih hm
      · cases node? with
        | none =>
          cases hc
          cases hd
        | some m =>
          obtain ⟨d', hd', rfl⟩ := Option.map_eq_some_iff.1 hc
          cases hd
          exact ih hd'

/-! ### Copies -/

theorem copySpec_shaped {spec copy : Spec} (shaped : spec.Shaped)
    (copied : s.copySpec spec = .ok (copy, t)) :
    copy.Shaped ∧ copy.kind = spec.kind ∧ t.nodes = s.nodes := by
  obtain ⟨made, rfl⟩ := copySpec_ok copied
  obtain ⟨shaped', kind⟩ := shaped.copied made
  exact ⟨shaped', kind, rfl⟩

end Store

theorem Kind.Seats.of_kinds {k : Kind} {nodes others : List NodeRef} {node? other? : Option NodeRef}
    (h : k.Seats nodes node?) (listed : others.map NodeRef.kind = nodes.map NodeRef.kind)
    (wrapped : other?.map NodeRef.kind = node?.map NodeRef.kind) : k.Seats others other? where
  concat no := by
    rw [h.concat no] at listed
    exact List.map_eq_nil_iff.1 listed
  single no := by
    rw [h.single no] at wrapped
    exact Option.map_eq_none_iff.1 wrapped
  layer layer m hm := by
    have mem : m.kind ∈ nodes.map NodeRef.kind := listed ▸ List.mem_map_of_mem hm
    obtain ⟨l, hl, kind⟩ := List.mem_map.1 mem
    rw [← kind]
    exact h.layer layer l hl
  repeated repeated m hm := by
    rw [hm] at wrapped
    obtain ⟨l, hl, kind⟩ := Option.map_eq_some_iff.1 wrapped.symm
    rw [← kind]
    exact h.repeated repeated l hl

namespace Store

variable {s t : Store}

/-- A store takes in a node of a proper shape around nodes of the store. -/
theorem Sound.add_seated (h : s.Sound) {spec : Spec} (shaped : spec.Shaped)
    {nodes : List NodeRef} {node? : Option NodeRef} (seats : spec.kind.Seats nodes node?)
    (listed : ∀ m ∈ nodes, m.StandsIn s) (wrapped : ∀ m, node? = some m → m.StandsIn s) :
    (s.add ⟨spec, .list (nodes.map Value.ofNode),
      (node?.map Value.ofNode).getD .null⟩).2.Sound := by
  refine h.add ⟨shaped, nodes, node?, rfl, rfl, seats⟩ fun m hm => ?_
  rw [Node.innerNodes_eq rfl rfl] at hm
  rcases List.mem_append.1 hm with hm | hm
  · exact listed m hm
  · exact wrapped m (Option.mem_toList.1 hm)

/-- A copy of a node has its shape, its kind and its inner nodes. -/
theorem copyNode_sound (h : s.Sound) {id : Nat} {n : Node} (found : s.node? id = some n)
    {m : NodeRef} (copied : s.copyNode n = .ok (m, t)) :
    t.Sound ∧ s.Grows t ∧ m.StandsIn t ∧ m.kind = n.kind := by
  obtain ⟨⟨shaped, nodes, node?, listed, wrapped, seats⟩, inner⟩ := h id n found
  obtain ⟨spec, q, items, copySpec, given, rfl, rfl⟩ := copyNode_eq_ok copied
  have same : items = nodes.map Value.ofNode := by
    rw [listed] at given
    exact (Except.ok.inj given).symm
  subst same
  obtain ⟨shaped', kind, eq⟩ := copySpec_shaped shaped copySpec
  have grows : s.Grows q := Grows.of_nodes_eq eq
  rw [Node.innerNodes_eq listed wrapped] at inner
  have fits : spec.kind.Seats nodes node? := kind ▸ seats
  rw [wrapped]
  exact ⟨(h.of_nodes_eq eq).add_seated shaped' fits
      (fun m hm => grows.stands (inner m (List.mem_append_left _ hm)))
      fun m hm => grows.stands (inner m (List.mem_append_right _ (Option.mem_toList.2 hm))),
    grows.trans (grows_add q _), stands_add .., kind⟩

theorem copyCharts_sound {cs : List Chart}
    (each : ∀ c ∈ cs, ∀ {s t : Store} {v : Value}, s.Sound → copyChart c s = .ok (v, t) →
      t.Sound ∧ s.Grows t ∧ ∃ m, v = .ofNode m ∧ c.kindOf = .ok m.kind ∧ m.StandsIn t)
    (h : s.Sound) {vs : List Value} (copied : copyCharts cs s = .ok (vs, t)) :
    t.Sound ∧ s.Grows t ∧ ∃ nodes : List NodeRef, vs = nodes.map Value.ofNode ∧
      cs.map Chart.kindOf = (nodes.map NodeRef.kind).map .ok ∧ ∀ m ∈ nodes, m.StandsIn t := by
  induction cs generalizing s t vs with
  | nil =>
    rw [copyCharts] at copied
    cases copied
    exact ⟨h, .refl s, [], rfl, rfl, fun m hm => by cases hm⟩
  | cons c cs ih =>
    obtain ⟨v, q, rest, first, others, rfl⟩ := copyCharts_cons copied
    obtain ⟨sound, grows, m, rfl, kind, stands⟩ := each c (List.mem_cons_self ..) h first
    obtain ⟨sound', grows', nodes, rfl, kinds, all⟩ :=
      ih (fun c hc => each c (List.mem_cons_of_mem _ hc)) sound others
    refine ⟨sound', grows.trans grows', m :: nodes, rfl, ?_,
      List.forall_mem_cons.2 ⟨grows'.stands stands, all⟩⟩
    rw [List.map_cons, kind, kinds]
    rfl

/-- The copy of a chart is a new node of its kind in a store that has grown. -/
theorem copyChart_sound {c : Chart} (hc : c.Formed) (h : s.Sound) {v : Value}
    (copied : copyChart c s = .ok (v, t)) :
    t.Sound ∧ s.Grows t ∧ ∃ m, v = .ofNode m ∧ c.kindOf = .ok m.kind ∧ m.StandsIn t := by
  induction hc generalizing s t v with
  | @node id n children child nodes node? shaped listed wrapped seats kinds kind _ _ ih_children
      ih_child =>
    obtain ⟨spec, q, vs, r, w, u, copySpec, charts, inner, rfl, rfl⟩ := copyChart_node copied
    obtain ⟨shaped', kind_eq, nodes_eq⟩ := copySpec_shaped shaped copySpec
    obtain ⟨sound, grows, copies, rfl, copied_kinds, stand⟩ := copyCharts_sound
      (fun c hc _ _ _ sound => ih_children c hc sound) (h.of_nodes_eq nodes_eq) charts
    have grown : s.Grows r := (Grows.of_nodes_eq nodes_eq).trans grows
    have same : copies.map NodeRef.kind = nodes.map NodeRef.kind :=
      (List.map_inj_right fun _ _ => Except.ok.inj).1 (copied_kinds.symm.trans kinds)
    cases child with
    | none =>
      cases inner
      have empty : node? = none := by
        cases node? with
        | none => rfl
        | some m => cases kind
      subst empty
      have fits : spec.kind.Seats copies none := kind_eq ▸ seats.of_kinds same rfl
      exact ⟨sound.add_seated shaped' fits stand (fun m hm => by cases hm),
        grown.trans (grows_add r _), _, rfl, congrArg Except.ok kind_eq.symm, stands_add ..⟩
    | some c =>
      obtain ⟨sound', grows', m, made, kind', stands⟩ := ih_child c rfl sound inner
      -- The copy stands in the place of a node of its kind, so it seats where that did.
      have single : (some m).map NodeRef.kind = node?.map NodeRef.kind := by
        cases node? with
        | none => cases kind
        | some l =>
          have kinds := (Option.some.inj kind).symm.trans kind'
          exact congrArg some (Except.ok.inj kinds).symm
      have made : w = ((some m).map Value.ofNode).getD .null := made
      subst made
      have fits : spec.kind.Seats copies (some m) := kind_eq ▸ seats.of_kinds same single
      exact ⟨sound'.add_seated shaped' fits (fun m hm => grows'.stands (stand m hm))
          (fun l hl => by cases hl; exact stands),
        (grown.trans grows').trans (grows_add u _), _, rfl, congrArg Except.ok kind_eq.symm,
        stands_add ..⟩

end Store

/-! ### Sessions -/

namespace Session

/-- A call on a node of the proper shape changes this node only. -/
theorem call_eq {s : Session} {id : Nat} {n : Node} (found : s.store.node? id = some n)
    (shaped : n.Shaped) (c : Call) : s.call id c =
      ((c.answer n).map fun _ => none, { s with store := s.store.set id (c.on n) }) := by
  have unshared := (c.shaped_on shaped).spec.unshared
  have channels := (c.shaped_on shaped).spec.channels_once
  simp only [Call.on] at unshared channels
  simp only [call, found, Call.answer, Call.on]
  cases run : c.edit.run n with
  | ok _ m =>
    rw [run] at unshared channels
    exact congrArg (Prod.mk _)
      (edited_of_unshared s id unshared channels (c.paths_isCallPath m.kind))
  | error reason m =>
    rw [run] at unshared channels
    exact congrArg (Prod.mk _)
      (edited_of_unshared s id unshared channels (c.pathsRefused_isCallPath m))

end Session

def Step.kind? (s : Store) : Step → Option Kind
  | .make construction => construction.kind?
  | .copy id _ => (s.node? id).map (·.kind)
  | _ => none

namespace Session

variable {s : Session}

theorem copied_sound {s t : Store} (h : s.Sound) {id : Nat} {recursive : Bool}
    {answer : Option NodeRef} (done : copied s id recursive = .ok (answer, t)) :
    t.Sound ∧ s.Grows t ∧
      ∀ m, answer = some m → m.StandsIn t ∧ (s.node? id).map (·.kind) = some m.kind := by
  cases copying_of_copied done with
  | noChart | noNode => exact ⟨h, .refl s, fun m hm => by cases hm⟩
  | @chart c v _ unfolded copy =>
    obtain ⟨sound, grows, m, rfl, kind, stands⟩ :=
      Store.copyChart_sound (h.unfold_formed unfolded) h copy
    refine ⟨sound, grows, fun l hl => ?_⟩
    cases (Store.node?_ofNode m).symm.trans hl
    obtain ⟨n, _, _, found, _⟩ := Store.unfold_top unfolded
    have kinds := (h.kindOf_unfold found unfolded).symm.trans kind
    rw [found]
    exact ⟨stands, congrArg some (Except.ok.inj kinds)⟩
  | node found copy =>
    obtain ⟨sound, grows, stands, kind⟩ := Store.copyNode_sound h found copy
    refine ⟨sound, grows, fun m hm => ?_⟩
    cases hm
    rw [found]
    exact ⟨stands, congrArg some kind.symm⟩

/-- A proper step keeps a store sound and lets it grow, and a node that it answers with is in the
store with the kind that was to be made. -/
theorem step_sound (h : s.store.Sound) {step : Step} (proper : step.Proper s.store) :
    (s.step step).2.store.Sound ∧ s.store.Grows (s.step step).2.store ∧
      ∀ m, (s.step step).1 = .ok (some m) →
        m.StandsIn (s.step step).2.store ∧ step.kind? s.store = some m.kind := by
  cases proper with
  | @make construction given =>
    rw [Session.step]
    cases built : construction.build s.schemaUrl with
    | error reason => exact ⟨h, .refl _, fun m hm => by cases hm⟩
    | ok n =>
      obtain ⟨shaped, kind, inner⟩ := Construction.build_shaped built
      refine ⟨h.add shaped fun m hm => given m (inner m hm), Store.grows_add _ _, fun m hm => ?_⟩
      cases hm
      exact ⟨Store.stands_add .., kind⟩
  | @call id call given =>
    rw [Session.step]
    cases found : s.store.node? id with
    | none =>
      rw [Session.call, found]
      exact ⟨h, .refl _, fun m hm => by cases hm⟩
    | some n =>
      obtain ⟨shaped, inner⟩ := h id n found
      have kind := call.kind_on shaped
      rw [call_eq found shaped]
      refine ⟨h.set found kind (call.shaped_on shaped) fun m hm => ?_,
        Store.grows_set found kind, fun m hm => ?_⟩
      · exact (call.innerNodes_on shaped hm).elim (inner m) (given m)
      · cases answer : call.answer n <;> rw [answer] at hm <;> cases hm
  | copy id recursive =>
    rw [Session.step, copy]
    cases done : copied s.store id recursive with
    | error reason => exact ⟨h, .refl _, fun m hm => by cases hm⟩
    | ok r =>
      obtain ⟨sound, grows, made⟩ := copied_sound h done
      exact ⟨sound, grows, fun m hm => made m (Except.ok.inj hm)⟩
  | configure settings => exact ⟨h, .refl _, fun m hm => by cases hm⟩

theorem run_append (s : Session) (steps more : List Step) :
    s.run (steps ++ more) = (s.run steps).run more :=
  List.foldl_append

theorem Proper.append {steps more : List Step} (proper : s.Proper (steps ++ more)) :
    s.Proper steps ∧ (s.run steps).Proper more := by
  induction steps generalizing s with
  | nil => exact ⟨trivial, proper⟩
  | cons step steps ih =>
    obtain ⟨here, later⟩ := ih proper.2
    exact ⟨⟨proper.1, here⟩, later⟩

theorem run_sound (h : s.store.Sound) {steps : List Step} (proper : s.Proper steps) :
    (s.run steps).store.Sound ∧ s.store.Grows (s.run steps).store := by
  induction steps generalizing s with
  | nil => exact ⟨h, .refl _⟩
  | cons step steps ih =>
    obtain ⟨sound, grows, _⟩ := step_sound h proper.1
    obtain ⟨sound', grows'⟩ := ih sound proper.2
    exact ⟨sound', grows.trans grows'⟩

end Session

/-- After proper steps every node has the shape of its kind, and its inner nodes are in the store
as nodes of the kinds that it may have there; nodes stay with their kinds from the step on that
makes them, and that is the kind that the step was to make. -/
theorem every_node_shaped (settings : Settings) (steps : List Step)
    (proper : (Session.start settings).Proper steps) :
    let final := ((Session.start settings).run steps).store
    (∀ id n, final.node? id = some n → n.Shaped ∧ ∀ m ∈ n.innerNodes, m.StandsIn final) ∧
    (∀ done rest, steps = done ++ rest →
      ((Session.start settings).run done).store.Grows final) ∧
    ∀ done step rest m, steps = done ++ step :: rest →
      (((Session.start settings).run done).step step).1 = .ok (some m) →
        m.StandsIn final ∧ step.kind? ((Session.start settings).run done).store = some m.kind := by
  have empty : (Session.start settings).store.Sound := Store.empty_sound
  refine ⟨(Session.run_sound empty proper).1, ?_, ?_⟩
  · rintro done rest rfl
    obtain ⟨before, after⟩ := Session.Proper.append proper
    rw [Session.run_append]
    exact (Session.run_sound (Session.run_sound empty before).1 after).2
  · rintro done step rest m rfl made
    obtain ⟨before, after⟩ := Session.Proper.append proper
    have sound := (Session.run_sound empty before).1
    obtain ⟨sound', _, making⟩ := Session.step_sound sound after.1
    obtain ⟨stands, kind⟩ := making m made
    rw [Session.run_append]
    exact ⟨(Session.run_sound sound' after.2).2.stands stands, kind⟩

/-- A repeat of a unit with a bound row; it refuses a mark, is copied with its unit, and then loses
the row. -/
def copyingSteps : List Step :=
  [.unit ⟨.object 0, .string "a.csv"⟩ [], .around .repeated [⟨0, .unit⟩],
    .call 1 (.bindAxis .row "y" (.list ["u", "v"])), .call 1 (.mark "bar" []), .copy 1 true,
    .call 1 (.bindAxis .row .null (.tuple []))]

theorem copyingSteps_proper : (Session.start .unset).Proper copyingSteps := by
  refine ⟨.make (Store.none_stand _), .make fun m hm => ?_, .call 1 (Store.none_stand _),
    .call 1 (Store.none_stand _), .copy 1 true, .call 1 (Store.none_stand _), trivial⟩
  cases List.mem_singleton.1 hm
  exact ⟨_, rfl, rfl⟩

theorem every_node_shaped_of_copied : (Session.start .unset).Proper copyingSteps ∧
    ∃ n, ((Session.start .unset).run copyingSteps).store.node? 3 = some n ∧ n.kind = .repeated ∧
      n.repeatChannels = .dict [("row", "y")] ∧ n.innerNodes = [⟨2, .unit⟩] ∧ n.Shaped ∧
      ∀ m ∈ n.innerNodes, m.StandsIn ((Session.start .unset).run copyingSteps).store := by
  obtain ⟨n, found, kind, channels, inner⟩ : ∃ n,
      ((Session.start .unset).run copyingSteps).store.node? 3 = some n ∧ n.kind = .repeated ∧
        n.repeatChannels = .dict [("row", "y")] ∧ n.innerNodes = [⟨2, .unit⟩] :=
    ⟨_, rfl, rfl, rfl, rfl⟩
  exact ⟨copyingSteps_proper, n, found, kind, channels, inner,
    (every_node_shaped .unset copyingSteps copyingSteps_proper).1 3 n found⟩

end ChartTree
