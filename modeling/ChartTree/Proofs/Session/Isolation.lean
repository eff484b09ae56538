import ChartTree.Proofs.Node.Objects
import ChartTree.Proofs.Session.Copying

/-!
# Nodes that are worked on

The nodes of a session are told apart into those that are worked on and the others, and every list
and every dictionary that a caller hands over for a place that a path leads into is meant for the
ones or for the others; a copy of it belongs to the node that was made on the occasion of the copy.
In a session that keeps to this, whatever a write can change in a node that is worked on is nowhere
in the others. So a step that is addressed to a node that is worked on, whatever such nodes share,
leaves the others as they are.
-/

namespace ChartTree

/-! ### Owners -/

namespace Identity

/-- Whether an object belongs to the nodes that are worked on or to the others, if it belongs to
any: an object of the caller to those that it is given to, and a copy of what belongs to some nodes
to the node made on its occasion. -/
def owner (given : Nat → Option Bool) (made : Nat → Bool) : Identity → Option Bool
  | .object number => given number
  | .node _ => none
  | .copy source occasion => (owner given made source).map fun _ => made occasion

/-- An object belongs to no nodes: neither it nor what it is a copy of is given to any. -/
def Free (given : Nat → Option Bool) : Identity → Prop
  | .object number => given number = none
  | .node _ => True
  | .copy source _ => source.Free given

/-- An object is not given to the nodes that are worked on. -/
def Spared (given : Nat → Option Bool) (i : Identity) : Prop :=
  i.Free given ∨ ∃ number, i = .object number ∧ given number = some false

/-- An object was made before an occasion for copying. -/
def Before (occasion : Nat) : Identity → Prop
  | .object _ | .node _ => True
  | .copy source made => made < occasion ∧ source.Before occasion

variable {given : Nat → Option Bool} {made made' : Nat → Bool} {k k' : Nat} {i : Identity}

theorem Before.mono (h : i.Before k) (le : k ≤ k') : i.Before k' := by
  induction i with
  | object number => trivial
  | node number => trivial
  | copy source occasion ih => exact ⟨Nat.lt_of_lt_of_le h.1 le, ih h.2⟩

/-- The owners of objects are settled by the occasions so far. -/
theorem Before.owner_congr (h : i.Before k) (agree : ∀ j < k, made' j = made j) :
    i.owner given made' = i.owner given made := by
  induction i with
  | object number => rfl
  | node number => rfl
  | copy source occasion ih => rw [owner, owner, ih h.2, agree occasion h.1]

theorem Free.owner (h : i.Free given) : i.owner given made = none := by
  induction i with
  | object number => exact h
  | node number => rfl
  | copy source occasion ih => rw [Identity.owner, ih h, Option.map_none]

theorem Spared.owner (h : i.Spared given) : i.owner given made ≠ some true := by
  rcases h with free | ⟨number, rfl, other⟩
  · exact free.owner ▸ nofun
  · exact fun same => nomatch other.symm.trans same

end Identity

/-- What a write can change in an object that a caller hands over to a node belongs to such nodes,
and where no path leads, the other nodes are handed over nothing that belongs to those that are
worked on. What is handed over is no copy that a node holds. -/
def HandedTo (given : Nat → Option Bool) (worked : Bool) : Rule where
  sorts
    | .object number, changes => given number = if changes then some worked else none
    | .node _, changes => changes = false
    | .copy .., _ => False
  holds
    | .object number => worked = false → given number ≠ some true
    | .node _ => True
    | .copy .. => False
  holds_of_sorts := by
    rintro (number | number | ⟨source, occasion⟩) changes h
    · rintro rfl
      rw [show given number = _ from h]
      cases changes <;> exact fun same => nomatch same
    · trivial
    · exact h

/-- An object in a node belongs to such nodes if a write can change something in it. Where no path
leads, the other nodes hold nothing that belongs to those that are worked on. -/
def Belongs (given : Nat → Option Bool) (made : Nat → Bool) (occasions : Nat) (worked : Bool) :
    Rule where
  sorts i changes :=
    i.Before occasions ∧ i.owner given made = if changes then some worked else none
  holds i := i.Before occasions ∧ (worked = false → i.owner given made ≠ some true)
  holds_of_sorts i changes h := by
    refine ⟨h.1, ?_⟩
    rintro rfl
    rw [h.2]
    cases changes <;> exact fun same => nomatch same

variable {given : Nat → Option Bool} {made made' worked : Nat → Bool} {k k' id : Nat}
  {here there : Bool} {i : Identity} {b : Bool}

namespace Belongs

theorem node (number : Nat) : Belongs given made k here (.node number) false :=
  ⟨trivial, rfl⟩

theorem ofHandedTo : (HandedTo given here).Implies (Belongs given made k here) where
  sorts
    | .object _, _, h => ⟨trivial, h⟩
    | .node _, _, h => ⟨trivial, h ▸ rfl⟩
    | .copy .., _, h => h.elim
  holds
    | .object _, h => ⟨trivial, h⟩
    | .node _, _ => ⟨trivial, fun _ same => nomatch same⟩
    | .copy .., h => h.elim

theorem later (le : k ≤ k') (agree : ∀ j < k, made' j = made j) :
    (Belongs given made k here).Implies (Belongs given made' k' here) where
  sorts _ _ h := ⟨h.1.mono le, (h.1.owner_congr agree).trans h.2⟩
  holds _ h := ⟨h.1.mono le, fun other => h.1.owner_congr agree ▸ h.2 other⟩

theorem elsewhere (h : Belongs given made k here i false) : Belongs given made k there i false :=
  h

/-- A copy of what belongs to some nodes belongs to the node made on the occasion. -/
theorem copy (h : Belongs given made k here i b) {occasion : Nat} (lt : occasion < k)
    (eq : made occasion = there) : Belongs given made k there (.copy i occasion) b := by
  refine ⟨⟨lt, h.1⟩, ?_⟩
  rw [Identity.owner, h.2, ← eq]
  cases b <;> rfl

theorem decides : (Belongs given made k here).Decides := by
  intro i b b' h h'
  have same := h.2.symm.trans h'.2
  cases b <;> cases b' <;> first | rfl | cases same

/-- A write to some nodes changes nothing that a path leads to in the others. -/
theorem unsorted (h : Belongs given made k here i true) (ne : here ≠ there) :
    ¬Belongs given made k there i b := by
  intro h'
  have same := h.2.symm.trans h'.2
  cases b with
  | false => cases same
  | true => exact ne (Option.some.inj same)

/-- What a write to the nodes that are worked on can change is nowhere in the others. -/
theorem foreign (h : Belongs given made k true i true) : ¬(Belongs given made k false).holds i :=
  fun held => held.2 rfl h.2

/-- Nodes that are worked on may hold anything where no path leads. -/
theorem holds_of_holds (h : (Belongs given made k here).holds i) :
    (Belongs given made k true).holds i :=
  ⟨h.1, fun other => nomatch other⟩

theorem holds_of_spared (h : (Belongs given made k here).holds i) (spared : i.Spared given) :
    (Belongs given made k there).holds i :=
  ⟨h.1, fun _ => spared.owner⟩

end Belongs

/-! ### Stores in which nodes have their own objects -/

namespace Store

variable {s t u : Store}

/-- Whatever a write can change in a node belongs to such nodes. -/
def Owned (given : Nat → Option Bool) (made worked : Nat → Bool) (s : Store) : Prop :=
  ∀ id n, s.node? id = some n → n.Sorted (Belongs given made s.occasions (worked id))

/-- What was done to a node has left the nodes of a store with their own objects, and if the node is
worked on, it has left those as they are that are not. -/
structure KeepsTo (given : Nat → Option Bool) (made worked : Nat → Bool) (here : Bool)
    (s t : Store) : Prop where
  owned : t.Owned given made worked
  size : t.size = s.size
  occasions : t.occasions = s.occasions
  nodes : here = true → ∀ id, worked id = false → t.node? id = s.node? id

theorem KeepsTo.refl (owned : s.Owned given made worked) : s.KeepsTo given made worked here s :=
  ⟨owned, rfl, rfl, fun _ _ _ => rfl⟩

theorem KeepsTo.trans (h : s.KeepsTo given made worked here t)
    (h' : t.KeepsTo given made worked here u) : s.KeepsTo given made worked here u where
  owned := h'.owned
  size := h'.size.trans h.size
  occasions := h'.occasions.trans h.occasions
  nodes := fun yes id other => (h'.nodes yes id other).trans (h.nodes yes id other)

theorem keepsTo_foldl {β : Type} {f : Store → β → Store} {bs : List β}
    (each : ∀ b ∈ bs, ∀ s : Store, s.occasions = k → s.Owned given made worked →
      s.KeepsTo given made worked here (f s b))
    (occasions : s.occasions = k) (owned : s.Owned given made worked) :
    s.KeepsTo given made worked here (bs.foldl f s) := by
  induction bs generalizing s with
  | nil => exact .refl owned
  | cons b bs ih =>
    obtain ⟨first, rest⟩ := List.forall_mem_cons.1 each
    have one := first s occasions owned
    exact one.trans (ih rest (one.occasions.trans occasions) one.owned)

theorem owned_empty : Store.empty.Owned given made worked := by
  intro id n found
  simp [node?, Store.empty] at found

theorem Owned.set (h : s.Owned given made worked) {n : Node}
    (hn : n.Sorted (Belongs given made s.occasions (worked id))) :
    s.KeepsTo given made worked (worked id) (s.set id n) where
  owned := by
    intro other m found
    rcases node?_set found with ⟨rfl, rfl⟩ | found
    · exact hn
    · exact h other m found
  size := Array.size_setIfInBounds
  occasions := rfl
  nodes := by
    intro yes other no
    rw [node?, Store.set, Array.getElem?_setIfInBounds]
    refine if_neg ?_
    rintro rfl
    exact Bool.noConfusion (yes.symm.trans no)

/-- A change of an object reaches nodes of those that it belongs to, and, where no path leads, such
as are worked on. -/
theorem Owned.renew (h : s.Owned given made worked) {object : Identity} {change : Value → Value}
    (changing : Value.Changing (Belongs given made s.occasions here) object change)
    (holding : Value.Holding (Belongs given made s.occasions here) change)
    (worked_holding : Value.Holding (Belongs given made s.occasions true) change) :
    s.KeepsTo given made worked here (s.renew object change) := by
  have stands (id : Nat) : (s.renew object change).node? id =
      (s.node? id).map (Node.renewed object change) := Array.getElem?_map
  have same {id : Nat} {n : Node} (found : s.node? id = some n) (yes : here = true)
      (no : worked id = false) : n.renewed object change = n := by
    subst yes
    have sorted := h id n found
    rw [no] at sorted
    exact sorted.renewed_of_foreign (Belongs.foreign changing.changing)
  refine ⟨fun id n found => ?_, Array.size_map, rfl, fun yes id no => ?_⟩
  · rw [stands] at found
    obtain ⟨m, there, rfl⟩ := Option.map_eq_some_iff.1 found
    have sorted := h id m there
    by_cases this : worked id = here
    · rw [this] at sorted ⊢
      exact sorted.renewed holding fun v hv => (hv.renewed Belongs.decides changing).2
    · cases yes : here with
      | true =>
        rw [same there yes (by simpa [yes] using this)]
        exact sorted
      | false =>
        have own : worked id = true := by simpa [yes] using this
        have unsorted (b : Bool) : ¬Belongs given made s.occasions (worked id) object b :=
          Belongs.unsorted changing.changing (Ne.symm this)
        refine sorted.renewed (own.symm ▸ worked_holding) fun v hv => ?_
        rw [hv.renewed_of_unsorted unsorted]
        exact hv
  · rw [stands]
    cases found : s.node? id with
    | none => rfl
    | some n => rw [Option.map_some, same found yes no]

theorem Owned.putContent (h : s.Owned given made worked) {v : Value}
    (sorted : v.Sorted (Belongs given made s.occasions here)) (changes : v.changes = true) :
    s.KeepsTo given made worked here (s.putContent v) := by
  have everywhere := sorted.within.imp fun _ => Belongs.holds_of_holds
  rw [Store.putContent]
  split
  · exact h.renew (sorted.changing_content Belongs.decides changes ‹_›)
      (fun _ _ => sorted.within) fun _ _ => everywhere
  · exact .refl h

theorem Owned.putEntry (h : s.Owned given made worked) {e : Value × String}
    (sorted : e.1.Sorted (Belongs given made s.occasions here)) (changes : e.1.changes = true) :
    s.KeepsTo given made worked here (s.putEntry e) := by
  have everywhere := sorted.within.imp fun _ => Belongs.holds_of_holds
  rw [Store.putEntry]
  split
  · exact h.renew (sorted.changing_entry changes ‹_› e.2) (sorted.within.holding_entry e.2)
      (everywhere.holding_entry e.2)
  · exact .refl h

/-! ### Copies -/

/-- What a node that is worked on, or one that is not, has in common with a copy where it is the
other way round: no channel in which a write can change something, and nothing given to the nodes
that are worked on if the copy is not. -/
def Impartial (given : Nat → Option Bool) (worked : Bool) (n : Node) : Prop :=
  n.toSpec.BindsPlainly ∧ (worked = false → n.Common fun v => ∀ i ∈ v.ids, i.Spared given)

theorem Owned.continues (h : s.Owned given made worked) (later : s.Continues t)
    (agree : ∀ k < s.occasions, made' k = made k)
    (fresh : ∀ id n, s.size ≤ id → t.node? id = some n →
      n.Sorted (Belongs given made' t.occasions (worked id))) : t.Owned given made' worked := by
  intro id n found
  by_cases lt : id < s.size
  · have old := h id n ((later.nodes id lt).symm.trans found)
    exact old.imp (Belongs.later later.occasions agree)
  · exact fresh id n (Nat.le_of_not_lt lt) found

theorem Owned.add (h : s.Owned given made worked) {n : Node}
    (hn : n.Sorted (Belongs given made s.occasions (worked s.size))) :
    (s.add n).2.Owned given made worked := by
  refine h.continues (continues_add s n) (fun _ _ => rfl) fun id m le found => ?_
  rcases node?_add s n found with ⟨rfl, rfl⟩ | found
  · exact hn
  · exact absurd (node?_lt found) (Nat.not_lt.2 le)

/-- A node that can be copied to new ones: what can change in it belongs to nodes like them, unless
what it has in common with them is impartial. -/
def Separable (given : Nat → Option Bool) (made worked : Nat → Bool) (occasions old new : Nat)
    (n : Node) : Prop :=
  ∃ here, n.Sorted (Belongs given made occasions here) ∧
    ∀ j, old ≤ j → j < new → worked j = here ∨ Impartial given (worked j) n

/-- What a node has in common with its copies may stand in these as well. -/
theorem Separable.common {old new : Nat} {n : Node} (h : Separable given made worked k old new n)
    {j : Nat} (above : old ≤ j) (below : j < new) :
    n.Common (Value.Within (Belongs given made k (worked j))) := by
  obtain ⟨source, sorted, apart⟩ := h
  rcases apart j above below with same | impartial
  · exact same ▸ sorted.common
  · cases target : worked j with
    | true =>
      exact sorted.common.imp₂ sorted.common fun v held _ =>
        held.imp fun _ => Belongs.holds_of_holds
    | false =>
      exact sorted.common.imp₂ (impartial.2 target) fun v held spared i hi =>
        Belongs.holds_of_spared (held i hi) (spared i hi)

/-- The copy of a node around its own parts has its own objects. -/
theorem Separable.copied {old new : Nat} {n : Node} (h : Separable given made worked k old new n)
    (above : old ≤ id) (below : id < new) {first : Nat} (le : k ≤ first) (lt : first + 2 ≤ k')
    (agree : ∀ j < k, made' j = made j)
    (now : made' first = worked id ∧ made' (first + 1) = worked id) {spec : Spec}
    (copy : n.toSpec.copied (some first) (some (first + 1)) = .ok spec) {children child : Value}
    (hchildren : children.Within (Belongs given made' k' (worked id)))
    (hchild : child.Within (Belongs given made' k' (worked id))) :
    Node.Sorted (Belongs given made' k' (worked id)) ⟨spec, children, child⟩ := by
  have common : n.data.Common (Value.Within (Belongs given made' k' (worked id))) :=
    (h.common above below).1.imp fun v held => held.imp (Belongs.later (by omega) agree).holds
  obtain ⟨source, sorted, apart⟩ := h
  have kept (i : Identity) (b : Bool) (belongs : Belongs given made k source i b) :
      Belongs given made' k' source i b := (Belongs.later (by omega) agree).sorts i b belongs
  have fresh (i : Identity) (b : Bool) (belongs : Belongs given made k source i b) :
      Belongs given made' k' (worked id) (.copy i first) b ∧
        Belongs given made' k' (worked id) (.copy i (first + 1)) b :=
    ⟨Belongs.copy (kept i b belongs) (by omega) now.1,
      Belongs.copy (kept i b belongs) (by omega) now.2⟩
  have lasting (i : Identity) (belongs : Belongs given made k source i false) :
      Belongs given made' k' (worked id) i false := Belongs.elsewhere (kept i false belongs)
  have plain : n.toSpec.BindsPlainly ∨
      ∀ i b, Belongs given made k source i b → Belongs given made' k' (worked id) i b := by
    rcases apart id above below with same | impartial
    · exact .inr fun i b belongs => same ▸ kept i b belongs
    · exact .inl impartial.1
  exact ⟨sorted.spec.copied plain common lasting fresh copy, hchildren, hchild⟩

/-- Whether the node made on each occasion is worked on, with two occasions more. -/
def madeWith (made : Nat → Bool) (first : Nat) (here : Bool) (occasion : Nat) : Bool :=
  if occasion = first ∨ occasion = first + 1 then here else made occasion

theorem madeWith_of_lt {first occasion : Nat} (lt : occasion < first) :
    madeWith made first here occasion = made occasion :=
  if_neg (by omega)

/-- What copying leaves: values that may stand in every new node, and new nodes with objects of
their own sides. -/
def CopiesApart (given : Nat → Option Bool) (made worked : Nat → Bool) (old new : Nat)
    (s t : Store) (vs : List Value) : Prop :=
  ∃ made', (∀ k < s.occasions, made' k = made k) ∧
    (∀ v ∈ vs, ∀ j, old ≤ j → j < new → v.Within (Belongs given made' t.occasions (worked j))) ∧
      ∀ id n, s.size ≤ id → t.node? id = some n →
        n.Sorted (Belongs given made' t.occasions (worked id))

namespace CopiesApart

variable {vs ws : List Value} {old new : Nat}

theorem refl (h : ∀ v ∈ vs, ∀ j, old ≤ j → j < new →
      v.Within (Belongs given made s.occasions (worked j))) :
    CopiesApart given made worked old new s s vs :=
  ⟨made, fun _ _ => rfl, h, fun _ _ le found => absurd (node?_lt found) (Nat.not_lt.2 le)⟩

theorem append (h : CopiesApart given made worked old new s t vs) (first : s.Continues t)
    (second : t.Continues u) (h' : ∀ made', (∀ k < s.occasions, made' k = made k) →
      CopiesApart given made' worked old new t u ws) :
    CopiesApart given made worked old new s u (vs ++ ws) := by
  obtain ⟨made', agree, values, nodes⟩ := h
  obtain ⟨made'', agree', values', nodes'⟩ := h' made' agree
  refine ⟨made'', fun k lt => ?_, fun v mem j above below => ?_, fun id n le found => ?_⟩
  · exact (agree' k (Nat.lt_of_lt_of_le lt first.occasions)).trans (agree k lt)
  · rcases List.mem_append.1 mem with old | new
    · exact (values v old j above below).imp (Belongs.later second.occasions agree').holds
    · exact values' v new j above below
  · by_cases lt : id < t.size
    · have old := nodes id n le ((second.nodes id lt).symm.trans found)
      exact old.imp (Belongs.later second.occasions agree')
    · exact nodes' id n (Nat.le_of_not_lt lt) found

end CopiesApart

variable {base : Nat → Bool} {low old new : Nat}

theorem copyCharts_apart {cs : List Chart}
    (each : ∀ c ∈ cs, ∀ {made : Nat → Bool} {s t : Store}, low ≤ s.occasions →
      (∀ k < low, made k = base k) → old ≤ s.size → t.size ≤ new →
        ∀ {v : Value}, copyChart c s = .ok (v, t) → CopiesApart given made worked old new s t [v])
    (above : low ≤ s.occasions) (agree : ∀ k < low, made k = base k) (least : old ≤ s.size)
    (most : t.size ≤ new) {vs : List Value} (h : copyCharts cs s = .ok (vs, t)) :
    CopiesApart given made worked old new s t vs := by
  induction cs generalizing made s vs with
  | nil =>
    rw [copyCharts] at h
    cases h
    exact .refl (List.forall_mem_nil _)
  | cons c cs ih =>
    obtain ⟨v, q, rest, first, others, rfl⟩ := copyCharts_cons h
    have before := copyChart_continues c first
    have after := copyCharts_continues cs others
    have apart := each c (List.mem_cons_self ..) above agree least (after.size.trans most) first
    refine apart.append before after fun made' same => ?_
    exact ih (fun c hc => each c (List.mem_cons_of_mem _ hc))
      (Nat.le_trans above before.occasions)
      (fun k lt => (same k (Nat.lt_of_lt_of_le lt above)).trans (agree k lt))
      (least.trans before.size) others

theorem copyChart_apart {c : Chart}
    (each : c.Each (Separable given base worked low old new) fun v =>
      ∀ j, old ≤ j → j < new → v.Within (Belongs given base low (worked j)))
    (above : low ≤ s.occasions) (agree : ∀ k < low, made k = base k) (least : old ≤ s.size)
    (most : t.size ≤ new) {v : Value} (h : copyChart c s = .ok (v, t)) :
    CopiesApart given made worked old new s t [v] := by
  induction each generalizing made s t v with
  | other other =>
    obtain ⟨copied, rfl⟩ := copyChart_other h
    refine .refl (List.forall_mem_singleton.2 fun j lower upper => ?_)
    exact (Value.Within.selfCopy (other j lower upper) copied).imp
      (Belongs.later above agree).holds
  | @node id n cs c? separable _ _ ih_children ih_child =>
    obtain ⟨spec, q, vs, r, w, u, copySpec, charts, child, rfl, rfl⟩ := copyChart_node h
    obtain ⟨copied, rfl⟩ := copySpec_ok copySpec
    have listed := copyCharts_continues cs charts
    have wrapped := copyChild_continues c? child
    have number : u.size < new := Nat.lt_of_lt_of_le (by simp [size, add]) most
    -- The number of the new node is known only after its parts have been copied.
    let made₁ := madeWith made s.occasions (worked u.size)
    have agree₁ (k : Nat) (lt : k < low) : made₁ k = base k :=
      (madeWith_of_lt (Nat.lt_of_lt_of_le lt above)).trans (agree k lt)
    let q : Store := { s with occasions := s.occasions + 2 }
    have above₁ : low ≤ q.occasions := Nat.le_add_right_of_le above
    have parts : CopiesApart given made₁ worked old new q u (vs ++ [w]) := by
      have first : CopiesApart given made₁ worked old new q r vs :=
        copyCharts_apart (fun c hc _ _ _ => ih_children c hc) above₁ agree₁ least
          (wrapped.size.trans number.le) charts
      refine first.append listed wrapped fun made' same => ?_
      have agree' (k : Nat) (lt : k < low) : made' k = base k :=
        (same k (Nat.lt_of_lt_of_le lt above₁)).trans (agree₁ k lt)
      cases c? with
      | none =>
        cases child
        exact .refl (List.forall_mem_singleton.2 fun _ _ _ => Value.within_null)
      | some c =>
        exact ih_child c rfl (Nat.le_trans above₁ listed.occasions) agree'
          (least.trans listed.size) number.le child
    obtain ⟨made₂, same, values, nodes⟩ := parts
    have occasions : s.occasions + 2 ≤ u.occasions :=
      Nat.le_trans listed.occasions wrapped.occasions
    have now : made₂ s.occasions = worked u.size ∧ made₂ (s.occasions + 1) = worked u.size :=
      ⟨(same _ (by simp [q])).trans (if_pos (.inl rfl)),
        (same _ (by simp [q])).trans (if_pos (.inr rfl))⟩
    have agree₂ (k : Nat) (lt : k < low) : made₂ k = base k :=
      (same k (by simp only [q]; omega)).trans (agree₁ k lt)
    refine ⟨made₂, fun k lt => ?_, ?_, fun id m le found => ?_⟩
    · exact (same k (by simp only [q]; omega)).trans (madeWith_of_lt lt)
    · exact List.forall_mem_singleton.2 fun _ _ _ =>
        List.forall_mem_singleton.2 (Rule.holds_of_sorts _ _ false (Belongs.node u.size))
    · rcases node?_add u _ found with ⟨rfl, rfl⟩ | found
      · have least' : old ≤ u.size := (least.trans listed.size).trans wrapped.size
        have children := Value.within_newList fun v hv =>
          values v (List.mem_append_left _ hv) u.size least' number
        have child :=
          values w (List.mem_append_right _ (List.mem_singleton_self w)) u.size least' number
        exact separable.copied least' number above occasions agree₂ now copied children child
      · exact nodes id m le found

/-- The nodes that a copy makes are like a node that it copies, or what it has in common with them
is impartial. -/
def Divides (given : Nat → Option Bool) (worked : Nat → Bool) (s t : Store) (i : Nat) : Prop :=
  ∀ n, s.node? i = some n → ∀ j, s.size ≤ j → j < t.size →
    worked j = worked i ∨ Impartial given (worked j) n

theorem Owned.copyChart (h : s.Owned given made worked) {c : Chart} {fuel : Nat}
    (unfolded : s.unfold fuel id = some c) {v : Value} (done : s.copyChart c = .ok (v, t))
    (divides : ∀ i ∈ c.ids, s.Divides given worked t i) : ∃ made', t.Owned given made' worked := by
  have each : c.Each (Separable given made worked s.occasions s.size t.size) fun v =>
      ∀ j, s.size ≤ j → j < t.size → v.Within (Belongs given made s.occasions (worked j)) := by
    refine unfold_each unfolded
      (fun i hi n found => ⟨worked i, h i n found, divides i hi n found⟩) ?_ ?_
    · intro n separable v mem _ j lower upper
      rw [itemsIn] at mem
      split at mem
      · exact (separable.common lower upper).2.1.itemsOf ‹_› v mem
      · exact (List.not_mem_nil mem).elim
    · exact fun n separable _ _ j lower upper => (separable.common lower upper).2.2
  obtain ⟨made', agree, _, nodes⟩ := copyChart_apart each (Nat.le_refl _) (fun _ _ => rfl)
    (Nat.le_refl _) (Nat.le_refl _) done
  exact ⟨made', h.continues (copyChart_continues c done) agree nodes⟩

theorem Owned.copyNode (h : s.Owned given made worked) {n : Node} (found : s.node? id = some n)
    {spec : Spec} {items : List Value}
    (copied : n.toSpec.copied (some s.occasions) (some (s.occasions + 1)) = .ok spec)
    (listed : n.children.itemsOf = .ok items)
    (divides : s.Divides given worked (Store.add { s with occasions := s.occasions + 2 }
      ⟨spec, .list items, n.child⟩).2 id) :
    ∃ made', (Store.add { s with occasions := s.occasions + 2 }
      ⟨spec, .list items, n.child⟩).2.Owned given made' worked := by
  let q : Store := { s with occasions := s.occasions + 2 }
  let made' := madeWith made s.occasions (worked s.size)
  have agree (k : Nat) (lt : k < s.occasions) : made' k = made k := madeWith_of_lt lt
  have later : s.Continues q := continues_later s
  have owned : q.Owned given made' worked :=
    h.continues later agree fun _ _ le found => absurd (node?_lt found) (Nat.not_lt.2 le)
  have separable : Separable given made worked s.occasions s.size (s.size + 1) n := by
    refine ⟨worked id, h id n found, fun j le lt => divides n found j le ?_⟩
    rw [size, Store.add, Array.size_push]
    exact lt
  obtain ⟨_, held, inner⟩ := separable.common (Nat.le_refl _) (Nat.lt_succ_self _)
  have lasting {v : Value} (within : v.Within (Belongs given made s.occasions (worked s.size))) :
      v.Within (Belongs given made' q.occasions (worked s.size)) :=
    within.imp (Belongs.later later.occasions agree).holds
  have children := Value.within_newList fun v hv => lasting (held.itemsOf listed v hv)
  exact ⟨made', owned.add (separable.copied (Nat.le_refl _) (Nat.lt_succ_self _) (Nat.le_refl _)
    (Nat.le_refl _) agree ⟨if_pos (.inl rfl), if_pos (.inr rfl)⟩ copied children
    (lasting inner))⟩

/-! ### Nodes that stay as they are -/

/-- The nodes of a store that are not worked on are in another one, unchanged. -/
structure Spares (worked : Nat → Bool) (s t : Store) : Prop where
  size : s.size ≤ t.size
  nodes : ∀ id, id < s.size → worked id = false → t.node? id = s.node? id

namespace Spares

theorem refl (worked : Nat → Bool) (s : Store) : s.Spares worked s :=
  ⟨Nat.le_refl _, fun _ _ _ => rfl⟩

theorem trans (h : s.Spares worked t) (h' : t.Spares worked u) : s.Spares worked u where
  size := Nat.le_trans h.size h'.size
  nodes id lt other :=
    (h'.nodes id (Nat.lt_of_lt_of_le lt h.size) other).trans (h.nodes id lt other)

/-- A chart stays as it is if none of its nodes is worked on. -/
theorem chart? (h : s.Spares worked t) {c : Chart} (found : s.chart? id = some c)
    (other : ∀ i ∈ c.ids, worked i = false) : t.chart? id = some c := by
  refine unfold_of_agree found h.size fun i mem => ?_
  obtain ⟨n, here⟩ := node?_of_mem_ids found i mem
  exact h.nodes i (node?_lt here) (other i mem)

end Spares

theorem KeepsTo.spares (h : s.KeepsTo given made worked true t) : s.Spares worked t where
  size := Nat.le_of_eq h.size.symm
  nodes id _ other := h.nodes rfl id other

theorem Continues.spares (h : s.Continues t) (worked : Nat → Bool) : s.Spares worked t where
  size := h.size
  nodes id lt _ := h.nodes id lt

end Store

/-! ### Sessions -/

/-- The node that a step is addressed to. -/
def Step.target? : Step → Option Nat
  | .call id _ | .write id _ | .hold id .. => some id
  | _ => none

/-- What a step hands over, or takes hold of, is meant for the node that it makes or is addressed
to, and what a node has in common with a copy that is otherwise is impartial. -/
def Step.HandsOver (given : Nat → Option Bool) (worked : Nat → Bool) (s : Session) : Step → Prop
  | .make construction => construction.Sorted (HandedTo given (worked s.store.size))
  | .call id setter => setter.Sorted (HandedTo given (worked id))
  | .write id change => change.Sorted (HandedTo given (worked id))
  | .hold id _ _ number => given number = some (worked id)
  | .copy id true => ∀ c, s.store.chart? id = some c →
    ∀ i ∈ c.ids, s.store.Divides given worked (s.step (.copy id true)).2.store i
  | .copy id false => s.store.Divides given worked (s.step (.copy id false)).2.store id
  | .configure _ => True

namespace Session

variable {s : Session}

/-- Steps that hand over every list and every dictionary to nodes that are worked on, or to
others. -/
def HandsOver (given : Nat → Option Bool) (worked : Nat → Bool) (s : Session) : List Step → Prop
  | [] => True
  | step :: steps =>
    step.HandsOver given worked s ∧ HandsOver given worked (s.step step).2 steps

theorem handsOver_append {steps more : List Step} :
    s.HandsOver given worked (steps ++ more) ↔
      s.HandsOver given worked steps ∧ (s.run steps).HandsOver given worked more := by
  induction steps generalizing s with
  | nil => exact ⟨fun h => ⟨trivial, h⟩, And.right⟩
  | cons step steps ih =>
    constructor
    · intro h
      obtain ⟨here, later⟩ := ih.1 h.2
      exact ⟨⟨h.1, here⟩, later⟩
    · intro ⟨here, later⟩
      exact ⟨here.1, ih.2 ⟨here.2, later⟩⟩

theorem edited_keepsTo (owned : s.store.Owned given made worked) {n : Node}
    (sorted : n.Sorted (Belongs given made s.store.occasions (worked id)))
    (paths : List (Place × List String)) :
    s.store.KeepsTo given made worked (worked id) (s.edited id n paths).store := by
  have written := owned.set sorted
  refine written.trans (Store.keepsTo_foldl (fun e he t occasions owned => ?_)
    written.occasions written.owned)
  obtain ⟨held, changes⟩ := sorted.entriesAlong he
  rw [← occasions] at held
  exact owned.putEntry held changes

theorem call_keepsTo (owned : s.store.Owned given made worked) {c : Call}
    (sorted : c.Sorted (Belongs given made s.store.occasions (worked id))) :
    s.store.KeepsTo given made worked (worked id) (s.call id c).2.store := by
  rw [call]
  cases found : s.store.node? id with
  | none => exact .refl owned
  | some n =>
    have keeps := sorted.edit Belongs.node
    have before := owned id n found
    cases run : c.edit.run n with
    | ok _ m =>
      simp only [run]
      exact edited_keepsTo owned (keeps.of_ok before run) _
    | error reason m =>
      simp only [run]
      exact edited_keepsTo owned (keeps.of_error before run) _

theorem changed_keepsTo (owned : s.store.Owned given made worked) {change : Edit (List Value)}
    (leaves : ∀ n, s.store.node? id = some n →
      Edit.Leaves (Belongs given made s.store.occasions (worked id)) n change) :
    s.store.KeepsTo given made worked (worked id) (s.changed id change).2.store := by
  rw [changed]
  cases found : s.store.node? id with
  | none => exact .refl owned
  | some n =>
    have left := leaves n found
    rw [Edit.Leaves] at left
    simp only
    cases run : change.run n with
    | ok objects m =>
      rw [run] at left
      obtain ⟨node, objects_sorted⟩ := left
      have written := owned.set node
      refine written.trans (Store.keepsTo_foldl (fun v hv t occasions owned => ?_)
        written.occasions written.owned)
      obtain ⟨held, changes⟩ := objects_sorted v hv
      rw [← occasions] at held
      exact owned.putContent held changes
    | error reason m =>
      rw [run] at left
      subst left
      exact owned.set (owned id m found)

/-- A list or a dictionary that a path leads to in a node belongs to such nodes. -/
theorem belongs_of_valueAt (owned : s.store.Owned given made worked) {n : Node}
    (found : s.store.node? id = some n) {place : Place} {path : List Value} {part : Value}
    (leads : (Edit.valueAt n place >>= Value.partAt path) = .ok part)
    (collection : part.isCollection = true) {object : Identity}
    (same : part.identity? = some object) :
    Belongs given made s.store.occasions (worked id) object true := by
  have sorted := owned id n found
  obtain ⟨v, top, leads⟩ := bind_eq_ok_iff.1 leads
  have held := (Edit.valueAt_sorted sorted top).partAt leads
  exact Value.changes_of_isCollection collection ▸ held.identity object same

theorem hold_keepsTo (owned : s.store.Owned given made worked) {place : Place} {path : List Value}
    {number : Nat} (mine : given number = some (worked id)) :
    s.store.KeepsTo given made worked (worked id) (s.hold id place path number).2.store := by
  have fits : Belongs given made s.store.occasions (worked id) (.object number) true :=
    ⟨trivial, mine⟩
  rw [hold]
  cases found : s.store.node? id with
  | none => exact .refl owned
  | some n =>
    simp only
    cases leads : Edit.valueAt n place >>= Value.partAt path with
    | error reason => exact .refl owned
    | ok part =>
      simp only
      cases collection : part.isCollection with
      | false => exact .refl owned
      | true =>
        simp only [if_true]
        cases same : part.identity? with
        | none =>
          refine changed_keepsTo owned fun m there => ?_
          cases found.symm.trans there
          exact Edit.named_leaves (owned id n found) leads collection fits
        | some object =>
          cases object with
          | object number => exact .refl owned
          | node number => exact .refl owned
          | copy source occasion =>
            have changing := belongs_of_valueAt owned found leads collection same
            have everywhere := Belongs.holds_of_holds (Rule.holds_of_sorts _ _ true fits)
            exact owned.renew (Value.changing_named Belongs.decides changing fits)
              (Value.holding_named (Rule.holds_of_sorts _ _ true fits))
              (Value.holding_named everywhere)

theorem copied_isolated (owned : s.store.Owned given made worked) {recursive : Bool}
    (divides : (Step.copy id recursive).HandsOver given worked s) {r : Option NodeRef × Store}
    (done : copied s.store id recursive = .ok r) :
    (∃ made', r.2.Owned given made' worked) ∧ s.store.Continues r.2 := by
  have after : (s.step (.copy id recursive)).2.store = r.2 := by
    rw [Session.step, copy, done]
  obtain ⟨answer, t⟩ := r
  cases copying_of_copied done with
  | noChart | noNode => exact ⟨⟨made, owned⟩, .refl _⟩
  | @chart c v _ found copy =>
    rw [Step.HandsOver, after] at divides
    exact ⟨owned.copyChart found copy (divides c found), Store.copyChart_continues c copy⟩
  | node found _ =>
    obtain ⟨spec, items, copy, listed, _, store⟩ := copied_plain found done
    rw [Step.HandsOver, after, store] at divides
    rw [store]
    exact ⟨owned.copyNode found copy listed divides,
      (Store.continues_later s.store).trans (Store.continues_add _ _)⟩

/-- After a step nodes still have their own objects, and if it is addressed to no node but such as
are worked on, the others are as they were. -/
theorem step_isolated (owned : s.store.Owned given made worked) {step : Step}
    (hands : step.HandsOver given worked s) :
    (∃ made', (s.step step).2.store.Owned given made' worked) ∧
      ((∀ i, step.target? = some i → worked i = true) →
        s.store.Spares worked (s.step step).2.store) := by
  have settled {here : Bool} :
      (HandedTo given here).Implies (Belongs given made s.store.occasions here) :=
    Belongs.ofHandedTo
  -- A step at a node that is worked on writes into objects of that side only.
  have addressed {id : Nat} {t : Store} (target : step.target? = some id)
      (keeps : s.store.KeepsTo given made worked (worked id) t) :
      (∃ made', t.Owned given made' worked) ∧
        ((∀ i, step.target? = some i → worked i = true) → s.store.Spares worked t) := by
    refine ⟨⟨made, keeps.owned⟩, fun every => ?_⟩
    rw [every id target] at keeps
    exact keeps.spares
  cases step with
  | make construction =>
    rw [Session.step]
    cases built : construction.build s.schemaUrl with
    | error reason => exact ⟨⟨made, owned⟩, fun _ => .refl _ _⟩
    | ok n =>
      have handed : construction.Sorted (HandedTo given (worked s.store.size)) := hands
      have sorted := (handed.imp settled).build Belongs.node built
      exact ⟨⟨made, owned.add sorted⟩, fun _ => (Store.continues_add s.store n).spares _⟩
  | call id call =>
    have handed : call.Sorted (HandedTo given (worked id)) := hands
    exact addressed rfl (call_keepsTo owned (handed.imp settled))
  | write id write =>
    have handed : write.Sorted (HandedTo given (worked id)) := hands
    exact addressed rfl (changed_keepsTo owned fun n found =>
      Edit.write_leaves (owned id n found) (handed.imp settled))
  | hold id place path number => exact addressed rfl (hold_keepsTo owned hands)
  | copy id recursive =>
    rw [Session.step, copy]
    cases done : copied s.store id recursive with
    | error reason => exact ⟨⟨made, owned⟩, fun _ => .refl _ _⟩
    | ok r =>
      obtain ⟨owned', continued⟩ := copied_isolated owned hands done
      exact ⟨owned', fun _ => continued.spares _⟩
  | configure settings => exact ⟨⟨made, owned⟩, fun _ => .refl _ _⟩

/-- After steps nodes still have their own objects, and if they are addressed to no nodes but such
as are worked on, the others are as they were. -/
theorem run_isolated (owned : s.store.Owned given made worked) {steps : List Step}
    (hands : s.HandsOver given worked steps) :
    (∃ made', (s.run steps).store.Owned given made' worked) ∧
      ((∀ step ∈ steps, ∀ i, step.target? = some i → worked i = true) →
        s.store.Spares worked (s.run steps).store) := by
  induction steps generalizing s made with
  | nil => exact ⟨⟨made, owned⟩, fun _ => .refl _ _⟩
  | cons step steps ih =>
    obtain ⟨⟨made', owned'⟩, first⟩ := step_isolated owned hands.1
    obtain ⟨owned'', rest⟩ := ih owned' hands.2
    refine ⟨owned'', fun addressed => ?_⟩
    obtain ⟨now, later⟩ := List.forall_mem_cons.1 addressed
    exact (first now).trans (rest later)

end Session

end ChartTree
