import ChartTree.Proofs.Chart.Binding

/-!
# Objects that mirror nodes

How an object of a document mirrors the node that it comes from: the entries of the node stand
first, in their order, and after them what compiling writes. The channel definitions of a repeated
node may have fields bound to axes; apart from that the entries are those of the node, without the
ones that only the root keeps.
-/

namespace ChartTree

/-- The keys that compiling writes into an object. -/
def generatedKeys : List String :=
  ["layer", "hconcat", "vconcat", "spec", "data", "datasets"]

/-- At most one entry, with a data object. -/
def Dict.IsData (d : Dict) : Prop :=
  d = [] ∨ ∃ object : DataObject, d = [(.string "data", .dict object)]

namespace Chart

/-- An object mirrors a chart: it has the entries of the node, with channels bound to axes, and then
what its kind and its inner nodes bring. -/
inductive Mirrors : Bool → List String → Chart → Value → Prop where
  | unit {isRoot : Bool} {axes : List String} {id : Nat} {n : Node} {children : List Chart}
      {child : Option Chart} {own data : Dict} (kind : n.kind = .unit)
      (carried : Injects axes n.kind.channelsKey (n.ownEntries isRoot) own) (placed : data.IsData) :
      Mirrors isRoot axes (.node id n children child) (.dict (own ++ data))
  | emptyFacet {isRoot : Bool} {axes : List String} {id : Nat} {n : Node} {children : List Chart}
      {own data : Dict} (kind : n.kind = .facet)
      (carried : Injects axes n.kind.channelsKey (n.ownEntries isRoot) own) (placed : data.IsData) :
      Mirrors isRoot axes (.node id n children none) (.dict (own ++ data))
  | facet {isRoot : Bool} {axes : List String} {id : Nat} {n : Node} {children : List Chart}
      {c : Chart} {inner : Value} {own data : Dict} (kind : n.kind = .facet)
      (carried : Injects axes n.kind.channelsKey (n.ownEntries isRoot) own) (placed : data.IsData)
      (below : Mirrors false [] c inner) :
      Mirrors isRoot axes (.node id n children (some c))
        (.dict (own ++ (.string "spec", inner) :: data))
  | emptyRepeat {isRoot : Bool} {axes : List String} {id : Nat} {n : Node}
      {children : List Chart} (kind : n.kind = .repeated) :
      Mirrors isRoot axes (.node id n children none) (.dict (n.ownEntries isRoot))
  | repeated {isRoot : Bool} {axes : List String} {id : Nat} {n : Node} {children : List Chart}
      {c : Chart} {inner : Value} (kind : n.kind = .repeated)
      (below : Mirrors false n.axes c inner) :
      Mirrors isRoot axes (.node id n children (some c))
        (.dict (n.ownEntries isRoot ++ [(.string "spec", inner)]))
  | concat {isRoot : Bool} {axes : List String} {id : Nat} {n : Node} {children : List Chart}
      {child : Option Chart} {inner : List Value} (kind : n.kind.isConcat = true)
      (length : inner.length = children.length)
      (below : ∀ p ∈ children.zip inner, Mirrors false [] p.1 p.2) :
      Mirrors isRoot axes (.node id n children child)
        (.dict (n.ownEntries isRoot ++ [(.string n.kind.name, .list inner)]))

/-- Where the entries of a node lead an object, the channels among them can be bound to axes in
their place. -/
theorem bound_of_carried {c : Chart} {n : Node} (node : n.Rewired)
    (carries : n.kind.carriesChannels = true) (rest : Dict)
    (mirrors : ∀ axes own, Injects axes n.kind.channelsKey (n.ownEntries false) own →
      Mirrors false axes c (.dict (own ++ rest))) :
    ∃ l before r, Value.dict (n.ownEntries false ++ rest) =
        .dict (l ++ (.string n.kind.channelsKey, .dict before) :: r) ∧
      (∀ e ∈ l, e.1.content ≠ .string n.kind.channelsKey) ∧ before.Nested ∧
        ∀ axes after, Binds axes before after →
          Mirrors false axes c (.dict (l ++ (.string n.kind.channelsKey, .dict after) :: r)) := by
  obtain ⟨l, before, r, split, fresh, nested⟩ := node.ownEntries_split false carries
  have shift (definitions : Dict) :
      (l ++ (.string n.kind.channelsKey, .dict definitions) :: r) ++ rest =
        l ++ (.string n.kind.channelsKey, .dict definitions) :: (r ++ rest) := by
    rw [List.append_assoc, List.cons_append]
  refine ⟨l, before, r ++ rest, congrArg Value.dict ?_, fresh, nested, fun axes after binds => ?_⟩
  · rw [split]
    exact shift before
  · rw [← shift]
    exact mirrors axes _ (.some split binds)

theorem Mirrors.bound {c : Chart} {inner : Value} {k : Kind} (h : Mirrors false [] c inner)
    (rewired : c.All Node.Rewired) (kind : c.kindOf = .ok k) (may : k.canRepeat = true) :
    ∃ l before r, inner = .dict (l ++ (.string k.channelsKey, .dict before) :: r) ∧
      (∀ e ∈ l, e.1.content ≠ .string k.channelsKey) ∧ before.Nested ∧
        ∀ axes after, Binds axes before after →
          Mirrors false axes c (.dict (l ++ (.string k.channelsKey, .dict after) :: r)) := by
  cases rewired with
  | @node id n children child node =>
    have same : n.kind = k := Except.ok.inj kind
    subst same
    have carries : n.kind.carriesChannels = true := by
      revert may
      cases n.kind <;> decide
    cases h with
    | unit unit carried placed =>
      rw [carried.eq_of_nil]
      exact bound_of_carried node carries _ fun axes own carried => .unit unit carried placed
    | emptyFacet facet carried placed =>
      rw [carried.eq_of_nil]
      exact bound_of_carried node carries _ fun axes own carried => .emptyFacet facet carried placed
    | facet facet carried placed below =>
      rw [carried.eq_of_nil]
      exact bound_of_carried node carries _ fun axes own carried =>
        .facet facet carried placed below
    | emptyRepeat repeated =>
      rw [repeated] at may
      cases may
    | repeated repeated =>
      rw [repeated] at may
      cases may
    | concat concat =>
      exfalso
      revert concat may
      cases n.kind <;> decide

end Chart

end ChartTree
