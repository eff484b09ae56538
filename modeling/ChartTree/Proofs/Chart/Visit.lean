import ChartTree.Chart.Compile
import ChartTree.Proofs.Data.Rendering
import ChartTree.Proofs.Session.Built

/-!
# What a walk visits

The nodes of a chart in the order of the walk, the collections they bring along, and where each of
them stands in a document: a placement is a visited node with the object that it became and the
object of the facet around it. Placements are read off the document alone, so they say nothing
about how the walk came to it.
-/

namespace ChartTree

namespace Kind

variable {k : Kind}

theorem isSingle_iff : k.isSingle = true ↔ k = .facet ∨ k = .repeated := by
  cases k <;> decide

theorem isConcat_iff : k.isConcat = true ↔ k = .layer ∨ k = .hconcat ∨ k = .vconcat := by
  cases k <;> decide

theorem carriesData_of_isConcat (h : k.isConcat = true) : k.carriesData = false := by
  cases k <;> first | rfl | cases h

end Kind

/-- The items of a list. -/
def Value.listed? (v : Value) : Option (List Value) :=
  match v.content with
  | .list items => some items
  | _ => none

namespace Chart

/-- The kind of a node. -/
def kind? : Chart → Option Kind
  | .node _ n _ _ => some n.kind
  | .other _ => none

/-- The data reference of a unit or a facet. -/
def reference? : Chart → Option DataReference
  | .node _ n _ _ =>
    match n.data with
    | .reference r => if n.kind.carriesData then some r else none
    | _ => none
  | .other _ => none

mutual

/-- The nodes that the walk comes to, each before its inner nodes. -/
def visited : Chart → List Chart
  | .other _ => []
  | .node id n children child =>
    .node id n children child :: match n.kind with
      | .unit => []
      | .facet | .repeated => match child with
        | none => []
        | some c => visited c
      | .layer | .hconcat | .vconcat => visitedAll children
termination_by structural c => c

/-- The nodes that the walk comes to in a list of charts. -/
def visitedAll : List Chart → List Chart
  | [] => []
  | c :: cs => visited c ++ visitedAll cs
termination_by structural cs => cs

end

/-- The inline collection that a node brings along. -/
def blob? (c : Chart) : Option Shared :=
  c.reference?.bind DataReference.values

/-- The inline collections of the visited nodes, as often as they are met. -/
def blobs (c : Chart) : List Shared :=
  c.visited.filterMap blob?

/-- The inline collections of the visited nodes in a list of charts. -/
def blobsAll (cs : List Chart) : List Shared :=
  cs.flatMap blobs

end Chart

/-- A visited node in a document. -/
structure Placement where
  /-- The node with what stands below it. -/
  chart : Chart
  /-- The object that it became. -/
  object : Value
  /-- The object of the facet around it. -/
  facet : Option Value

namespace Placement

/-- The data object that stands on the object of a node. -/
def data? (p : Placement) : Option Value :=
  p.object.field? "data"

/-- The data object of the facet around a node. -/
def facetData? (p : Placement) : Option Value :=
  p.facet.bind (·.field? "data")

/-- The data object from which a node is drawn: its own or that of the facet around it. -/
def source? (p : Placement) : Option Value :=
  p.data?.or p.facetData?

end Placement

namespace Chart

mutual

/-- The placements of the visited nodes, if every one of them has an object in its place: the
inner node of a facet or a repeat under `spec`, those of the other kinds in the list under the name
of the kind. -/
def placements (facet : Option Value) (object : Value) : Chart → Option (List Placement)
  | .other _ => none
  | .node id n children child => do
    let inner ← match n.kind with
      | .unit => some []
      | .facet => match child with
        | none => some []
        | some c => do placements (some object) (← object.field? "spec") c
      | .repeated => match child with
        | none => some []
        | some c => do placements facet (← object.field? "spec") c
      | .layer | .hconcat | .vconcat => do
        placementsAll facet (← (← object.field? n.kind.name).listed?) children
    pure (⟨.node id n children child, object, facet⟩ :: inner)
termination_by structural c => c

/-- The placements in a list of charts, each in the object at its place. -/
def placementsAll (facet : Option Value) (objects : List Value) :
    List Chart → Option (List Placement)
  | [] => if objects.isEmpty then some [] else none
  | c :: cs => match objects with
    | [] => none
    | v :: vs => do
      let first ← placements facet v c
      let rest ← placementsAll facet vs cs
      pure (first ++ rest)
termination_by structural cs => cs

end

end Chart

/-- The placements in the document of a chart. -/
def Document.placements (d : Document) (c : Chart) : Option (List Placement) :=
  c.placements none d.toValue

/-! ### Node by node -/

namespace Chart

variable {id : Nat} {n : Node} {children : List Chart} {child : Option Chart}

theorem visitedAll_eq_flatMap (cs : List Chart) : visitedAll cs = cs.flatMap visited := by
  induction cs with
  | nil => rfl
  | cons c cs ih =>
    change c.visited ++ visitedAll cs = _
    rw [ih, List.flatMap_cons]

theorem visited_unit (kind : n.kind = .unit) :
    (node id n children child).visited = [node id n children child] := by
  obtain ⟨⟨k, _, _, _⟩, _, _⟩ := n
  cases kind
  cases child <;> rfl

theorem visited_single_none (kind : n.kind.isSingle = true) :
    (node id n children none).visited = [node id n children none] := by
  obtain ⟨⟨k, _, _, _⟩, _, _⟩ := n
  rcases Kind.isSingle_iff.1 kind with kind | kind <;> cases kind <;> rfl

theorem visited_single_some (kind : n.kind.isSingle = true) (c : Chart) :
    (node id n children (some c)).visited = node id n children (some c) :: c.visited := by
  obtain ⟨⟨k, _, _, _⟩, _, _⟩ := n
  rcases Kind.isSingle_iff.1 kind with kind | kind <;> cases kind <;> rfl

theorem visited_concat (kind : n.kind.isConcat = true) :
    (node id n children child).visited =
      node id n children child :: children.flatMap visited := by
  rw [← visitedAll_eq_flatMap]
  obtain ⟨⟨k, _, _, _⟩, _, _⟩ := n
  rcases Kind.isConcat_iff.1 kind with kind | kind | kind <;> cases kind <;> cases child <;> rfl

theorem mem_visited_self : node id n children child ∈ (node id n children child).visited := by
  cases child <;> rw [visited] <;> exact List.mem_cons_self ..

/-- A visited chart is the whole one, or it is visited in the single place or in the list of inner
charts, whichever the kind has. -/
theorem visited_cases {r : Chart} (mem : r ∈ (node id n children child).visited) :
    r = node id n children child ∨
      (n.kind.isSingle = true ∧ ∃ c, child = some c ∧ r ∈ c.visited) ∨
        n.kind.isConcat = true ∧ ∃ c ∈ children, r ∈ c.visited := by
  cases concat : n.kind.isConcat with
  | true =>
    rw [visited_concat concat] at mem
    exact (List.mem_cons.1 mem).imp_right fun below => .inr ⟨rfl, List.mem_flatMap.1 below⟩
  | false =>
    cases single : n.kind.isSingle with
    | true =>
      cases child with
      | none =>
        rw [visited_single_none single] at mem
        exact .inl (List.mem_singleton.1 mem)
      | some c =>
        rw [visited_single_some single] at mem
        exact (List.mem_cons.1 mem).imp_right fun below => .inl ⟨rfl, c, rfl, below⟩
    | false =>
      have unit : n.kind = .unit := by
        revert concat single
        cases n.kind <;> decide
      rw [visited_unit unit] at mem
      exact .inl (List.mem_singleton.1 mem)

theorem reference?_of_not_carries (kind : n.kind.carriesData = false) :
    (node id n children child).reference? = none := by
  rw [reference?]
  cases n.data <;> simp [kind]

theorem blobs_unit (kind : n.kind = .unit) :
    (node id n children child).blobs = (node id n children child).blob?.toList := by
  rw [blobs, visited_unit kind, List.filterMap_cons]
  cases (node id n children child).blob? <;> rfl

theorem blobs_single_none (kind : n.kind.isSingle = true) :
    (node id n children none).blobs = (node id n children none).blob?.toList := by
  rw [blobs, visited_single_none kind, List.filterMap_cons]
  cases (node id n children none).blob? <;> rfl

theorem blobs_single_some (kind : n.kind.isSingle = true) (c : Chart) :
    (node id n children (some c)).blobs =
      (node id n children (some c)).blob?.toList ++ c.blobs := by
  rw [blobs, visited_single_some kind, List.filterMap_cons]
  cases (node id n children (some c)).blob? <;> rfl

theorem blobs_concat (kind : n.kind.isConcat = true) :
    (node id n children child).blobs = blobsAll children := by
  have bare : (node id n children child).blob? = none := by
    rw [blob?, reference?_of_not_carries (Kind.carriesData_of_isConcat kind)]
    rfl
  rw [blobs, visited_concat kind, List.filterMap_cons, bare, List.filterMap_flatMap]
  rfl

/-! ### Placements node by node -/

variable {facet : Option Value} {object : Value}

theorem placements_unit (kind : n.kind = .unit) :
    (node id n children child).placements facet object =
      some [⟨node id n children child, object, facet⟩] := by
  obtain ⟨⟨k, _, _, _⟩, _, _⟩ := n
  cases kind
  cases child <;> rfl

theorem placements_single_none (kind : n.kind.isSingle = true) :
    (node id n children none).placements facet object =
      some [⟨node id n children none, object, facet⟩] := by
  obtain ⟨⟨k, _, _, _⟩, _, _⟩ := n
  rcases Kind.isSingle_iff.1 kind with kind | kind <;> cases kind <;> rfl

theorem placements_facet {c : Chart} {inner : Value} {ps : List Placement} (kind : n.kind = .facet)
    (spec : object.field? "spec" = some inner)
    (below : c.placements (some object) inner = some ps) :
    (node id n children (some c)).placements facet object =
      some (⟨node id n children (some c), object, facet⟩ :: ps) := by
  rw [placements, kind]
  simp only [spec, Option.bind_eq_bind, Option.bind_some, below]
  rfl

theorem placements_repeated {c : Chart} {inner : Value} {ps : List Placement}
    (kind : n.kind = .repeated) (spec : object.field? "spec" = some inner)
    (below : c.placements facet inner = some ps) :
    (node id n children (some c)).placements facet object =
      some (⟨node id n children (some c), object, facet⟩ :: ps) := by
  rw [placements, kind]
  simp only [spec, Option.bind_eq_bind, Option.bind_some, below]
  rfl

theorem placements_concat {vs : List Value} {ps : List Placement} (kind : n.kind.isConcat = true)
    (listed : object.field? n.kind.name = some (.list vs))
    (below : placementsAll facet vs children = some ps) :
    (node id n children child).placements facet object =
      some (⟨node id n children child, object, facet⟩ :: ps) := by
  rcases Kind.isConcat_iff.1 kind with kind | kind | kind <;> rw [kind] at listed <;>
    cases child <;> simp only [placements, kind, listed, Option.bind_eq_bind, Option.bind_some,
      Value.listed?, Value.content, below] <;> rfl

theorem placementsAll_cons {c : Chart} {cs : List Chart} {v : Value} {vs : List Value}
    {ps qs : List Placement} (first : c.placements facet v = some ps)
    (rest : placementsAll facet vs cs = some qs) :
    placementsAll facet (v :: vs) (c :: cs) = some (ps ++ qs) := by
  simp only [placementsAll, first, rest, Option.bind_eq_bind, Option.bind_some, Option.pure_def]

/-! ### Order -/

mutual

/-- Placements stand in the order of the walk. -/
theorem charts_of_placements (facet : Option Value) (object : Value) :
    ∀ (c : Chart) {ps : List Placement}, c.placements facet object = some ps →
      ps.map Placement.chart = c.visited
  | .other _, _, h => by cases h
  | .node id n children none, ps, h => by
    rw [visited]
    cases kind : n.kind with
    | unit | facet | repeated =>
      simp only [placements, kind, Option.bind_eq_bind, Option.bind_some, Option.pure_def] at h
      cases h
      rfl
    | layer | hconcat | vconcat =>
      simp only [placements, kind, Option.bind_eq_bind, Option.pure_def,
        Option.bind_eq_some_iff, Option.some.injEq] at h
      obtain ⟨v, found, vs, listed, inner, placed, rfl⟩ := h
      exact congrArg _ (charts_of_placementsAll facet _ children placed)
  | .node id n children (some c), ps, h => by
    rw [visited]
    cases kind : n.kind with
    | unit =>
      simp only [placements, kind, Option.bind_eq_bind, Option.bind_some, Option.pure_def] at h
      cases h
      rfl
    | facet | repeated =>
      simp only [placements, kind, Option.bind_eq_bind, Option.pure_def,
        Option.bind_eq_some_iff, Option.some.injEq] at h
      obtain ⟨v, found, inner, placed, rfl⟩ := h
      exact congrArg _ (charts_of_placements _ _ c placed)
    | layer | hconcat | vconcat =>
      simp only [placements, kind, Option.bind_eq_bind, Option.pure_def,
        Option.bind_eq_some_iff, Option.some.injEq] at h
      obtain ⟨v, found, vs, listed, inner, placed, rfl⟩ := h
      exact congrArg _ (charts_of_placementsAll facet _ children placed)

theorem charts_of_placementsAll (facet : Option Value) (objects : List Value) :
    ∀ (cs : List Chart) {ps : List Placement}, placementsAll facet objects cs = some ps →
      ps.map Placement.chart = visitedAll cs
  | [], ps, h => by
    rw [placementsAll] at h
    split at h
    · cases h
      rfl
    · cases h
  | c :: cs, ps, h => by
    cases objects with
    | nil => cases h
    | cons v vs =>
      simp only [placementsAll, Option.bind_eq_bind, Option.bind_eq_some_iff, Option.pure_def,
        Option.some.injEq] at h
      obtain ⟨first, placed, rest, placed_rest, rfl⟩ := h
      rw [List.map_append, charts_of_placements facet v c placed,
        charts_of_placementsAll facet vs cs placed_rest]
      rfl

end

end Chart

end ChartTree
