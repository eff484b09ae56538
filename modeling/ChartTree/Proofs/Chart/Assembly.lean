import ChartTree.Proofs.Chart.Visit

/-!
# The walk at one node

What each operation of the walk does where nodes are regular: properties are dictionaries, so
copying and writing them goes through, and a reference always has a data object. A node of each
kind but a repeat is then assembled by one equation, in which only the data and the facet can still
end the walk.
-/

namespace ChartTree

/-- Copies of the entries under which a node keeps its properties, made on an occasion. -/
def Node.entriesOn (occasion : Option Nat) (n : Node) : Dict :=
  match n.properties.content with
  | .dict entries => Value.copiedEntries occasion entries
  | _ => []

/-- Copies of the entries under which a node keeps its properties. -/
def Node.entries (n : Node) : Dict :=
  n.entriesOn none

/-- The entries that a node brings into a document, copied on an occasion. -/
def Node.ownEntriesOn (occasion : Option Nat) (isRoot : Bool) (n : Node) : Dict :=
  if isRoot then n.entriesOn occasion else Dict.eraseAll (n.entriesOn occasion) rootOnlyKeys

/-- The entries that a node brings into a document. -/
def Node.ownEntries (isRoot : Bool) (n : Node) : Dict :=
  n.ownEntriesOn none isRoot

namespace Node

theorem entriesOn_eq {n : Node} {id : Option Identity} {entries : Dict}
    (eq : n.properties = ⟨id, .dict entries⟩) (occasion : Option Nat) :
    n.entriesOn occasion = Value.copiedEntries occasion entries := by
  rw [entriesOn, eq]
  rfl

theorem ownEntries_eq (n : Node) (isRoot : Bool) :
    n.ownEntries isRoot =
      if isRoot then n.entries else Dict.eraseAll n.entries rootOnlyKeys := rfl

end Node

namespace Node.Regular

variable {n : Node}

theorem entries_under (h : n.Regular) : n.entries.Under propertyKeys := by
  obtain ⟨id, properties, eq, under⟩ := h.spec.properties
  rw [entries, entriesOn_eq eq]
  exact under.copied none

theorem ownEntries_under (h : n.Regular) (isRoot : Bool) :
    (n.ownEntries isRoot).Under propertyKeys := by
  cases isRoot with
  | true => exact h.entries_under
  | false =>
    have kept : ∀ (names : List String) (d : Dict), d.Under propertyKeys →
        (Dict.eraseAll d names).Under propertyKeys := by
      intro names
      induction names with
      | nil => exact fun _ under => under
      | cons name names ih => exact fun d under => ih _ (under.erase (.string name))
    exact kept rootOnlyKeys n.entries h.entries_under

end Node.Regular

namespace Chart

theorem reached_ok {α : Type} (a : α) : reached (.ok a) = pure a := rfl

theorem bind_ok {α β : Type} {m : Walker α} {f : α → Walker β} {w u : Walk} {b : β}
    (h : (m >>= f).run w = .ok (b, u)) :
    ∃ a t, m.run w = .ok (a, t) ∧ (f a).run t = .ok (b, u) := by
  obtain ⟨p, run, rest⟩ := bind_eq_ok_iff.1 h
  exact ⟨p.1, p.2, run, rest⟩

theorem pure_ok {α : Type} {a b : α} {w u : Walk} (h : (pure a : Walker α).run w = .ok (b, u)) :
    b = a ∧ u = w := by
  cases h
  exact ⟨rfl, rfl⟩

theorem lift_ok {α : Type} {x : Except CompileError α} {a : α} {w u : Walk}
    (h : (liftM x : Walker α).run w = .ok (a, u)) : x = .ok a ∧ u = w := by
  cases x with
  | error reason => cases h
  | ok b =>
    cases h
    exact ⟨rfl, rfl⟩

theorem reached_inv {α : Type} {x : Except Misuse α} {a : α} {w u : Walk}
    (h : (reached x).run w = .ok (a, u)) : x = .ok a ∧ u = w := by
  cases x with
  | error reason => cases h
  | ok b =>
    cases h
    exact ⟨rfl, rfl⟩

theorem copiedProperties_eq {n : Node} (h : n.Regular) (occasion : Option Nat) :
    copiedProperties occasion n = .ok (.dict (n.entriesOn occasion)) := by
  obtain ⟨t, copy, _, _, properties, _⟩ := h.spec.copied occasion none
  obtain ⟨id, nodes, children⟩ := h.children
  obtain ⟨id', entries, eq, _⟩ := h.spec.properties
  have once := h.spec.unshared.properties
  have copied : t.properties = .dict (n.entriesOn occasion) := by
    rw [eq] at once
    cases once
    rw [properties, Node.entriesOn_eq eq, eq]
    exact Value.copied_dict occasion entries
  rw [copiedProperties, copy, children, ← copied]
  rfl

theorem ownProperties_eq (occasion : Option Nat) (isRoot : Bool) (n : Node) :
    ownProperties isRoot (.dict (n.entriesOn occasion)) =
      .ok (.dict (n.ownEntriesOn occasion isRoot)) := by
  cases isRoot with
  | true => rfl
  | false =>
    have removed : ∀ (names : List String) (d : Dict),
        names.foldlM (fun own key => Value.withoutName own key) (.dict d) =
          .ok (.dict (Dict.eraseAll d names)) := by
      intro names
      induction names with
      | nil => exact fun _ => rfl
      | cons name names ih => exact fun d => ih (Dict.erase d (.string name))
    exact removed rootOnlyKeys (n.entriesOn occasion)

theorem withField_dict (own : Dict) (key : String) (v : Value) :
    withField (.dict own) key v = pure (.dict (Dict.insert own (.string key) v)) := rfl

/-! ### Data and facets -/

theorem run_resolve {r : DataReference} (h : r.Regular) (R : Registry) (s : FacetScope) :
    (resolve r).run ⟨R, s⟩ = .ok (r.resolvedIn R, ⟨R.addAll r.blobs, s⟩) := by
  rw [resolve, DataReference.resolvedIn, DataReference.nameIn, DataReference.blobs]
  cases held : r.values with
  | none =>
    simp only [h.toObject_eq, reached_ok]
    rfl
  | some blob =>
    have object := h.toObject_eq (.string (R.nameOf blob))
    simp only [StateT.run_bind, StateT.run_get, StateT.run_set, pure_bind]
    show (reached (r.toObject (.string (R.nameOf blob)))).run _ = _
    rw [object]
    rfl

/-- What becomes of a data object at a node: the entries of the node and where the walk stands
then. -/
def placed (object : DataObject) (own : Dict) : FacetScope → Except Misuse (Dict × FacetScope)
  | .outside => .ok (Dict.insert own (.string "data") (.dict object), .outside)
  | .waiting => .ok (own, .holding object)
  | .holding first => (first.sameData object).map fun met =>
    (if met then own else Dict.insert own (.string "data") (.dict object), .holding first)

/-- The entries of a facet with the data object held for it. -/
def withHeld (own : Dict) : FacetScope → Dict
  | .holding object => Dict.insert own (.string "data") (.dict object)
  | _ => own

theorem placeData_empty (own : Value) : placeData .empty own = pure own := rfl

theorem run_placeData {r : DataReference} (h : r.Regular) (own : Dict) (R : Registry)
    (s : FacetScope) :
    (placeData (.reference r) (.dict own)).run ⟨R, s⟩ =
      ((placed (r.resolvedIn R) own s).mapError .misuse).map fun p =>
        (.dict p.1, ⟨R.addAll r.blobs, p.2⟩) := by
  have slot : DataSlot.referenceFor? "is_inline" (.reference r) = .ok (some r) := rfl
  simp only [placeData, slot, reached_ok, pure_bind, StateT.run_bind, run_resolve h]
  cases s with
  | outside => rfl
  | waiting => rfl
  | holding first =>
    show StateT.run (do
      let met ← reached (first.sameData (r.resolvedIn R))
      if met then pure (.dict own)
      else withField (.dict own) "data" (.dict (r.resolvedIn R))) _ = _
    rw [placed]
    cases first.sameData (r.resolvedIn R) with
    | error reason => rfl
    | ok met => cases met <;> rfl

theorem run_placeData_ok {r : DataReference} (h : r.Regular) {own : Dict} {R : Registry}
    {s : FacetScope} {v : Value} {w : Walk}
    (run : (placeData (.reference r) (.dict own)).run ⟨R, s⟩ = .ok (v, w)) :
    ∃ entries t, placed (r.resolvedIn R) own s = .ok (entries, t) ∧ v = .dict entries ∧
      w = ⟨R.addAll r.blobs, t⟩ := by
  rw [run_placeData h] at run
  obtain ⟨p, outcome, made⟩ := map_eq_ok_iff.1 run
  cases made
  exact ⟨p.1, p.2, mapError_eq_ok_iff.1 outcome, rfl, rfl⟩

theorem run_enterFacet (R : Registry) (s : FacetScope) :
    enterFacet.run ⟨R, s⟩ =
      match s with
      | .outside => .ok ((), ⟨R, .waiting⟩)
      | _ => .error .nestedFacet := by
  cases s <;> rfl

theorem run_leaveFacet (own : Dict) (R : Registry) (s : FacetScope) :
    (leaveFacet (.dict own)).run ⟨R, s⟩ = .ok (.dict (withHeld own s), ⟨R, .outside⟩) := by
  cases s <;> rfl

/-! ### Kind by kind -/

theorem assembleAll_cons (c : Chart) (cs : List Chart) : assembleAll (c :: cs) = (do
    let first ← assemble false c
    let rest ← assembleAll cs
    pure (first :: rest)) := rfl

section Kinds

variable {id : Nat} {n : Node} {children : List Chart} {child : Option Chart}
  (occasion : Option Nat) (isRoot : Bool)

theorem assembleOn_unit (h : n.Regular) (kind : n.kind = .unit) :
    assembleOn occasion isRoot (.node id n children child) =
      placeData n.data (.dict (n.ownEntriesOn occasion isRoot)) := by
  simp only [assembleOn, copiedProperties_eq h, reached_ok, pure_bind, ownProperties_eq, kind]

theorem assembleOn_facet_none (h : n.Regular) (kind : n.kind = .facet) :
    assembleOn occasion isRoot (.node id n children none) = (do
      enterFacet
      leaveFacet (← placeData n.data (.dict (n.ownEntriesOn occasion isRoot)))) := by
  simp only [assembleOn, copiedProperties_eq h, reached_ok, pure_bind, ownProperties_eq, kind]

theorem assembleOn_facet_some (h : n.Regular) (kind : n.kind = .facet) (c : Chart) :
    assembleOn occasion isRoot (.node id n children (some c)) = (do
      enterFacet
      let own ← placeData n.data (.dict (n.ownEntriesOn occasion isRoot))
      let inner ← assemble false c
      leaveFacet (← withField own "spec" inner)) := by
  simp only [assembleOn, assemble, copiedProperties_eq h, reached_ok, pure_bind, ownProperties_eq,
    kind]

theorem assemble_unit (h : n.Regular) (kind : n.kind = .unit) :
    assemble isRoot (.node id n children child) =
      placeData n.data (.dict (n.ownEntries isRoot)) :=
  assembleOn_unit none isRoot h kind

theorem assemble_facet_none (h : n.Regular) (kind : n.kind = .facet) :
    assemble isRoot (.node id n children none) = (do
      enterFacet
      leaveFacet (← placeData n.data (.dict (n.ownEntries isRoot)))) :=
  assembleOn_facet_none none isRoot h kind

theorem assemble_facet_some (h : n.Regular) (kind : n.kind = .facet) (c : Chart) :
    assemble isRoot (.node id n children (some c)) = (do
      enterFacet
      let own ← placeData n.data (.dict (n.ownEntries isRoot))
      let inner ← assemble false c
      leaveFacet (← withField own "spec" inner)) :=
  assembleOn_facet_some none isRoot h kind c

theorem assemble_repeated_none (h : n.Regular) (kind : n.kind = .repeated) :
    assemble isRoot (.node id n children none) = pure (.dict (n.ownEntries isRoot)) := by
  simp only [assemble, assembleOn, copiedProperties_eq h, reached_ok, pure_bind, ownProperties_eq,
    kind]
  rfl

theorem assemble_concat (h : n.Regular) (kind : n.kind.isConcat = true) :
    assemble isRoot (.node id n children child) = (do
      let inner ← assembleAll children
      pure (.dict (Dict.insert (n.ownEntries isRoot) (.string n.kind.name) (.list inner)))) := by
  rcases Kind.isConcat_iff.1 kind with kind | kind | kind <;>
    simp only [assemble, assembleOn, copiedProperties_eq h, reached_ok, pure_bind,
      ownProperties_eq, kind, withField_dict] <;> rfl

end Kinds

end Chart

end ChartTree
