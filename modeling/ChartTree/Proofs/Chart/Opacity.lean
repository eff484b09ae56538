import ChartTree.Proofs.Chart.Coupling

/-!
# Inline collections are not looked into

A chart whose inline collections are replaced by others, each by the same one everywhere and
different ones by different ones, compiles as before. Walks over the two charts run in parallel:
from corresponding places they end with the same error or with the same result in corresponding
places, since a registry tells collections apart in the same way after they are replaced.
-/

namespace ChartTree

/-! ### Replacing collections -/

section Replacing

variable (ρ : Identity → Shared)

def DataReference.withBlobs (r : DataReference) : DataReference :=
  { r with values := r.values.map fun blob => ρ blob.id }

def DataSlot.withBlobs : DataSlot → DataSlot
  | .reference r => .reference (r.withBlobs ρ)
  | slot => slot

def Node.withBlobs (n : Node) : Node :=
  { n with data := n.data.withBlobs ρ }

mutual

/-- A chart with other inline collections, found by the identities of its own. -/
def Chart.withBlobs : Chart → Chart
  | .other v => .other v
  | .node id n children child =>
    .node id (n.withBlobs ρ) (allWithBlobs children) (match child with
      | none => none
      | some c => some (withBlobs c))
termination_by structural c => c

def Chart.allWithBlobs : List Chart → List Chart
  | [] => []
  | c :: cs => withBlobs c :: allWithBlobs cs
termination_by structural cs => cs

end

def Registry.withBlobs (R : Registry) : Registry :=
  ⟨R.blobs.map fun blob => ρ blob.id⟩

def Walk.withBlobs (w : Walk) : Walk :=
  ⟨w.registry.withBlobs ρ, w.scope⟩

def Document.withBlobs (d : Document) : Document :=
  ⟨d.root, d.datasets.withBlobs ρ⟩

end Replacing

/-- Collections of a class are replaced by different ones if they are different. -/
def KeepsApart (ρ : Identity → Shared) (known : Identity → Prop) : Prop :=
  ∀ i j, known i → known j → (ρ i).id = (ρ j).id → i = j

/-- All collections of a registry are of a class. -/
def Registry.Within (known : Identity → Prop) (R : Registry) : Prop :=
  ∀ blob ∈ R.blobs, known blob.id

variable {ρ : Identity → Shared} {known : Identity → Prop}

namespace Registry

variable {R : Registry} {blob : Shared}

theorem place?_withBlobs (apart : KeepsApart ρ known) (within : R.Within known)
    (member : known blob.id) : (R.withBlobs ρ).place? (ρ blob.id) = R.place? blob := by
  obtain ⟨blobs⟩ := R
  show (blobs.map fun b => ρ b.id).findIdx? _ = blobs.findIdx? _
  induction blobs with
  | nil => rfl
  | cons held rest ih =>
    obtain ⟨first, others⟩ := List.forall_mem_cons.1 within
    have same : (ρ held.id).same (ρ blob.id) = held.same blob := by
      rw [Bool.eq_iff_iff, Shared.same_iff, Shared.same_iff]
      constructor
      · exact apart held.id blob.id first member
      · intro eq
        rw [eq]
    rw [List.map_cons, List.findIdx?_cons, List.findIdx?_cons, same, ih others]

/-- A collection gets the name that the collection in its place gets. -/
theorem nameFor_withBlobs (apart : KeepsApart ρ known) (within : R.Within known)
    (member : known blob.id) : (R.withBlobs ρ).nameFor (ρ blob.id) =
      ((R.nameFor blob).1, (R.nameFor blob).2.withBlobs ρ) := by
  rw [nameFor, nameFor, place?_withBlobs apart within member]
  cases R.place? blob with
  | some place => rfl
  | none =>
    have size : (R.withBlobs ρ).size = R.size := List.length_map _
    have grown : (Registry.mk (R.blobs ++ [blob])).withBlobs ρ =
        ⟨(R.withBlobs ρ).blobs ++ [ρ blob.id]⟩ := by
      simp only [withBlobs, List.map_append, List.map_cons, List.map_nil]
    simp only [size, grown]

theorem within_nameFor (within : R.Within known) (member : known blob.id) :
    (R.nameFor blob).2.Within known := by
  rw [nameFor]
  cases R.place? blob with
  | some place => exact within
  | none =>
    intro b hb
    rcases List.mem_append.1 hb with old | new
    · exact within b old
    · rw [List.mem_singleton.1 new]
      exact member

end Registry

/-! ### Walks in parallel -/

namespace Chart

/-- Two stretches of a walk go the same way from places that correspond: the second ends with the
error of the first, or with its result in the place that corresponds. -/
def Parallel (ρ : Identity → Shared) (known : Identity → Prop) {α : Type} (m m' : Walker α) :
    Prop :=
  ∀ w : Walk, w.registry.Within known →
    m'.run (w.withBlobs ρ) = (m.run w).map (fun p => (p.1, p.2.withBlobs ρ)) ∧
      ∀ p, m.run w = .ok p → p.2.registry.Within known

/-- What becomes of the data object of a node. -/
def settle (own : Value) (object : DataObject) : Walker Value := do
  let walk ← get
  match walk.scope with
  | .outside => withField own "data" (.dict object)
  | .waiting =>
    set { walk with scope := .holding object }
    pure own
  | .holding first =>
    let met ← reached (first.sameData object)
    if met then pure own else withField own "data" (.dict object)

theorem placeData_reference (r : DataReference) (own : Value) :
    placeData (.reference r) own = resolve r >>= settle own := rfl

namespace Parallel

variable {α β : Type}

theorem pure (a : α) : Parallel ρ known (Pure.pure a : Walker α) (Pure.pure a) :=
  fun _ within => ⟨rfl, fun _ eq => Except.ok.inj eq ▸ within⟩

theorem throw (e : CompileError) :
    Parallel ρ known (MonadExcept.throw e : Walker α) (MonadExcept.throw e) :=
  fun _ _ => ⟨rfl, nofun⟩

theorem reached (x : Except Misuse α) : Parallel ρ known (reached x) (Chart.reached x) := by
  cases x with
  | error reason => exact .throw _
  | ok a => exact .pure a

theorem lift (x : Except CompileError α) :
    Parallel ρ known (liftM x : Walker α) (liftM x) := by
  cases x with
  | error e => exact fun _ _ => ⟨rfl, nofun⟩
  | ok a => exact .pure a

theorem bind {m m' : Walker α} {f f' : α → Walker β} (h : Parallel ρ known m m')
    (next : ∀ a, Parallel ρ known (f a) (f' a)) : Parallel ρ known (m >>= f) (m' >>= f') := by
  intro w within
  obtain ⟨run, kept⟩ := h w within
  rw [StateT.run_bind, StateT.run_bind, run]
  cases outcome : m.run w with
  | error e => exact ⟨rfl, nofun⟩
  | ok p => exact next p.1 p.2 (kept p outcome)

/-- A stretch that looks where the walk stands. -/
theorem get {f f' : Walk → Walker β}
    (next : ∀ w, w.registry.Within known → Parallel ρ known (f w) (f' (w.withBlobs ρ))) :
    Parallel ρ known (MonadState.get >>= f) (MonadState.get >>= f') :=
  fun w within => next w within w within

theorem set {w : Walk} (within : w.registry.Within known) :
    Parallel ρ known (MonadState.set w : Walker PUnit) (MonadState.set (w.withBlobs ρ)) :=
  fun _ _ => ⟨rfl, fun _ eq => Except.ok.inj eq ▸ within⟩

/-! ### Data and facets -/

theorem withField (own : Value) (key : String) (v : Value) :
    Parallel ρ known (Chart.withField own key v) (Chart.withField own key v) :=
  .reached _

/-- A reference to a replaced collection becomes the same data object. -/
theorem resolve (apart : KeepsApart ρ known) {r : DataReference}
    (member : ∀ blob, r.values = some blob → known blob.id) :
    Parallel ρ known (Chart.resolve r) (Chart.resolve (r.withBlobs ρ)) := by
  obtain ⟨url, values, options⟩ := r
  cases values with
  | none => exact .reached _
  | some blob =>
    have member := member blob rfl
    refine .get fun w within => ?_
    -- The name counts as true, so the data object is made from it and not from the collection.
    have object (name : String) (truthy : (Value.string name).truthy = true) :
        DataReference.toObject ⟨url, some (ρ blob.id), options⟩ name =
          DataReference.toObject ⟨url, some blob, options⟩ name := by
      simp only [DataReference.toObject, DataReference.payload, truthy, if_true]
    have named := Registry.nameFor_withBlobs apart within member
    have truthy : (Value.string (w.registry.nameFor blob).1).truthy = true :=
      w.registry.nameOf_truthy blob
    simp only [DataReference.withBlobs, Option.map_some, Walk.withBlobs, named]
    rw [object _ truthy]
    exact .bind (.set (Registry.within_nameFor within member)) fun _ => .reached _

theorem settle (own : Value) (object : DataObject) :
    Parallel ρ known (Chart.settle own object) (Chart.settle own object) := by
  refine .get fun w within => ?_
  obtain ⟨R, scope⟩ := w
  cases scope with
  | outside => exact .withField own "data" _
  | waiting => exact .bind (.set (w := ⟨R, .holding object⟩) within) fun _ => .pure own
  | holding first =>
    refine .bind (.reached _) fun met => ?_
    cases met with
    | true => exact .pure own
    | false => exact .withField own "data" _

theorem placeData (apart : KeepsApart ρ known) {slot : DataSlot} (own : Value)
    (member : ∀ r blob, slot = .reference r → r.values = some blob → known blob.id) :
    Parallel ρ known (Chart.placeData slot own) (Chart.placeData (slot.withBlobs ρ) own) := by
  cases slot with
  | empty => exact .pure own
  | other v => exact .throw _
  | reference r =>
    rw [DataSlot.withBlobs, placeData_reference, placeData_reference]
    exact .bind (.resolve apart fun blob => member r blob rfl) (.settle own)

theorem enterFacet : Parallel ρ known Chart.enterFacet Chart.enterFacet := by
  refine .get fun w within => ?_
  obtain ⟨R, scope⟩ := w
  cases scope with
  | outside => exact .set (w := ⟨R, .waiting⟩) within
  | waiting => exact .throw _
  | holding first => exact .throw _

theorem leaveFacet (own : Value) :
    Parallel ρ known (Chart.leaveFacet own) (Chart.leaveFacet own) := by
  refine .get fun w within => .bind (.set (w := ⟨w.registry, .outside⟩) within) fun _ => ?_
  obtain ⟨R, scope⟩ := w
  cases scope with
  | outside => exact .pure own
  | waiting => exact .pure own
  | holding object => exact .withField own "data" _

end Parallel

/-! ### Charts in parallel -/

theorem copiedProperties_withBlobs (occasion : Option Nat) (n : Node) :
    copiedProperties occasion (n.withBlobs ρ) = copiedProperties occasion n := by
  obtain ⟨⟨kind, properties, data, channels⟩, children, child⟩ := n
  cases data with
  | empty => rfl
  | reference r =>
    simp only [copiedProperties, Node.withBlobs, DataSlot.withBlobs, Spec.copied, DataSlot.copied]
    cases Dict.ofValue channels <;> rfl
  | other v => rfl

theorem kindOf_withBlobs (c : Chart) : (c.withBlobs ρ).kindOf = c.kindOf := by
  cases c with
  | other v => rfl
  | node id n children child => cases child <;> rfl

/-- The collection of a unit or a facet is among those of its chart. -/
theorem known_of_data {id : Nat} {n : Node} {children : List Chart} {child : Option Chart}
    (carries : n.kind.carriesData = true)
    (members : ∀ blob ∈ (node id n children child).blobs, known blob.id) :
    ∀ r blob, n.data = .reference r → r.values = some blob → known blob.id := by
  intro r blob data values
  have brought : (node id n children child).blob? = some blob := by
    simp only [blob?, reference?, data, carries, if_true, Option.bind_some, values]
  exact members blob (List.mem_filterMap.2 ⟨_, mem_visited_self, brought⟩)

theorem known_of_wrapped {id : Nat} {n : Node} {children : List Chart} {c : Chart}
    (single : n.kind.isSingle = true)
    (members : ∀ blob ∈ (node id n children (some c)).blobs, known blob.id) :
    ∀ blob ∈ c.blobs, known blob.id := by
  rw [blobs_single_some single] at members
  exact fun blob mem => members blob (List.mem_append_right _ mem)

theorem known_of_listed {id : Nat} {n : Node} {children : List Chart} {child : Option Chart}
    (concat : n.kind.isConcat = true)
    (members : ∀ blob ∈ (node id n children child).blobs, known blob.id) :
    ∀ blob ∈ blobsAll children, known blob.id := by
  rwa [blobs_concat concat] at members

mutual

/-- The walk over a chart with its collections replaced runs in parallel to that over the chart. -/
theorem parallel_assembleOn (apart : KeepsApart ρ known) :
    ∀ (occasion : Option Nat) (isRoot : Bool) (c : Chart), (∀ blob ∈ c.blobs, known blob.id) →
      Parallel ρ known (assembleOn occasion isRoot c) (assembleOn occasion isRoot (c.withBlobs ρ))
  | _, _, .other _, _ => .throw _
  | occasion, isRoot, .node id n children none, members => by
    rw [withBlobs, assembleOn, assembleOn, copiedProperties_withBlobs]
    refine .bind (.reached _) fun copy => .bind (.reached _) fun own => ?_
    have kind : (n.withBlobs ρ).kind = n.kind := rfl
    simp only [kind]
    cases h : n.kind with
    | unit => exact .placeData apart own (known_of_data (by rw [h]; rfl) members)
    | facet =>
      refine .bind .enterFacet fun _ => ?_
      exact .bind (.placeData apart own (known_of_data (by rw [h]; rfl) members)) .leaveFacet
    | repeated => exact .pure own
    | layer | hconcat | vconcat =>
      have below := known_of_listed (by rw [h]; rfl) members
      exact .bind (parallel_assembleAll apart children below) fun _ => .withField own _ _
  | occasion, isRoot, .node id n children (some c), members => by
    rw [withBlobs, assembleOn, assembleOn, copiedProperties_withBlobs]
    refine .bind (.reached _) fun copy => .bind (.reached _) fun own => ?_
    have kind : (n.withBlobs ρ).kind = n.kind := rfl
    simp only [kind, kindOf_withBlobs]
    cases h : n.kind with
    | unit => exact .placeData apart own (known_of_data (by rw [h]; rfl) members)
    | facet =>
      have below := known_of_wrapped (by rw [h]; rfl) members
      refine .bind .enterFacet fun _ => ?_
      refine .bind (.placeData apart own (known_of_data (by rw [h]; rfl) members)) fun own => ?_
      refine .bind (parallel_assembleOn apart none false c below) fun inner => ?_
      exact .bind (.withField own "spec" inner) .leaveFacet
    | repeated =>
      have below := known_of_wrapped (by rw [h]; rfl) members
      refine .bind (.reached _) fun kind => ?_
      split
      · refine .bind (parallel_assembleOn apart (some walking) false c below) fun inner => ?_
        refine .bind (.withField own "spec" inner) fun own => ?_
        exact .bind (.lift _) fun bound => .withField own "spec" (bound.released walking)
      · exact .throw _
    | layer | hconcat | vconcat =>
      have below := known_of_listed (by rw [h]; rfl) members
      exact .bind (parallel_assembleAll apart children below) fun _ => .withField own _ _

theorem parallel_assembleAll (apart : KeepsApart ρ known) : ∀ cs : List Chart,
    (∀ blob ∈ blobsAll cs, known blob.id) →
      Parallel ρ known (assembleAll cs) (assembleAll (allWithBlobs ρ cs))
  | [], _ => .pure _
  | c :: cs, members => by
    have first : ∀ blob ∈ c.blobs, known blob.id :=
      fun blob mem => members blob (List.mem_append_left _ mem)
    have rest : ∀ blob ∈ blobsAll cs, known blob.id :=
      fun blob mem => members blob (List.mem_append_right _ mem)
    rw [allWithBlobs, assembleAll_cons, assembleAll_cons]
    refine .bind (parallel_assembleOn apart none false c first) fun v => ?_
    exact .bind (parallel_assembleAll apart cs rest) fun vs => .pure _

end

/-- A chart with its collections replaced compiles to the document with its collections replaced, or
fails as before. -/
theorem compile_withBlobs (c : Chart) (apart : KeepsApart ρ fun i => ∃ b ∈ c.blobs, b.id = i) :
    (c.withBlobs ρ).compile = c.compile.map (Document.withBlobs ρ) := by
  have empty : Registry.empty.Within fun i => ∃ b ∈ c.blobs, b.id = i :=
    fun _ mem => (List.not_mem_nil mem).elim
  obtain ⟨run, _⟩ := parallel_assembleOn apart none true c (fun blob mem => ⟨blob, mem, rfl⟩)
    ⟨.empty, .outside⟩ empty
  replace run : (assemble true (c.withBlobs ρ)).run ⟨.empty, .outside⟩ =
      ((assemble true c).run ⟨.empty, .outside⟩).map fun p => (p.1, p.2.withBlobs ρ) := run
  rw [compile, compile, run]
  cases (assemble true c).run ⟨.empty, .outside⟩ <;> rfl

end Chart

/-! ### Documents -/

namespace Document

/-- The dataset table that ends the root, if there are inline collections. -/
def tableEntry (d : Document) : Dict :=
  if d.datasets.blobs = [] then [] else [(.string "datasets", d.tableValue)]

theorem toValue_eq {d : Document} {entries : Dict} (root : d.root = .dict entries)
    (absent : Dict.get? entries (.string "datasets") = none) :
    d.toValue = .dict (entries ++ d.tableEntry) := by
  rw [tableEntry]
  by_cases none : d.datasets.blobs = []
  · rw [if_pos none, List.append_nil]
    exact toValue_of_empty root none
  · rw [if_neg none, tableValue_eq]
    exact toValue_of_nonempty root absent none

/-- Two documents are identical but for their dataset tables, in which every collection of the first
is replaced under its name. -/
structure ReplacedBy (ρ : Identity → Shared) (d d' : Document) : Prop where
  entries : ∃ entries, d.toValue = .dict (entries ++ d.tableEntry) ∧
    d'.toValue = .dict (entries ++ d'.tableEntry)
  table : d'.datasets.table = d.datasets.table.map fun entry => (entry.1, ρ entry.2.id)

theorem table_withBlobs (ρ : Identity → Shared) (R : Registry) :
    (R.withBlobs ρ).table = R.table.map fun entry => (entry.1, ρ entry.2.id) := by
  rw [Registry.table, Registry.table, Registry.withBlobs, List.zipIdx_map, List.map_map,
    List.map_map]
  rfl

end Document

/-- Two trees that differ in their inline collections only, in which the same nodes share one
collection, fail to compile with the same error or compile to documents that differ in the
collections of their tables only. -/
theorem compile_opaque_to_blobs {c : Chart} (built : c.Built) (ρ : Identity → Shared)
    (apart : ∀ a ∈ c.blobs, ∀ b ∈ c.blobs, (ρ a.id).id = (ρ b.id).id → a.id = b.id) :
    Agree (Document.ReplacedBy ρ) c.compile (c.withBlobs ρ).compile := by
  have apart' : KeepsApart ρ fun i => ∃ b ∈ c.blobs, b.id = i := by
    rintro _ _ ⟨a, ha, rfl⟩ ⟨b, hb, rfl⟩ same
    exact apart a ha b hb same
  rw [Chart.compile_withBlobs c apart']
  cases compiled : c.compile with
  | error e => exact rfl
  | ok d =>
    obtain ⟨entries, root, absent⟩ := (built.shown compiled).entries
    have root' : (d.withBlobs ρ).root = .dict entries := root
    exact ⟨⟨entries, Document.toValue_eq root absent, Document.toValue_eq root' absent⟩,
      Document.table_withBlobs ρ d.datasets⟩

/-- Two units in a facet, each with rows of its own. -/
def facetedRowsSteps : List Step :=
  let rows : Shared := ⟨.object 0, .list [.int 1]⟩
  let others : Shared := ⟨.object 1, .list [.int 2]⟩
  [.unit rows [], .unit others [], .around .layer [⟨0, .unit⟩, ⟨1, .unit⟩],
    .around .facet [⟨2, .layer⟩]]

theorem facetedRowsSteps_checked : ∀ step ∈ facetedRowsSteps, step.Checked := by
  simp only [facetedRowsSteps, List.forall_mem_cons]
  exact ⟨Step.checked_unit _ List.nodup_nil, Step.checked_unit _ List.nodup_nil,
    Step.checked_around _ _, Step.checked_around _ _, fun _ mem => by cases mem⟩

/-- Other rows for the first and for all further collections, all of them empty. -/
def emptyRows (i : Identity) : Shared :=
  if i = .object 0 then ⟨.object 2, .list []⟩ else ⟨.object 3, .list []⟩

theorem compile_opaque_to_blobs_of_faceted_rows :
    ∃ c d, ((Session.start .unset).run facetedRowsSteps).store.chart? 3 = some c ∧
      (∀ a ∈ c.blobs, ∀ b ∈ c.blobs, (emptyRows a.id).id = (emptyRows b.id).id → a.id = b.id) ∧
      c.compile = .ok d ∧ Agree (Document.ReplacedBy emptyRows) (.ok d)
        (c.withBlobs emptyRows).compile := by
  obtain ⟨c, d, found, compiled, met⟩ : ∃ c d,
      ((Session.start .unset).run facetedRowsSteps).store.chart? 3 = some c ∧
        c.compile = .ok d ∧ c.blobs.map Shared.id = [.object 0, .object 1] :=
    ⟨_, _, rfl, rfl, rfl⟩
  have apart : ∀ a ∈ c.blobs, ∀ b ∈ c.blobs,
      (emptyRows a.id).id = (emptyRows b.id).id → a.id = b.id := by
    have ids : ∀ b ∈ c.blobs, b.id = .object 0 ∨ b.id = .object 1 := by
      intro b hb
      have mem : b.id ∈ c.blobs.map Shared.id := List.mem_map_of_mem hb
      rw [met] at mem
      simpa using mem
    intro a ha b hb
    rcases ids a ha with eq | eq <;> rcases ids b hb with eq' | eq' <;> rw [eq, eq'] <;> decide
  refine ⟨c, d, found, apart, compiled, ?_⟩
  rw [← compiled]
  exact compile_opaque_to_blobs ⟨.unset, facetedRowsSteps, 3, facetedRowsSteps_checked, found⟩
    emptyRows apart

end ChartTree
