import ChartTree.Proofs.Chart.Coupling

/-!
# Concatenations

The document of a layer or a concatenation is made of the documents of its parts. A part that is
compiled alone goes the same way as within the whole: the walk is outside of facets again after
every part, however deep, and the parts before it only shift the names of its inline data. So the
whole compiles exactly if every part does and otherwise fails as the first part that fails.
-/

namespace ChartTree

/-- A value without the entries under some names. -/
def Value.without (keys : List String) : Value → Value
  | ⟨id, .dict entries⟩ => ⟨id, .dict (Dict.eraseAll entries keys)⟩
  | v => v

namespace Document

/-- The object of a document as a part of another one: without the table and the properties of a
root, and with the names that the collections of the other document have. -/
def objectIn (part : Document) (datasets : Registry) : Value :=
  (part.toValue.without ("datasets" :: rootOnlyKeys)).relabeled (part.datasets.newName datasets)

/-- A document is that of a concatenation of others. -/
structure Joins (kind : Kind) (parts : List Document) (d : Document) : Prop where
  /-- The objects of the parts stand in order under the name of the kind. -/
  objects : d.toValue.field? kind.name = some (.list (parts.map (·.objectIn d.datasets)))
  /-- The collections are those of the parts without later repetitions. -/
  blobs : d.datasets.blobs = Shared.firsts (parts.flatMap (·.datasets.blobs))
  /-- The tables list the collections of their documents; without collections there is none. -/
  tables : ∀ x ∈ d :: parts, x.toValue.field? "datasets" =
    if x.datasets.blobs.isEmpty then none else some (.dict (datasetTable x.datasets.blobs))
  /-- What a part lists under a name the whole lists under the new name. -/
  names : ∀ part ∈ parts, ∀ name blob, part.datasets.table.lookup name = some blob →
    ∃ held, d.datasets.table.lookup (part.datasets.newName d.datasets name) = some held ∧
      held.same blob = true

variable {d : Document} {entries : Dict}

theorem without_datasets (root : d.root = .dict entries)
    (absent : Dict.get? entries (.string "datasets") = none) (keys : List String) :
    d.toValue.without ("datasets" :: keys) = .dict (Dict.eraseAll entries keys) := by
  by_cases none : d.datasets.blobs = []
  · rw [toValue_of_empty root none]
    exact congrArg (fun rest => Value.dict (Dict.eraseAll rest keys)) (Dict.erase_of_absent absent)
  · rw [toValue_of_nonempty root absent none, ← Dict.insert_of_absent absent]
    exact congrArg (fun rest => Value.dict (Dict.eraseAll rest keys))
      (Dict.erase_insert_self_of_absent absent _)

theorem field?_datasets_eq (root : d.root = .dict entries)
    (absent : Dict.get? entries (.string "datasets") = none) :
    d.toValue.field? "datasets" =
      if d.datasets.blobs.isEmpty then none else some (.dict (datasetTable d.datasets.blobs)) := by
  by_cases none : d.datasets.blobs = []
  · rw [toValue_of_empty root none, if_pos (List.isEmpty_iff.2 none)]
    exact absent
  · rw [field?_datasets root none, if_neg (mt List.isEmpty_iff.1 none)]

end Document

namespace Chart

variable {F R : Registry}

/-- What comes of a chart alone, and of the same chart as a part of a walk. -/
structure PartIn (F : Registry) (c : Chart) (part : Document) (v : Value) (scope : FacetScope) :
    Prop where
  object : v = part.objectIn F
  scope : scope = .outside
  registry : part.datasets = Registry.empty.addAll c.blobs
  entries : ∃ entries, part.root = .dict entries ∧
    Dict.get? entries (.string "datasets") = none

/-- A chart compiled alone goes the same way as in a walk that stands outside of facets. -/
theorem All.part {c : Chart} (regular : c.All Node.Regular) (unnamed : c.Unnamed)
    (le : (R.addAll c.blobs).blobs <+: F.blobs) :
    Agree (fun part q => PartIn F c part q.1 q.2.scope) c.compile
      ((assemble false c).run ⟨R, .outside⟩) := by
  have held : ∀ blob, (Registry.empty.addAll c.blobs).Holds blob → F.Holds blob :=
    fun blob holds => (holds.of_empty_addAll R).of_growth le
  let alone : Registry := Registry.empty.addAll c.blobs
  have matched : Agree (Matched (alone.newName F) alone F true)
      ((assemble true c).run ⟨.empty, .outside⟩) ((assemble false c).run ⟨R, .outside⟩) :=
    regular.matched (Registry.renames_newName held) unnamed List.prefix_rfl le .outside
  rw [compile, ← bind_pure ((assemble false c).run _)]
  refine matched.bind fun p q run _ ends => ?_
  obtain ⟨entries, object, object'⟩ := ends.object
  have scope := ends.scope
  have walked := regular.walked run
  obtain ⟨entries', eq, absent⟩ := walked.entries
  cases object.symm.trans eq
  refine ⟨?_, ?_, walked.registry, entries, object, absent⟩
  · rw [Document.objectIn, Document.without_datasets object absent, object', Value.relabeled_dict,
      show p.2.registry = _ from walked.registry]
    rfl
  · rw [walked.outside] at scope
    generalize q.2.scope = t at scope ⊢
    cases scope
    rfl

/-- What comes of charts alone, and of the same charts side by side in a walk. -/
structure PartsIn (F : Registry) (cs : List Chart) (parts : List Document) (vs : List Value) :
    Prop where
  objects : vs = parts.map (·.objectIn F)
  blobs : ∀ r : Registry, r.addAll (parts.flatMap (·.datasets.blobs)) = r.addAll (blobsAll cs)
  held : ∀ part ∈ parts, ∀ blob, part.datasets.Holds blob → F.Holds blob
  entries : ∀ part ∈ parts, ∃ entries, part.root = .dict entries ∧
    Dict.get? entries (.string "datasets") = none

/-- Charts compiled alone one after the other go the same way as side by side in one walk. -/
theorem parts {cs : List Chart} (regular : ∀ c ∈ cs, c.All Node.Regular)
    (unnamed : ∀ c ∈ cs, c.Unnamed) (le : (R.addAll (blobsAll cs)).blobs <+: F.blobs) :
    Agree (fun parts q => PartsIn F cs parts q.1) (cs.mapM compile)
      ((assembleAll cs).run ⟨R, .outside⟩) := by
  induction cs generalizing R with
  | nil =>
    exact ⟨rfl, fun _ => rfl, List.forall_mem_nil _, List.forall_mem_nil _⟩
  | cons c cs ih =>
    have split : blobsAll (c :: cs) = c.blobs ++ blobsAll cs := List.flatMap_cons
    rw [split, Registry.addAll_append] at le
    have growth := (Registry.prefix_addAll (R.addAll c.blobs) (blobsAll cs)).trans le
    have self := regular c (List.mem_cons_self ..)
    rw [List.mapM_cons, assembleAll_cons, StateT.run_bind]
    refine (self.part (unnamed c (List.mem_cons_self ..)) growth).bind
      fun part p _ run first => ?_
    rw [StateT.run_bind]
    have registry : p.2.registry = R.addAll c.blobs := (self.walked run).registry
    have rest := ih (fun d mem => regular d (List.mem_cons_of_mem _ mem))
      (fun d mem => unnamed d (List.mem_cons_of_mem _ mem)) le
    have walk : p.2 = ⟨R.addAll c.blobs, .outside⟩ := by
      rw [← registry, ← first.scope]
    rw [walk]
    refine rest.bind fun parts q _ _ all => ?_
    have blobs : part.datasets.blobs = Shared.firsts c.blobs := by
      rw [first.registry, Registry.blobs_addAll_empty]
    -- The part met its collections from nothing, the walk met them after others.
    have held : ∀ blob, part.datasets.Holds blob → F.Holds blob := fun blob holds => by
      rw [first.registry] at holds
      exact (holds.of_empty_addAll R).of_growth growth
    refine ⟨?_, fun r => ?_, List.forall_mem_cons.2 ⟨held, all.held⟩,
      List.forall_mem_cons.2 ⟨first.entries, all.entries⟩⟩
    · show p.1 :: q.1 = (part :: parts).map (·.objectIn F)
      rw [List.map_cons, first.object, all.objects]
    · rw [List.flatMap_cons, blobs, Registry.addAll_append, Registry.addAll_firsts, all.blobs,
        split, Registry.addAll_append]

end Chart

/-- A concatenation compiles exactly if every part compiles alone, and then its document joins those
of the parts; otherwise it fails as the first part that fails. -/
theorem concat_is_compositional {id : Nat} {n : Node} {children : List Chart}
    {child : Option Chart} (built : (Chart.node id n children child).Built)
    (concat : n.kind.isConcat = true) (unnamed : (Chart.node id n children child).Unnamed) :
    Agree (Document.Joins n.kind) (children.mapM Chart.compile)
      (Chart.node id n children child).compile := by
  cases built.regular with
  | node regular children_all _ =>
    let F : Registry := Registry.empty.addAll (Chart.blobsAll children)
    have parts := Chart.parts (R := .empty) (F := F) children_all (unnamed.of_concat concat)
      List.prefix_rfl
    rw [Chart.compile, Chart.assemble_concat true regular concat, StateT.run_bind, bind_assoc,
      ← bind_pure (children.mapM Chart.compile)]
    refine parts.bind fun parts q _ run all => ?_
    have registry : q.2.registry = F :=
      (Chart.walkedAll (fun c mem => (children_all c mem).walked) run).registry
    have names : n.kind.name ≠ "datasets" ∧ n.kind.name ∈ frameKeys := by
      rcases Kind.isConcat_iff.1 concat with kind | kind | kind <;> rw [kind] <;> decide
    let d : Document :=
      ⟨.dict (Dict.insert (n.ownEntries true) (.string n.kind.name) (.list q.1)), q.2.registry⟩
    have datasets : d.datasets = F := registry
    have absent : Dict.get? (Dict.insert (n.ownEntries true) (.string n.kind.name) (.list q.1))
        (.string "datasets") = none := by
      rw [Dict.get?_insert_of_ne _ names.1]
      exact regular.ownEntries_absent true (by decide)
    show Document.Joins n.kind parts d
    refine ⟨?_, ?_, ?_, fun part mem name blob listed => ?_⟩
    · rw [datasets, ← all.objects]
      exact (Chart.sameFrame_toValue (d := d) rfl n.kind.name names.2).trans
        (Dict.get?_insert_self _ n.kind.name _)
    · rw [← Registry.blobs_addAll_empty, all.blobs, datasets]
    · refine List.forall_mem_cons.2 ⟨Document.field?_datasets_eq rfl absent, fun part mem => ?_⟩
      obtain ⟨entries, root, none⟩ := all.entries part mem
      exact Document.field?_datasets_eq root none
    · rw [datasets]
      exact Registry.lookup_newName (all.held part mem) listed

/-- A unit beside a facet that lists the rows of the unit after other rows. -/
def besideSteps : List Step :=
  let rows : Shared := ⟨.object 0, .list []⟩
  let others : Shared := ⟨.object 1, .list []⟩
  [.unit rows [], .unit others [], .unit rows [], .around .layer [⟨1, .unit⟩, ⟨2, .unit⟩],
    .around .facet [⟨3, .layer⟩], .around .hconcat [⟨0, .unit⟩, ⟨4, .facet⟩]]

theorem besideSteps_checked : ∀ step ∈ besideSteps, step.Checked := by
  simp only [besideSteps, List.forall_mem_cons]
  exact ⟨Step.checked_unit _ List.nodup_nil, Step.checked_unit _ List.nodup_nil,
    Step.checked_unit _ List.nodup_nil, Step.checked_around _ _, Step.checked_around _ _,
    Step.checked_around _ _, fun _ mem => by cases mem⟩

theorem concat_is_compositional_of_beside :
    ∃ id n children child parts d,
      ((Session.start .unset).run besideSteps).store.chart? 5 =
        some (.node id n children child) ∧ n.kind.isConcat = true ∧
      (Chart.node id n children child).Unnamed ∧ children.mapM Chart.compile = .ok parts ∧
      (Chart.node id n children child).compile = .ok d ∧
      parts.map (fun part => ["ds_0", "ds_1"].map (part.datasets.newName d.datasets)) =
        [["ds_0", "ds_1"], ["ds_1", "ds_0"]] ∧ Document.Joins n.kind parts d := by
  obtain ⟨id, n, children, child, parts, d, found, concat, names, compiled, joined, renamed⟩ :
      ∃ id n children child parts d,
        ((Session.start .unset).run besideSteps).store.chart? 5 =
          some (.node id n children child) ∧ n.kind.isConcat = true ∧
        ((Chart.node id n children child).visited.filterMap Chart.reference?).map
          (fun r => r.options.field? "name") = [none, none, none] ∧
        children.mapM Chart.compile = .ok parts ∧
        (Chart.node id n children child).compile = .ok d ∧
        parts.map (fun part => ["ds_0", "ds_1"].map (part.datasets.newName d.datasets)) =
          [["ds_0", "ds_1"], ["ds_1", "ds_0"]] :=
    ⟨_, _, _, _, _, _, rfl, rfl, rfl, rfl, rfl, rfl⟩
  have unnamed : (Chart.node id n children child).Unnamed := fun m mem r reference => by
    have listed := List.mem_map_of_mem (f := fun r : DataReference => r.options.field? "name")
      (List.mem_filterMap.2 ⟨m, mem, reference⟩)
    rw [names] at listed
    simpa [DataReference.Unnamed] using listed
  have agree :=
    concat_is_compositional ⟨.unset, besideSteps, 5, besideSteps_checked, found⟩ concat unnamed
  rw [compiled, joined] at agree
  exact ⟨id, n, children, child, parts, d, found, concat, unnamed, compiled, joined, renamed, agree⟩

end ChartTree
