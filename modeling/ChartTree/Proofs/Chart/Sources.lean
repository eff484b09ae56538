import ChartTree.Proofs.Chart.Datasets
import ChartTree.Proofs.Chart.Hoisting

/-!
# Where a node is drawn from

Every visited node with a reference is drawn from a data object: its own or that of the facet around
it. The object has the address of the reference, or the name under which the table lists its inline
data, unless an option called `name` is in the way. Such an option takes the place of the name of
inline data, and a name that two references share lets the later one be left out although its
address differs.
-/

namespace ChartTree

/-- A data object says where the data of a reference are: at its address, or under a name that the
table of the document has for the identical collection. -/
def Document.Denotes (d : Document) (object : Value) (r : DataReference) : Prop :=
  match r.values with
  | none => ∃ url, object.field? "url" = some url ∧ url.content = r.url.content
  | some blob => ∃ name table held, object.field? "name" = some name ∧
      d.toValue.field? "datasets" = some (.dict table) ∧ Dict.get? table name = some held ∧
      held.isIdentical blob.value = true

/-- The names in the options leave the data of a node alone: inline data have no other name than
that in the table, and data at an address do not share their name with the data of the facet around
unless these are at the same address. -/
def Document.NamesRightly (d : Document) (p : Placement) (r : DataReference) : Prop :=
  match r.values with
  | none => ∀ first own, p.facetData? = some (.dict first) → r.resolved d.datasets = .ok own →
      DataObject.agreeOn "name" first own = .ok true →
      ∃ url, Dict.get? first (.string "url") = some url ∧ url.content = r.url.content
  | some blob => ∀ name, r.options.field? "name" = some name →
      name.content = .string (d.datasets.nameOf blob)

/-- How a node comes by the data object that it is drawn from. -/
inductive Drawn (registry : Registry) (ps : List Placement) (p : Placement) (own : DataObject) :
    Prop where
  /-- It is a facet, or in none, and has its own. -/
  | alone (data : p.data? = some (.dict own)) (around : p.facet = none)
  /-- The facet around it has its own. -/
  | hoisted (data : p.data? = none) (facet : p.facetData? = some (.dict own))
  /-- The facet around it has that of an earlier node which means the same data. -/
  | met {q : Placement} {r : DataReference} {first : DataObject} (mem : q ∈ ps)
      (reference : q.chart.reference? = some r) (resolved : r.resolved registry = .ok first)
      (data : p.data? = none) (facet : p.facetData? = some (.dict first))
      (same : first.sameData own = .ok true)
  /-- It has its own, which means other data than that of the facet around it. -/
  | unmet {first : DataObject} (data : p.data? = some (.dict own))
      (facet : p.facetData? = some (.dict first)) (differ : first.sameData own = .ok false)

theorem Drawn.mono {registry : Registry} {ps qs : List Placement} {p : Placement}
    {own : DataObject} (h : Drawn registry ps p own) (le : ∀ q ∈ ps, q ∈ qs) :
    Drawn registry qs p own := by
  cases h with
  | alone data around => exact .alone data around
  | hoisted data facet => exact .hoisted data facet
  | met mem reference resolved data facet same =>
    exact .met (le _ mem) reference resolved data facet same
  | unmet data facet differ => exact .unmet data facet differ

/-- Every node of the subtree of a facet is drawn from one of the two. -/
theorem Hoists.drawn {registry : Registry} {facet : Placement} {inside : List Placement}
    (h : Hoists registry facet (facet :: inside)) (around : facet.facet = none) {p : Placement}
    (mem : p ∈ facet :: inside) {r : DataReference} (reference : p.chart.reference? = some r) :
    ∃ own, r.resolved registry = .ok own ∧ Drawn registry (facet :: inside) p own := by
  have some_first : ((facet :: inside).find? fun q => q.chart.reference?.isSome).isSome :=
    List.find?_isSome.2 ⟨p, mem, by rw [reference]; rfl⟩
  obtain ⟨q, found⟩ := Option.isSome_iff_exists.1 some_first
  obtain ⟨carries, before, after, split, bare⟩ := List.find?_eq_some_iff_append.1 found
  obtain ⟨r₁, reference₁⟩ := Option.isSome_iff_exists.1 carries
  have bare : ∀ b ∈ before, b.chart.reference? = none := fun b hb => by simpa using bare b hb
  obtain ⟨first, resolved, data, none_before, settled⟩ := h.first before q after r₁ split bare
    reference₁
  have held : ∀ b ∈ inside, b.facetData? = some (.dict first) := fun b hb => by
    rw [Placement.facetData?, (h.inside b hb).1]
    exact data
  have mem_first : q ∈ facet :: inside := split ▸ List.mem_append_right _ (List.mem_cons_self ..)
  have later : p ∈ after → p ∈ inside →
      ∃ own, r.resolved registry = .ok own ∧ Drawn registry (facet :: inside) p own := by
    intro hp below
    have passed := settled p hp
    rw [Placement.After, reference] at passed
    obtain ⟨own, met, resolved_own, compared, own_data⟩ := passed
    refine ⟨own, resolved_own, ?_⟩
    cases met with
    | true => exact .met mem_first reference₁ resolved own_data (held p below) compared
    | false => exact .unmet own_data (held p below) compared
  rw [split] at mem
  rcases List.mem_append.1 mem with earlier | rest
  · rw [bare p earlier] at reference
    cases reference
  · cases before with
    | nil =>
      cases split
      rcases List.mem_cons.1 rest with rfl | after_first
      · rw [reference] at reference₁
        cases reference₁
        exact ⟨first, resolved, .alone data around⟩
      · exact later after_first after_first
    | cons b before =>
      cases split
      rcases List.mem_cons.1 rest with rfl | after_first
      · rw [reference] at reference₁
        cases reference₁
        have below : p ∈ before ++ p :: after := List.mem_append_right _ (List.mem_cons_self ..)
        exact ⟨first, resolved,
          .hoisted (none_before p (List.mem_append_right _ (List.mem_singleton.2 rfl)))
            (held p below)⟩
      · exact later after_first (List.mem_append_right _ (List.mem_cons_of_mem _ after_first))

/-- Every node of a trace that starts outside of facets is drawn from its own data object or from
that of the facet around it. -/
theorem Trace.drawn {registry : Registry} {facet : Option Value} {s t : FacetScope}
    {ps : List Placement} (h : Trace registry facet s ps t) (outside : facet = none)
    (start : s = .outside) : ∀ p ∈ ps, ∀ r, p.chart.reference? = some r →
      ∃ own, r.resolved registry = .ok own ∧ Drawn registry ps p own := by
  induction h with
  | nil => exact fun p mem => by cases mem
  | @node facet s t u q ps kind around passes _ ih =>
    subst start
    intro p mem r reference
    rcases List.mem_cons.1 mem with rfl | mem
    · cases passes with
      | bare none_here =>
        rw [reference] at none_here
        cases none_here
      | alone reference' resolved data =>
        rw [reference] at reference'
        cases reference'
        exact ⟨_, resolved, .alone data (around.trans outside)⟩
    · obtain ⟨own, resolved, drawn⟩ := ih outside (passes.outside_iff.2 rfl) p mem r reference
      exact ⟨own, resolved, drawn.mono fun _ => List.mem_cons_of_mem _⟩
  | @facet s t u q inside ps kind around read enters below data _ _ ih =>
    intro p mem r reference
    rw [← List.cons_append] at mem
    rcases List.mem_append.1 mem with mem | mem
    · obtain ⟨own, resolved, drawn⟩ := (hoists enters below data).drawn around mem reference
      exact ⟨own, resolved, drawn.mono fun _ h => List.mem_append_left ps h⟩
    · obtain ⟨own, resolved, drawn⟩ := ih rfl rfl p mem r reference
      exact ⟨own, resolved, drawn.mono fun _ h => List.mem_append_right (q :: inside) h⟩

/-! ### References of visited nodes -/

namespace Chart.All

variable {P : Node → Prop} {c n : Chart} {r : DataReference}

theorem of_mem_visited (h : c.All P) : ∀ n ∈ c.visited, n.All P := by
  induction h with
  | @node id n children child node children_all child_all ih_children ih_child =>
    intro m mem
    rcases Chart.visited_cases mem with rfl | ⟨_, d, wrapped, below⟩ | ⟨_, d, listed, below⟩
    · exact .node node children_all child_all
    · exact ih_child d wrapped m below
    · exact ih_children d listed m below

theorem reference_regular (h : c.All Node.Regular) (mem : n ∈ c.visited)
    (reference : n.reference? = some r) : r.Regular := by
  cases h.of_mem_visited n mem with
  | node node _ _ =>
    rcases node.data_cases with ⟨_, bare⟩ | ⟨r', _, regular, same⟩
    · rw [bare] at reference
      cases reference
    · rw [same] at reference
      cases reference
      exact regular

end Chart.All

theorem Chart.mem_blobs {c n : Chart} {r : DataReference} {blob : Shared} (mem : n ∈ c.visited)
    (reference : n.reference? = some r) (held : r.values = some blob) : blob ∈ c.blobs :=
  List.mem_filterMap.2 ⟨n, mem, by rw [blob?, reference]; exact held⟩

/-! ### Own and shared data objects -/

namespace DataReference

variable {r : DataReference}

theorem givenName?_eq (r : DataReference) :
    r.givenName? = (r.options.field? "name").map (Value.copied none) := by
  rw [givenName?, extras, Value.field?]
  cases r.options.content with
  | dict entries => exact Dict.get?_copiedEntries none entries "name"
  | _ => rfl

/-- Inline data go by their name in the registry exactly if the options give them no other. -/
theorem Regular.name_iff (h : r.Regular) {blob : Shared} (held : r.values = some blob)
    (R : Registry) : ∃ w, Dict.get? (r.resolvedIn R) (.string "name") = some w ∧
      (w.content = .string (R.nameOf blob) ↔ ∀ name, r.options.field? "name" = some name →
        name.content = .string (R.nameOf blob)) := by
  rw [h.get?_name, givenName?_eq, held]
  cases r.options.field? "name" with
  | none =>
    refine ⟨_, rfl, ⟨fun _ _ given => ?_, fun _ => rfl⟩⟩
    cases given
  | some name =>
    refine ⟨_, rfl, ?_⟩
    rw [Value.content_copied_eq_string]
    exact ⟨fun same _ given => Option.some.inj given ▸ same, fun all => all name rfl⟩

end DataReference

namespace Document

variable {d : Document} {p : Placement} {r : DataReference}

theorem denotes_address (address : r.values = none) {object : DataObject} :
    d.Denotes (.dict object) r ↔
      ∃ url, Dict.get? object (.string "url") = some url ∧ url.content = r.url.content := by
  rw [Denotes, address]
  rfl

theorem namesRightly_of_unnamed (h : r.Regular) (unnamed : r.options.field? "name" = none) :
    d.NamesRightly p r := by
  rw [NamesRightly]
  cases held : r.values with
  | some blob =>
    intro name given
    rw [unnamed] at given
    cases given
  | none =>
    intro first own _ resolved agree
    rw [h.resolved_eq] at resolved
    cases resolved
    have absent : Dict.get? (r.resolvedIn d.datasets) (.string "name") = none := by
      rw [h.get?_name, DataReference.givenName?_eq, unnamed, held]
      rfl
    rw [DataObject.agreeOn_of_absent first absent] at agree
    cases agree

end Document

/-! ### The source of a node -/

section Documents

variable {c : Chart} {d : Document}

theorem Chart.Shown.holds (shown : c.Shown d) {blob : Shared} (mem : blob ∈ c.blobs) :
    d.datasets.Holds blob := by
  rw [shown.registry]
  exact Registry.holds_addAll _ mem

theorem Chart.Shown.distinct (shown : c.Shown d) : d.datasets.Distinct := by
  rw [shown.registry]
  exact Registry.distinct_addAll Registry.distinct_empty c.blobs

/-- A data object denotes inline data if it has the name that they have in the registry. -/
theorem Chart.Shown.denotes_inline (shown : c.Shown d) {r : DataReference} {blob : Shared}
    (held : r.values = some blob) (mem : blob ∈ c.blobs) {object : DataObject} :
    d.Denotes (.dict object) r ↔ ∃ name, Dict.get? object (.string "name") = some name ∧
      name.content = .string (d.datasets.nameOf blob) := by
  obtain ⟨entries, root, _⟩ := shown.entries
  have holds := shown.holds mem
  have some : d.datasets.blobs ≠ [] := by
    obtain ⟨other, listed, _⟩ := Registry.holds_iff.1 holds
    exact List.ne_nil_of_mem listed
  have table := Document.field?_datasets root some
  rw [Document.Denotes, held]
  constructor
  · rintro ⟨name, entries', found, under, stands, lookup, identical⟩
    rw [table] at stands
    cases stands
    exact ⟨name, under, (Registry.get?_datasetTable_iff shown.distinct holds name).1
      ⟨found, lookup, identical⟩⟩
  · rintro ⟨name, under, text⟩
    obtain ⟨found, lookup, identical⟩ :=
      (Registry.get?_datasetTable_iff shown.distinct holds name).2 text
    exact ⟨name, _, found, under, table, lookup, identical⟩

/-- The own data object of a reference denotes its data unless the options rename inline data. -/
theorem Chart.Shown.denotes_own_iff (shown : c.Shown d) {r : DataReference} (h : r.Regular)
    (mem : ∀ blob, r.values = some blob → blob ∈ c.blobs) {p : Placement}
    (same_address : r.values = none → d.NamesRightly p r) :
    d.Denotes (.dict (r.resolvedIn d.datasets)) r ↔ d.NamesRightly p r := by
  cases held : r.values with
  | none =>
    have url : Dict.get? (r.resolvedIn d.datasets) (.string "url") = some r.url := by
      rw [h.get?_url, held]
      rfl
    rw [Document.denotes_address held]
    exact ⟨fun _ => same_address held, fun _ => ⟨r.url, url, rfl⟩⟩
  | some blob =>
    obtain ⟨w, name, iff⟩ := h.name_iff held d.datasets
    rw [shown.denotes_inline held (mem blob held), Document.NamesRightly, held]
    simp only [name, Option.some.injEq, exists_eq_left']
    exact iff

/-- The data object of another reference that means the same denotes the data of a reference unless
names are in the way. -/
theorem Chart.Shown.denotes_met_iff (shown : c.Shown d) {r r₁ : DataReference} (h : r.Regular)
    (h₁ : r₁.Regular) (mem : ∀ blob, r.values = some blob → blob ∈ c.blobs) {p : Placement}
    (facet : p.facetData? = some (.dict (r₁.resolvedIn d.datasets)))
    (same : (r₁.resolvedIn d.datasets).sameData (r.resolvedIn d.datasets) = .ok true) :
    d.Denotes (.dict (r₁.resolvedIn d.datasets)) r ↔ d.NamesRightly p r := by
  have agree := DataObject.agree_of_sameData (h.get?_values d.datasets) same
  cases held : r.values with
  | some blob =>
    have apart : Dict.get? (r.resolvedIn d.datasets) (.string "url") = none := by
      rw [h.get?_url, held]
      rfl
    rw [DataObject.agreeOn_of_absent _ apart] at agree
    obtain ⟨v, w, first_name, own_name, same_name⟩ :=
      DataObject.of_agreeOn (agree.resolve_left fun eq => by cases eq)
    obtain ⟨w', own_name', iff⟩ := h.name_iff held d.datasets
    rw [own_name] at own_name'
    cases own_name'
    have text : v.content = .string (d.datasets.nameOf blob) ↔
        w.content = .string (d.datasets.nameOf blob) :=
      ⟨Value.content_of_string_same same_name, Value.content_of_same_string same_name⟩
    rw [shown.denotes_inline held (mem blob held), Document.NamesRightly, held]
    simp only [first_name, Option.some.injEq, exists_eq_left']
    exact text.trans iff
  | none =>
    rw [Document.denotes_address held, Document.NamesRightly, held]
    constructor
    · rintro found first own facet' _ _
      rw [facet] at facet'
      cases facet'
      exact found
    · intro rightly
      rcases agree with agree | agree
      · obtain ⟨v, w, first_url, own_url, same_url⟩ := DataObject.of_agreeOn agree
        refine ⟨v, first_url, ?_⟩
        rw [h.get?_url, held] at own_url
        cases own_url
        rw [h₁.get?_url] at first_url
        split at first_url
        · cases first_url
          obtain ⟨s, text⟩ := h₁.source (Option.isNone_iff_eq_none.1 ‹_›)
          rw [text, Value.content_of_string_same same_url text]
        · cases first_url
      · exact rightly _ _ facet (h.resolved_eq d.datasets) agree

/-- A node is drawn from a data object that denotes its data unless names are in the way. -/
theorem Chart.Shown.source_of_drawn (shown : c.Shown d) (regular : c.All Node.Regular)
    {ps : List Placement} (visited : ∀ q ∈ ps, q.chart ∈ c.visited) {p : Placement}
    (mem : p ∈ ps) {r : DataReference} (reference : p.chart.reference? = some r)
    (drawn : Drawn d.datasets ps p (r.resolvedIn d.datasets)) :
    ∃ object, p.source? = some object ∧ (d.Denotes object r ↔ d.NamesRightly p r) := by
  have h := regular.reference_regular (visited p mem) reference
  have blobs : ∀ blob, r.values = some blob → blob ∈ c.blobs := fun blob held =>
    Chart.mem_blobs (visited p mem) reference held
  cases drawn with
  | alone data around =>
    refine ⟨_, by rw [Placement.source?, data, Option.some_or],
      shown.denotes_own_iff h blobs fun address => ?_⟩
    rw [Document.NamesRightly, address]
    intro first own facet
    rw [Placement.facetData?, around] at facet
    cases facet
  | hoisted data facet =>
    refine ⟨_, by rw [Placement.source?, data, Option.none_or, facet],
      shown.denotes_own_iff h blobs fun address => ?_⟩
    rw [Document.NamesRightly, address]
    intro first own held _ _
    rw [facet] at held
    cases held
    exact ⟨r.url, by rw [h.get?_url, address]; rfl, rfl⟩
  | @met q r₁ first mem₁ reference₁ resolved₁ data facet same =>
    have h₁ := regular.reference_regular (visited q mem₁) reference₁
    rw [h₁.resolved_eq] at resolved₁
    cases resolved₁
    exact ⟨_, by rw [Placement.source?, data, Option.none_or, facet],
      shown.denotes_met_iff h h₁ blobs facet same⟩
  | @unmet first data facet differ =>
    refine ⟨_, by rw [Placement.source?, data, Option.some_or],
      shown.denotes_own_iff h blobs fun address => ?_⟩
    rw [Document.NamesRightly, address]
    intro first' own held resolved agree
    rw [facet] at held
    rw [h.resolved_eq] at resolved
    cases held
    cases resolved
    rw [DataObject.sameData_of_no_values _ (h.get?_values _)] at differ
    cases address_met : DataObject.agreeOn "url" first (r.resolvedIn d.datasets) with
    | error reason =>
      rw [address_met] at differ
      cases differ
    | ok met =>
      rw [address_met, agree] at differ
      cases met <;> cases differ

/-- Every visited node with a reference is drawn from a data object, its own or that of the facet
around it. The object denotes the data of the reference exactly if no name in the options is in the
way, so it always does without such a name. -/
theorem drawn_from_own_source_iff (built : c.Built) (compiled : c.compile = .ok d) :
    ∃ all, d.placements c = some all ∧ all.map Placement.chart = c.visited ∧
      ∀ p ∈ all, ∀ r, p.chart.reference? = some r → ∃ object, p.source? = some object ∧
        (d.Denotes object r ↔ d.NamesRightly p r) ∧
        (r.options.field? "name" = none → d.Denotes object r) := by
  have shown := built.shown compiled
  obtain ⟨inside, placed, trace, _⟩ := shown.trace
  have charts := Chart.charts_of_placements none d.toValue c placed
  have visited : ∀ p ∈ (⟨c, d.toValue, none⟩ :: inside : List Placement), p.chart ∈ c.visited :=
    fun p mem => charts ▸ List.mem_map_of_mem mem
  refine ⟨_, placed, charts, fun p mem r reference => ?_⟩
  have regular := built.regular.reference_regular (visited p mem) reference
  obtain ⟨own, resolved, drawn⟩ := trace.drawn rfl rfl p mem r reference
  rw [regular.resolved_eq] at resolved
  cases resolved
  obtain ⟨object, source, denotes⟩ :=
    shown.source_of_drawn built.regular visited mem reference drawn
  exact ⟨object, source, denotes, fun unnamed =>
    denotes.2 (Document.namesRightly_of_unnamed regular unnamed)⟩

end Documents

/-- A facet around two units at different addresses, which the options give one name, and a unit
with rows that the options rename. -/
def namedSteps : List Step :=
  let name (s : String) : List (String × Shared) := [("name", ⟨.object 9, .string s⟩)]
  [.unit ⟨.object 0, .string "a.csv"⟩ (name "x"), .unit ⟨.object 1, .string "b.csv"⟩ (name "x"),
    .around .layer [⟨0, .unit⟩, ⟨1, .unit⟩], .around .facet [⟨2, .layer⟩],
    .unit ⟨.object 2, .list []⟩ (name "sales"), .around .hconcat [⟨3, .facet⟩, ⟨4, .unit⟩]]

theorem namedSteps_checked : ∀ step ∈ namedSteps, step.Checked := by
  simp only [namedSteps, List.forall_mem_cons]
  exact ⟨Step.checked_unit _ (List.nodup_singleton _), Step.checked_unit _ (List.nodup_singleton _),
    Step.checked_around _ _, Step.checked_around _ _, Step.checked_unit _ (List.nodup_singleton _),
    Step.checked_around _ _, fun _ mem => by cases mem⟩

theorem drawn_from_own_source_iff_of_named :
    ∃ c d, ((Session.start .unset).run namedSteps).store.chart? 5 = some c ∧
      c.compile = .ok d ∧ ∃ all, d.placements c = some all ∧
        all.map Placement.chart = c.visited ∧
        ∀ p ∈ all, ∀ r, p.chart.reference? = some r → ∃ object, p.source? = some object ∧
          (d.Denotes object r ↔ d.NamesRightly p r) ∧
          (r.options.field? "name" = none → d.Denotes object r) := by
  obtain ⟨c, d, found, compiled⟩ : ∃ c d,
      ((Session.start .unset).run namedSteps).store.chart? 5 = some c ∧ c.compile = .ok d :=
    ⟨_, _, rfl, rfl⟩
  exact ⟨c, d, found, compiled,
    drawn_from_own_source_iff ⟨.unset, namedSteps, 5, namedSteps_checked, found⟩ compiled⟩

/-- The second unit in the facet is drawn from the address of the first. -/
theorem not_always_drawn_from_own_source :
    ¬ ∀ (c : Chart) (d : Document), c.Built → c.compile = .ok d →
      ∀ all, d.placements c = some all → ∀ p ∈ all, ∀ r, p.chart.reference? = some r →
        ∃ object, p.source? = some object ∧ d.Denotes object r := by
  intro claim
  obtain ⟨object, source, url, under, same⟩ :=
    claim _ _ ⟨.unset, namedSteps, 5, namedSteps_checked, rfl⟩ rfl _ rfl _
      (.tail _ (.tail _ (.tail _ (.tail _ (.head _))))) _ rfl
  cases source
  cases under
  exact absurd (Content.string.inj same) (by decide)

end ChartTree
