import ChartTree.Proofs.Chart.Sources
import ChartTree.Proofs.Value.Relabeling

/-!
# Two walks over one chart

A walk over a chart as the root and a walk over it as a part, begun with other collections at hand,
go the same way: they end with the same error, or the second gives the object of the first without
the properties of a root and with the dataset names of the second. For this no option may be called
`name`; then whether two data objects mean the same does not depend on the names.
-/

namespace ChartTree

/-- Outcomes agree: the same error, or related results. -/
def Agree {ε α β : Type} (related : α → β → Prop) : Except ε α → Except ε β → Prop
  | .ok a, .ok b => related a b
  | .error e, .error e' => e = e'
  | _, _ => False

theorem Agree.bind {ε α β γ δ : Type} {related : α → β → Prop} {next : γ → δ → Prop}
    {x : Except ε α} {y : Except ε β} {f : α → Except ε γ} {g : β → Except ε δ}
    (h : Agree related x y)
    (h' : ∀ a b, x = .ok a → y = .ok b → related a b → Agree next (f a) (g b)) :
    Agree next (x >>= f) (y >>= g) := by
  cases x with
  | error e =>
    cases y with
    | error e' => exact h
    | ok b => cases h
  | ok a =>
    cases y with
    | error e' => cases h
    | ok b => exact h' a b rfl rfl h

theorem Agree.map_mapError {ε ε' α β γ δ : Type} {related : α → β → Prop} {next : γ → δ → Prop}
    {x : Except ε α} {y : Except ε β} (f : ε → ε') {g : α → γ} {g' : β → δ}
    (h : Agree related x y) (h' : ∀ a b, related a b → next (g a) (g' b)) :
    Agree next ((x.mapError f).map g) ((y.mapError f).map g') := by
  cases x with
  | error e =>
    cases y with
    | error e' => exact congrArg f h
    | ok b => cases h
  | ok a =>
    cases y with
    | error e' => cases h
    | ok b => exact h' a b h

/-! ### Data objects under other names -/

namespace DataReference

variable {r r₁ : DataReference} {F F' : Registry}

/-- No option is called `name`. -/
def Unnamed (r : DataReference) : Prop :=
  r.options.field? "name" = none

/-- A registry holds the inline data of a reference. -/
def HeldIn (r : DataReference) (R : Registry) : Prop :=
  ∀ blob, r.values = some blob → R.Holds blob

theorem Regular.get?_name_of_unnamed (h : r.Regular) (unnamed : r.Unnamed) (R : Registry) :
    Dict.get? (r.resolvedIn R) (.string "name") =
      r.values.map fun blob => .string (R.nameOf blob) := by
  rw [h.get?_name, givenName?_eq, unnamed, Option.map_none, Option.none_or]

theorem agreeOn_names {a b : DataObject} {s t : String} (truthy : (Value.string s).truthy = true)
    (ha : Dict.get? a (.string "name") = some (.string s))
    (hb : Dict.get? b (.string "name") = some (.string t)) :
    DataObject.agreeOn "name" a b = .ok (decide (s = t)) := by
  rw [DataObject.agreeOn, ha, hb]
  simp only [truthy, if_pos]
  rfl

/-- Whether unnamed references mean the same data does not depend on the registry. -/
theorem sameData_unnamed (h₁ : r₁.Regular) (h : r.Regular) (unnamed₁ : r₁.Unnamed)
    (unnamed : r.Unnamed) (held₁ : r₁.HeldIn F) (held : r.HeldIn F) (held₁' : r₁.HeldIn F')
    (held' : r.HeldIn F') :
    (r₁.resolvedIn F).sameData (r.resolvedIn F) =
      (r₁.resolvedIn F').sameData (r.resolvedIn F') := by
  have address : DataObject.agreeOn "url" (r₁.resolvedIn F) (r.resolvedIn F) =
      DataObject.agreeOn "url" (r₁.resolvedIn F') (r.resolvedIn F') := by
    rw [DataObject.agreeOn, DataObject.agreeOn, h₁.get?_url, h.get?_url, h₁.get?_url, h.get?_url]
  have name : DataObject.agreeOn "name" (r₁.resolvedIn F) (r.resolvedIn F) =
      DataObject.agreeOn "name" (r₁.resolvedIn F') (r.resolvedIn F') := by
    have first := h₁.get?_name_of_unnamed unnamed₁
    have second := h.get?_name_of_unnamed unnamed
    cases values : r.values with
    | none =>
      rw [values] at second
      rw [DataObject.agreeOn_of_absent _ (second F), DataObject.agreeOn_of_absent _ (second F')]
    | some blob =>
      cases values₁ : r₁.values with
      | none =>
        rw [values₁] at first
        rw [DataObject.agreeOn, DataObject.agreeOn, first F, first F']
        rfl
      | some blob₁ =>
        rw [values] at second
        rw [values₁] at first
        rw [agreeOn_names (F.nameOf_truthy blob₁) (first F) (second F),
          agreeOn_names (F'.nameOf_truthy blob₁) (first F') (second F')]
        -- In both registries two names are equal exactly if the collections are one object.
        have same := Registry.nameOf_eq_iff (held₁ blob₁ values₁) (held blob values)
        have same' := Registry.nameOf_eq_iff (held₁' blob₁ values₁) (held' blob values)
        exact congrArg _ (decide_eq_decide.2 (same.trans same'.symm))
  rw [DataObject.sameData_of_no_values _ (h.get?_values F),
    DataObject.sameData_of_no_values _ (h.get?_values F'), address, name]

theorem renamed_resolvedIn (h : r.Regular) (unnamed : r.Unnamed) {σ : String → String}
    (names : ∀ blob, r.values = some blob → σ (F.nameOf blob) = F'.nameOf blob) :
    Value.renamed σ (.dict (r.resolvedIn F)) = .dict (r.resolvedIn F') := by
  obtain ⟨fields, extras, _, _⟩ := h.extras_eq
  have no_name : fields.lookup "name" = none := by
    rw [← Dict.get?_ofFields, ← extras]
    show r.givenName? = none
    rw [givenName?_eq, unnamed, Option.map_none]
  have kept : ∀ field ∈ fields,
      (if field.1 = "name" then Value.renamedText σ field.2 else field.2) = field.2 := by
    intro field mem
    have other := List.lookup_eq_none_iff.1 no_name field mem
    rw [if_neg fun eq => by simp [eq] at other]
  rw [Value.renamed, resolvedIn, resolvedIn, extras, Dict.mapUnder_merge _ kept]
  congr 2
  cases values : r.values with
  | none =>
    rw [payload_address values, payload_address values]
    rfl
  | some blob =>
    rw [payload_inline values, payload_inline values, ← names blob values]
    rfl

end DataReference

/-! ### Objects under other names -/

namespace Chart

/-- The entries that an object has as a part of a document with other names. -/
def inPart (σ : String → String) (isRoot : Bool) (d : Dict) : Dict :=
  Dict.mapUnder (Value.relabeledUnder σ) (if isRoot then Dict.eraseAll d rootOnlyKeys else d)

variable (σ : String → String)

theorem inPart_false (d : Dict) :
    .dict (inPart σ false d) = Value.relabeled σ (.dict d) :=
  (Value.relabeled_dict σ d).symm

theorem inPart_insert (isRoot : Bool) (d : Dict) {key : String} (part : key ∉ rootOnlyKeys)
    (v : Value) : inPart σ isRoot (Dict.insert d (.string key) v) =
      Dict.insert (inPart σ isRoot d) (.string key) (Value.relabeledUnder σ key v) := by
  cases isRoot with
  | true =>
    show Dict.mapUnder _ (Dict.eraseAll (Dict.insert d (.string key) v) rootOnlyKeys) = _
    rw [Dict.eraseAll_insert_of_not_mem d part, Dict.mapUnder_insert]
    rfl
  | false => exact Dict.mapUnder_insert _ d key v

theorem inPart_ownEntries {n : Node} (h : n.Regular) (isRoot : Bool) :
    inPart σ isRoot (n.ownEntries isRoot) = n.ownEntries false := by
  have same : (if isRoot then Dict.eraseAll (n.ownEntries isRoot) rootOnlyKeys
      else n.ownEntries isRoot) = n.ownEntries false := by
    cases isRoot <;> rfl
  rw [inPart, same]
  exact (h.ownEntries_under false).mapUnder_relabeled σ

theorem axesOf_insert_spec (n : Node) (isRoot : Bool) (v w : Value) :
    axesOf (.dict (Dict.insert (n.ownEntries isRoot) (.string "spec") v)) =
      axesOf (.dict (Dict.insert (n.ownEntries false) (.string "spec") w)) := by
  have kept : Dict.get? (n.ownEntries isRoot) (.string "repeat") =
      Dict.get? (n.ownEntries false) (.string "repeat") := by
    cases isRoot with
    | true => exact (Dict.get?_eraseAll_of_not_mem n.entries (by decide)).symm
    | false => rfl
  rw [axesOf_dict, axesOf_dict, Dict.get?_insert_of_ne _ (by decide),
    Dict.get?_insert_of_ne _ (by decide), kept]

theorem bindAxisApart_relabeled (kind : Kind) (channels axis : Value) (d : Dict) :
    bindAxisApart kind channels (Value.relabeled σ (.dict d)) axis =
      (bindAxisApart kind channels (.dict d) axis).map (Value.relabeled σ) := by
  have kept : ∀ v, Value.relabeledUnder σ kind.channelsKey v = v := by
    intro v
    cases kind <;> rfl
  rw [bindAxisApart, bindAxisApart]
  cases boundChannel kind channels axis with
  | error reason => rfl
  | ok channel =>
    simp only [bind, Except.bind]
    split
    · rfl
    · rw [Value.relabeled_dict, withBindingApart_dict, withBindingApart_dict, Dict.get?_mapUnder]
      have under : (Dict.get? d (.string kind.channelsKey)).map
          (Value.relabeledUnder σ kind.channelsKey) = Dict.get? d (.string kind.channelsKey) := by
        cases Dict.get? d (.string kind.channelsKey) with
        | none => rfl
        | some v => rw [Option.map_some, kept v]
      rw [under]
      cases definitionsWith channel axis (Dict.get? d (.string kind.channelsKey)) with
      | error reason => rfl
      | ok definitions =>
        show Except.ok _ = Except.ok (Value.relabeled σ (.dict _))
        rw [Value.relabeled_dict, Dict.mapUnder_insert, kept]

theorem bindAxisApart_ok_dict {kind : Kind} {channels axis bound : Value} {d : Dict}
    (h : bindAxisApart kind channels (.dict d) axis = .ok bound) : ∃ e, bound = .dict e := by
  obtain rfl | ⟨_, _, _, _, _, _, _, _, rfl⟩ := bindAxisApart_ok h
  · exact ⟨d, rfl⟩
  · exact ⟨_, rfl⟩

theorem bindAxesApart_relabeled {own own' : Value} (axes : axesOf own = axesOf own') (kind : Kind)
    (channels : Value) (d : Dict) :
    bindAxesApart own' channels kind (Value.relabeled σ (.dict d)) =
      (bindAxesApart own channels kind (.dict d)).map (Value.relabeled σ) := by
  rw [bindAxesApart, bindAxesApart, axes]
  cases axesOf own' with
  | error reason => rfl
  | ok all =>
    show all.foldlM (bindAxisApart kind channels) _ =
      (all.foldlM (bindAxisApart kind channels) _).map _
    clear axes
    induction all generalizing d with
    | nil => rfl
    | cons axis rest ih =>
      rw [List.foldlM_cons, List.foldlM_cons, bindAxisApart_relabeled]
      cases first : bindAxisApart kind channels (.dict d) axis with
      | error reason => rfl
      | ok next =>
        obtain ⟨e, rfl⟩ := bindAxisApart_ok_dict first
        exact ih e

end Chart

/-! ### Walks side by side -/

/-- Scopes that hold the data object of one reference, each by its own names, or none. -/
inductive FacetScope.Match (F F' : Registry) : FacetScope → FacetScope → Prop where
  | outside : Match F F' .outside .outside
  | waiting : Match F F' .waiting .waiting
  | holding {r : DataReference} (regular : r.Regular) (unnamed : r.Unnamed) (held : r.HeldIn F) :
    Match F F' (.holding (r.resolvedIn F)) (.holding (r.resolvedIn F'))

namespace Chart

/-- No visited node has an option called `name`. -/
def Unnamed (c : Chart) : Prop :=
  ∀ n ∈ c.visited, ∀ r, n.reference? = some r → r.Unnamed

theorem Unnamed.of_single {id : Nat} {n : Node} {children : List Chart} {c : Chart}
    (unnamed : (node id n children (some c)).Unnamed) (single : n.kind.isSingle = true) :
    c.Unnamed := by
  intro m mem
  apply unnamed m
  rw [visited_single_some single]
  exact List.mem_cons_of_mem _ mem

theorem Unnamed.of_concat {id : Nat} {n : Node} {children : List Chart} {child : Option Chart}
    (unnamed : (node id n children child).Unnamed) (concat : n.kind.isConcat = true) :
    ∀ c ∈ children, c.Unnamed := by
  intro c mem m visited
  apply unnamed m
  rw [visited_concat concat]
  exact List.mem_cons_of_mem _ (List.mem_flatMap.2 ⟨c, mem, visited⟩)

/-- What two walks over one chart end with: an object and what it is in a part, and scopes that
match. -/
structure Matched (σ : String → String) (F F' : Registry) (isRoot : Bool) (p q : Value × Walk) :
    Prop where
  object : ∃ entries, p.1 = .dict entries ∧ q.1 = .dict (inPart σ isRoot entries)
  scope : p.2.scope.Match F F' q.2.scope

/-- What two walks over a list of charts end with. -/
structure MatchedAll (σ : String → String) (F F' : Registry) (p q : List Value × Walk) : Prop where
  objects : q.1 = p.1.map (Value.relabeled σ)
  scope : p.2.scope.Match F F' q.2.scope

section Walks

variable {σ : String → String} {F F' : Registry} {r : DataReference} {s s' : FacetScope}

theorem inPart_data (renames : F.Renames σ F') (regular : r.Regular) (unnamed : r.Unnamed)
    (held : r.HeldIn F) (isRoot : Bool) (own : Dict) :
    inPart σ isRoot (Dict.insert own (.string "data") (.dict (r.resolvedIn F))) =
      Dict.insert (inPart σ isRoot own) (.string "data") (.dict (r.resolvedIn F')) := by
  have names : ∀ blob, r.values = some blob → σ (F.nameOf blob) = F'.nameOf blob :=
    fun blob values => (renames blob (held blob values)).2
  rw [inPart_insert σ isRoot own (by decide),
    ← DataReference.renamed_resolvedIn regular unnamed names]
  rfl

theorem placed_matched (renames : F.Renames σ F') (regular : r.Regular) (unnamed : r.Unnamed)
    (held : r.HeldIn F) (isRoot : Bool) (own : Dict) (scopes : s.Match F F' s') :
    Agree (fun p q => q.1 = inPart σ isRoot p.1 ∧ p.2.Match F F' q.2)
      (placed (r.resolvedIn F) own s) (placed (r.resolvedIn F') (inPart σ isRoot own) s') := by
  have written := inPart_data renames regular unnamed held isRoot own
  cases scopes with
  | outside => exact ⟨written.symm, .outside⟩
  | waiting => exact ⟨rfl, .holding regular unnamed held⟩
  | @holding r₁ regular₁ unnamed₁ held₁ =>
    have held' : r.HeldIn F' := fun blob values => (renames blob (held blob values)).1
    have held₁' : r₁.HeldIn F' := fun blob values => (renames blob (held₁ blob values)).1
    rw [placed, placed, DataReference.sameData_unnamed regular₁ regular unnamed₁ unnamed held₁ held
      held₁' held']
    cases (r₁.resolvedIn F').sameData (r.resolvedIn F') with
    | error reason => rfl
    | ok met =>
      cases met with
      | true => exact ⟨rfl, .holding regular₁ unnamed₁ held₁⟩
      | false => exact ⟨written.symm, .holding regular₁ unnamed₁ held₁⟩

theorem withHeld_matched (renames : F.Renames σ F') (isRoot : Bool) (own : Dict)
    (scopes : s.Match F F' s') :
    inPart σ isRoot (withHeld own s) = withHeld (inPart σ isRoot own) s' := by
  cases scopes with
  | outside => rfl
  | waiting => rfl
  | holding regular unnamed held => exact inPart_data renames regular unnamed held isRoot own

/-! ### Kind by kind -/

variable {isRoot : Bool} {R R' : Registry} {id : Nat} {n : Node} {children : List Chart}
  {child : Option Chart}

theorem matched_data (isRoot : Bool) (renames : F.Renames σ F') (h : n.Regular)
    (unnamed : ∀ r, (node id n children child).reference? = some r → r.Unnamed)
    (le : (R.addAll (node id n children child).blob?.toList).blobs <+: F.blobs)
    (le' : (R'.addAll (node id n children child).blob?.toList).blobs <+: F'.blobs)
    (scopes : s.Match F F' s') :
    Agree (Matched σ F F' isRoot) ((placeData n.data (.dict (n.ownEntries isRoot))).run ⟨R, s⟩)
      ((placeData n.data (.dict (n.ownEntries false))).run ⟨R', s'⟩) := by
  have own := inPart_ownEntries σ h isRoot
  rcases h.data_cases with ⟨data, _⟩ | ⟨r, data, regular, reference⟩
  · rw [data, placeData_empty, placeData_empty, ← own]
    exact ⟨⟨_, rfl, rfl⟩, scopes⟩
  · have blob : (node id n children child).blob?.toList = r.blobs := by
      rw [blob?, reference]
      rfl
    rw [blob] at le le'
    have held : r.HeldIn F := fun blob values => by
      have mem : blob ∈ r.blobs := by
        rw [DataReference.blobs, values]
        exact List.mem_singleton.2 rfl
      exact (Registry.holds_addAll R mem).of_growth le
    have placed := placed_matched renames regular (unnamed r (reference id children child)) held
      isRoot (n.ownEntries isRoot) scopes
    rw [own] at placed
    rw [data, run_placeData regular, run_placeData regular,
      DataReference.resolvedIn_of_growth le, DataReference.resolvedIn_of_growth le']
    refine placed.map_mapError CompileError.misuse fun p q matched => ?_
    exact ⟨⟨p.1, rfl, congrArg Value.dict matched.1⟩, matched.2⟩

theorem matched_unit (renames : F.Renames σ F') (h : n.Regular) (kind : n.kind = .unit)
    (unnamed : (node id n children child).Unnamed)
    (le : (R.addAll (node id n children child).blobs).blobs <+: F.blobs)
    (le' : (R'.addAll (node id n children child).blobs).blobs <+: F'.blobs)
    (scopes : s.Match F F' s') :
    Agree (Matched σ F F' isRoot) ((assemble isRoot (node id n children child)).run ⟨R, s⟩)
      ((assemble false (node id n children child)).run ⟨R', s'⟩) := by
  rw [blobs_unit kind] at le le'
  rw [assemble_unit isRoot h kind, assemble_unit false h kind]
  exact matched_data isRoot renames h (unnamed _ mem_visited_self) le le' scopes

theorem matched_enter {α β : Type} {m : Walker α} {m' : Walker β}
    {next : α × Walk → β × Walk → Prop} (scopes : s.Match F F' s')
    (inside : Agree next (m.run ⟨R, .waiting⟩) (m'.run ⟨R', .waiting⟩)) :
    Agree next ((enterFacet >>= fun _ => m).run ⟨R, s⟩)
      ((enterFacet >>= fun _ => m').run ⟨R', s'⟩) := by
  rw [StateT.run_bind, StateT.run_bind, run_enterFacet, run_enterFacet]
  cases scopes with
  | outside => exact inside
  | waiting => rfl
  | holding _ _ _ => rfl

theorem matched_leave (renames : F.Renames σ F') (own : Dict) (scopes : s.Match F F' s') :
    Agree (Matched σ F F' isRoot) ((leaveFacet (.dict own)).run ⟨R, s⟩)
      ((leaveFacet (.dict (inPart σ isRoot own))).run ⟨R', s'⟩) := by
  rw [run_leaveFacet, run_leaveFacet, ← withHeld_matched renames isRoot own scopes]
  exact ⟨⟨_, rfl, rfl⟩, .outside⟩

theorem matched_facet_none (renames : F.Renames σ F') (h : n.Regular) (kind : n.kind = .facet)
    (unnamed : (node id n children none).Unnamed)
    (le : (R.addAll (node id n children none).blobs).blobs <+: F.blobs)
    (le' : (R'.addAll (node id n children none).blobs).blobs <+: F'.blobs)
    (scopes : s.Match F F' s') :
    Agree (Matched σ F F' isRoot) ((assemble isRoot (node id n children none)).run ⟨R, s⟩)
      ((assemble false (node id n children none)).run ⟨R', s'⟩) := by
  have single : n.kind.isSingle = true := Kind.isSingle_iff.2 (.inl kind)
  rw [blobs_single_none single] at le le'
  rw [assemble_facet_none isRoot h kind, assemble_facet_none false h kind]
  refine matched_enter scopes ?_
  rw [StateT.run_bind, StateT.run_bind]
  have own := matched_data isRoot renames h (unnamed _ mem_visited_self) le le' .waiting
  refine own.bind fun p q _ _ placed => ?_
  obtain ⟨entries, object, object'⟩ := placed.object
  rw [object, object']
  exact matched_leave renames entries placed.scope

theorem matched_facet_some (renames : F.Renames σ F') (h : n.Regular) (kind : n.kind = .facet)
    {c : Chart} (unnamed : (node id n children (some c)).Unnamed)
    (le : (R.addAll (node id n children (some c)).blobs).blobs <+: F.blobs)
    (le' : (R'.addAll (node id n children (some c)).blobs).blobs <+: F'.blobs)
    (scopes : s.Match F F' s')
    (below : ∀ {R R' s s'}, (R.addAll c.blobs).blobs <+: F.blobs →
      (R'.addAll c.blobs).blobs <+: F'.blobs → s.Match F F' s' →
      Agree (Matched σ F F' false) ((assemble false c).run ⟨R, s⟩)
        ((assemble false c).run ⟨R', s'⟩)) :
    Agree (Matched σ F F' isRoot) ((assemble isRoot (node id n children (some c))).run ⟨R, s⟩)
      ((assemble false (node id n children (some c))).run ⟨R', s'⟩) := by
  have single : n.kind.isSingle = true := Kind.isSingle_iff.2 (.inl kind)
  rw [blobs_single_some single, Registry.addAll_append] at le le'
  have own := matched_data isRoot renames h (unnamed _ mem_visited_self)
    ((Registry.prefix_addAll _ c.blobs).trans le) ((Registry.prefix_addAll _ c.blobs).trans le')
    .waiting
  rw [assemble_facet_some isRoot h kind, assemble_facet_some false h kind]
  refine matched_enter scopes ?_
  rw [StateT.run_bind, StateT.run_bind]
  refine own.bind fun p q place place' placed => ?_
  obtain ⟨entries, object, object'⟩ := placed.object
  have registry := (walked_data h isRoot place id children (some c)).1
  have registry' := (walked_data h false place' id children (some c)).1
  rw [← registry] at le
  rw [← registry'] at le'
  rw [StateT.run_bind, StateT.run_bind]
  refine (below le le' placed.scope).bind fun inner inner' _ _ matched => ?_
  obtain ⟨spec, shown, shown'⟩ := matched.object
  rw [object, object', shown, shown', withField_dict, withField_dict, pure_bind, pure_bind]
  have written : inPart σ isRoot (Dict.insert entries (.string "spec") (.dict spec)) =
      Dict.insert (inPart σ isRoot entries) (.string "spec") (.dict (inPart σ false spec)) := by
    rw [inPart_insert σ isRoot entries (by decide), inPart_false]
    rfl
  rw [← written]
  exact matched_leave renames _ matched.scope

theorem matched_repeated_none (h : n.Regular) (kind : n.kind = .repeated)
    (scopes : s.Match F F' s') :
    Agree (Matched σ F F' isRoot) ((assemble isRoot (node id n children none)).run ⟨R, s⟩)
      ((assemble false (node id n children none)).run ⟨R', s'⟩) := by
  rw [assemble_repeated_none isRoot h kind, assemble_repeated_none false h kind]
  exact ⟨⟨_, rfl, congrArg Value.dict (inPart_ownEntries σ h isRoot).symm⟩, scopes⟩

theorem matched_repeated_some (h : n.Regular) (kind : n.kind = .repeated) {c : Chart}
    (regular : c.All Node.Regular)
    (below : Agree (Matched σ F F' false) ((assemble false c).run ⟨R, s⟩)
      ((assemble false c).run ⟨R', s'⟩)) :
    Agree (Matched σ F F' isRoot) ((assemble isRoot (node id n children (some c))).run ⟨R, s⟩)
      ((assemble false (node id n children (some c))).run ⟨R', s'⟩) := by
  rw [assemble_repeated_some isRoot h kind regular, assemble_repeated_some false h kind regular]
  cases found : c.kindOf with
  | error reason => rfl
  | ok k =>
    rw [reached_ok, pure_bind, pure_bind]
    cases may : k.canRepeat with
    | false => rfl
    | true =>
      simp only [if_pos]
      rw [StateT.run_bind, StateT.run_bind]
      refine below.bind fun inner inner' _ _ matched => ?_
      obtain ⟨spec, object, object'⟩ := matched.object
      rw [object, object', inPart_false]
      have axes := axesOf_insert_spec n isRoot (.dict spec) (Value.relabeled σ (.dict spec))
      have bound := bindAxesApart_relabeled σ axes k n.repeatChannels spec
      cases binding : bindAxesApart (.dict (Dict.insert (n.ownEntries isRoot) (.string "spec")
          (.dict spec))) n.repeatChannels k (.dict spec) with
      | error reason =>
        rw [binding] at bound
        rw [bound]
        rfl
      | ok w =>
        rw [binding] at bound
        rw [bound]
        refine ⟨⟨_, rfl, congrArg Value.dict ?_⟩, matched.scope⟩
        rw [inPart_insert σ isRoot _ (by decide), inPart_ownEntries σ h]
        rfl

theorem matched_concat (h : n.Regular) (kind : n.kind.isConcat = true)
    (below : Agree (MatchedAll σ F F') ((assembleAll children).run ⟨R, s⟩)
      ((assembleAll children).run ⟨R', s'⟩)) :
    Agree (Matched σ F F' isRoot) ((assemble isRoot (node id n children child)).run ⟨R, s⟩)
      ((assemble false (node id n children child)).run ⟨R', s'⟩) := by
  rw [assemble_concat isRoot h kind, assemble_concat false h kind, StateT.run_bind, StateT.run_bind]
  refine below.bind fun inner inner' _ _ matched => ?_
  have part : n.kind.name ∉ rootOnlyKeys ∧ n.kind.name ∈ Value.belowKeys := by
    rcases Kind.isConcat_iff.1 kind with kind | kind | kind <;> rw [kind] <;> decide
  refine ⟨⟨_, rfl, congrArg Value.dict ?_⟩, matched.scope⟩
  rw [inPart_insert σ isRoot _ part.1, inPart_ownEntries σ h, Value.relabeledUnder, if_pos part.2,
    Value.relabeled_list, ← matched.objects]

/-! ### The whole walk -/

theorem matchedAll {cs : List Chart} (regular : ∀ c ∈ cs, c.All Node.Regular)
    (below : ∀ c ∈ cs, ∀ {R R' s s'}, (R.addAll c.blobs).blobs <+: F.blobs →
      (R'.addAll c.blobs).blobs <+: F'.blobs → s.Match F F' s' →
      Agree (Matched σ F F' false) ((assemble false c).run ⟨R, s⟩)
        ((assemble false c).run ⟨R', s'⟩))
    (le : (R.addAll (blobsAll cs)).blobs <+: F.blobs)
    (le' : (R'.addAll (blobsAll cs)).blobs <+: F'.blobs) (scopes : s.Match F F' s') :
    Agree (MatchedAll σ F F') ((assembleAll cs).run ⟨R, s⟩) ((assembleAll cs).run ⟨R', s'⟩) := by
  induction cs generalizing R R' s s' with
  | nil => exact ⟨rfl, scopes⟩
  | cons c cs ih =>
    have split : blobsAll (c :: cs) = c.blobs ++ blobsAll cs := List.flatMap_cons
    rw [split, Registry.addAll_append] at le le'
    have first := below c (List.mem_cons_self ..) ((Registry.prefix_addAll _ _).trans le)
      ((Registry.prefix_addAll _ _).trans le') scopes
    rw [assembleAll_cons, StateT.run_bind, StateT.run_bind]
    refine first.bind fun p q run run' matched => ?_
    have registry := ((regular c (List.mem_cons_self ..)).walked run).registry
    have registry' := ((regular c (List.mem_cons_self ..)).walked run').registry
    rw [← registry] at le
    rw [← registry'] at le'
    have rest := ih (fun d mem => regular d (List.mem_cons_of_mem _ mem))
      (fun d mem => below d (List.mem_cons_of_mem _ mem)) le le' matched.scope
    rw [StateT.run_bind, StateT.run_bind]
    refine rest.bind fun ps qs _ _ matched_rest => ⟨?_, matched_rest.scope⟩
    obtain ⟨entries, object, object'⟩ := matched.object
    rw [inPart_false, ← object] at object'
    show q.1 :: qs.1 = (p.1 :: ps.1).map (Value.relabeled σ)
    rw [object', matched_rest.objects, List.map_cons]

/-- Two walks over one chart agree, one of them as the root and one as a part. -/
theorem All.matched (renames : F.Renames σ F') {c : Chart} (regular : c.All Node.Regular)
    (unnamed : c.Unnamed) {isRoot : Bool} {R R' : Registry} {s s' : FacetScope}
    (le : (R.addAll c.blobs).blobs <+: F.blobs) (le' : (R'.addAll c.blobs).blobs <+: F'.blobs)
    (scopes : s.Match F F' s') :
    Agree (Matched σ F F' isRoot) ((assemble isRoot c).run ⟨R, s⟩)
      ((assemble false c).run ⟨R', s'⟩) := by
  -- The walks may stand anywhere: after the first part neither registry is what it was at the
  -- start, but both still grow into the same two.
  induction regular generalizing isRoot R R' s s' with
  | @node id n children child regular children_all child_all ih_children ih_child =>
    cases kind : n.kind with
    | unit => exact matched_unit renames regular kind unnamed le le' scopes
    | facet =>
      cases child with
      | none => exact matched_facet_none renames regular kind unnamed le le' scopes
      | some c =>
        have inner : c.Unnamed := unnamed.of_single (Kind.isSingle_iff.2 (.inl kind))
        exact matched_facet_some renames regular kind unnamed le le' scopes
          fun le le' scopes => ih_child c rfl inner le le' scopes
    | repeated =>
      cases child with
      | none => exact matched_repeated_none regular kind scopes
      | some c =>
        have single : n.kind.isSingle = true := Kind.isSingle_iff.2 (.inr kind)
        have bare : (Chart.node id n children (some c)).blob?.toList = [] := by
          rw [blob?, reference?_of_not_carries (by rw [kind]; rfl)]
          rfl
        rw [blobs_single_some single, bare, List.nil_append] at le le'
        exact matched_repeated_some regular kind (child_all c rfl)
          (ih_child c rfl (unnamed.of_single single) le le' scopes)
    | layer | hconcat | vconcat =>
      have concat : n.kind.isConcat = true := by
        rw [kind]
        rfl
      have inner := unnamed.of_concat concat
      rw [blobs_concat concat] at le le'
      exact matched_concat regular concat (matchedAll children_all
        (fun c mem {_ _ _ _} le le' scopes => ih_children c mem (inner c mem) le le' scopes)
        le le' scopes)

end Walks

end Chart

end ChartTree
