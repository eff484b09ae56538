import ChartTree.Proofs.Chart.InPlace
import ChartTree.Proofs.Session.Built

/-!
# Assembling a repeat

The node that a repeat wraps is assembled with the identities of its copy, its channels are bound,
and then the identities are released. Where nodes are regular this is the same as to assemble it
without identities and to bind its channels then, since nothing else in an assembled object has
been copied on the occasion. So a repeat is assembled by one equation, too.
-/

namespace ChartTree

/-- No identity that the walk gives is left in a value. -/
def Value.Settled (v : Value) : Prop :=
  released Chart.walking v = v

/-- No identity that the walk gives is left in the data object that waits to be placed. -/
def FacetScope.Settled : FacetScope → Prop
  | .holding object => (Value.dict object).Settled
  | _ => True

namespace Value

theorem Settled.insert {own : Dict} (h : (Value.dict own).Settled) (key : String) {v : Value}
    (hv : v.Settled) : (Value.dict (Dict.insert own (.string key) v)).Settled := by
  have entries : releasedEntries Chart.walking own = own := by
    rw [Settled, released_dict] at h
    exact Content.dict.inj (Value.mk.inj h).2
  rw [Settled] at hv
  rw [Settled, released_dict, Dict.releasedEntries_insert, entries, hv]

theorem settled_list {vs : List Value} (h : ∀ v ∈ vs, v.Settled) : (Value.list vs).Settled := by
  rw [Settled, released_list, releasedItems_eq_map]
  exact congrArg Value.list ((List.map_congr_left h).trans (List.map_id' vs))

/-- Copies for the walk lose the identities that they have from it. -/
theorem released_walking {occasion : Option Nat} (made : ∀ j ∈ occasion, j = Chart.walking)
    (v : Value) : released Chart.walking (copied occasion v) = copied none v :=
  released_copied made v

theorem settled_copied (v : Value) : (copied none v).Settled := by
  have made : ∀ j ∈ (none : Option Nat), j = Chart.walking := fun _ none => (nomatch none)
  exact released_walking made v

theorem IsText.settled {v : Value} (text : v.IsText) : v.Settled :=
  released_of_isText text Chart.walking

end Value

/-! ### Entries and data objects -/

theorem Dict.settled_merge {own : Dict} (h : (Value.dict own).Settled)
    {fields : List (String × Value)} (hfields : ∀ field ∈ fields, field.2.Settled) :
    (Value.dict (Dict.merge own (Dict.ofFields fields))).Settled := by
  induction fields generalizing own with
  | nil => exact h
  | cons field fields ih =>
    obtain ⟨first, rest⟩ := List.forall_mem_cons.1 hfields
    exact ih (h.insert field.1 first) rest

theorem DataReference.Regular.settled {r : DataReference} (h : r.Regular) (R : Registry) :
    (Value.dict (r.resolvedIn R)).Settled := by
  obtain ⟨id, fields, eq, _, _⟩ := h.options
  have extras : r.extras =
      Dict.ofFields (fields.map fun field => (field.1, Value.copied none field.2)) := by
    rw [DataReference.extras, eq]
    exact Dict.copiedEntries_ofFields none fields
  have payload : (Value.dict (r.payload (r.nameIn R))).Settled := by
    cases held : r.values with
    | none =>
      rw [DataReference.payload_address held]
      rw [Value.Settled, Value.released_dict, Value.releasedEntries,
        Value.IsText.settled (h.source held)]
      rfl
    | some blob =>
      rw [DataReference.payload_inline held]
      rfl
  rw [DataReference.resolvedIn, extras]
  refine Dict.settled_merge payload (List.forall_mem_map.2 fun field _ => ?_)
  exact Value.settled_copied field.2

namespace Node.Regular

variable {n : Node}

/-- The entries of a copy that the walk has made are those of a copy without identities, once they
are released. -/
theorem releasedEntries_ownEntriesOn (h : n.Regular) {occasion : Option Nat}
    (made : ∀ j ∈ occasion, j = Chart.walking) (isRoot : Bool) :
    Value.releasedEntries Chart.walking (n.ownEntriesOn occasion isRoot) = n.ownEntries isRoot := by
  obtain ⟨id, entries, eq, _⟩ := h.spec.properties
  have copies : Value.releasedEntries Chart.walking (n.entriesOn occasion) = n.entries := by
    rw [Node.entries, entriesOn_eq eq, entriesOn_eq eq, Value.releasedEntries_eq_map,
      Value.copiedEntries_eq_map, Value.copiedEntries_eq_map, List.map_map]
    exact List.map_congr_left fun e _ =>
      Prod.ext (Value.released_walking made e.1) (Value.released_walking made e.2)
  cases isRoot with
  | true => exact copies
  | false =>
    have erased : ∀ (names : List String) (d : Dict), Value.releasedEntries Chart.walking
        (Dict.eraseAll d names) = Dict.eraseAll (Value.releasedEntries Chart.walking d) names := by
      intro names
      induction names with
      | nil => exact fun _ => rfl
      | cons name names ih =>
        intro d
        show Value.releasedEntries _ (Dict.eraseAll (Dict.erase d (.string name)) names) =
          Dict.eraseAll (Dict.erase (Value.releasedEntries _ d) (.string name)) names
        rw [ih, Dict.releasedEntries_erase]
    exact (erased rootOnlyKeys _).trans (congrArg (Dict.eraseAll · rootOnlyKeys) copies)

theorem settled_ownEntries (h : n.Regular) (isRoot : Bool) :
    (Value.dict (n.ownEntries isRoot)).Settled := by
  have made : ∀ j ∈ (none : Option Nat), j = Chart.walking := fun _ none => (nomatch none)
  rw [Value.Settled, Value.released_dict]
  exact congrArg Value.dict (h.releasedEntries_ownEntriesOn made isRoot)

/-- The definitions of channels stand in one place in a copy of a node. -/
theorem unshared_ownEntriesOn (h : n.Regular) (occasion : Option Nat) (isRoot : Bool)
    {key : String} (mem : key ∈ mapKeys) {v : Value}
    (held : Dict.get? (n.ownEntriesOn occasion isRoot) (.string key) = some v) : v.IsUnshared := by
  obtain ⟨id, entries, eq, _⟩ := h.spec.properties
  have kept : Dict.get? (n.entriesOn occasion) (.string key) = some v := by
    cases isRoot with
    | true => exact held
    | false =>
      refine (Dict.get?_eraseAll_of_not_mem _ ?_).symm.trans held
      simp only [mapKeys, List.mem_cons, List.not_mem_nil, or_false] at mem
      rcases mem with rfl | rfl | rfl <;> decide
  rw [entriesOn_eq eq, Dict.get?_copiedEntries] at kept
  obtain ⟨w, stands, rfl⟩ := Option.map_eq_some_iff.1 kept
  refine (h.spec.unshared.maps key mem w ?_).copied occasion
  rw [eq]
  exact stands

end Node.Regular

namespace Chart

/-! ### Objects that are bound later -/

/-- From one place, two stretches of the walk do the same, but what the first comes to has still to
be released; the definitions of channels stand in one place in it. -/
def ReleasesAt (w : Walk) (key : String) (m m' : Walker Value) : Prop :=
  m'.run w = (m.run w).map (fun p => (p.1.released walking, p.2)) ∧
    ∀ p, m.run w = .ok p → HoldsApart key p.1 ∧ (w.scope.Settled → p.2.scope.Settled)

/-- A stretch of the walk comes to settled values only, from where nothing else waits. -/
def Settles (m : Walker Value) : Prop :=
  ∀ w p, w.scope.Settled → m.run w = .ok p → p.1.Settled ∧ p.2.scope.Settled

theorem HoldsApart.insert {key other : String} {own : Dict} (h : HoldsApart key (.dict own))
    (ne : other ≠ key) (v : Value) :
    HoldsApart key (.dict (Dict.insert own (.string other) v)) := by
  obtain ⟨fields, eq, unshared⟩ := h
  cases eq
  refine ⟨_, rfl, fun w held => unshared w ?_⟩
  rwa [Dict.get?_insert_of_ne _ ne] at held

theorem releasesAt_ok {w u : Walk} {key : String} {m m' : Walker Value} {own : Dict}
    (run : m.run w = .ok (.dict own, u)) (apart : HoldsApart key (.dict own))
    (scope : w.scope.Settled → u.scope.Settled)
    (run' : m'.run w = .ok (.dict (Value.releasedEntries walking own), u)) :
    ReleasesAt w key m m' := by
  refine ⟨?_, fun p ok => ?_⟩
  · rw [run, run']
    exact congrArg (fun v => Except.ok (v, u)) (Value.released_dict walking own).symm
  · cases run.symm.trans ok
    exact ⟨apart, scope⟩

theorem releasesAt_error {w : Walk} {key : String} {m m' : Walker Value} {e : CompileError}
    (run : m.run w = .error e) (run' : m'.run w = .error e) : ReleasesAt w key m m' :=
  ⟨by rw [run, run']; rfl, fun p ok => by cases run.symm.trans ok⟩

theorem run_bind_eq {α β : Type} {m : Walker α} {f : α → Walker β} {w : Walk} :
    (m >>= f).run w = (m.run w).bind fun p => (f p.1).run p.2 := rfl

theorem ReleasesAt.bind {w : Walk} {key : String} {m m' : Walker Value}
    {f f' : Value → Walker Value} (h : ReleasesAt w key m m')
    (next : ∀ own u, HoldsApart key (.dict own) → (w.scope.Settled → u.scope.Settled) →
      ReleasesAt u key (f (.dict own)) (f' (.dict (Value.releasedEntries walking own)))) :
    ReleasesAt w key (m >>= f) (m' >>= f') := by
  obtain ⟨same, ok⟩ := h
  rw [ReleasesAt, run_bind_eq, run_bind_eq, same]
  cases run : m.run w with
  | error e => exact ⟨rfl, fun p ok => by cases ok⟩
  | ok p =>
    obtain ⟨v, u⟩ := p
    obtain ⟨apart, scope⟩ := ok _ run
    obtain ⟨own, rfl, _⟩ := id apart
    obtain ⟨same', ok'⟩ := next own u apart scope
    simp only [Except.map, Value.released_dict]
    exact ⟨same', fun q run' => ⟨(ok' q run').1, fun h => (ok' q run').2 (scope h)⟩⟩

section Data

variable {n : Node} (h : n.Regular) {own : Dict} {key : String}

include h

/-- Placing data writes at most the data object, which is settled. -/
theorem placeData_cases (w : Walk) :
    (∃ e, ∀ own, (placeData n.data (.dict own)).run w = .error e) ∨
      ∃ u, (w.scope.Settled → u.scope.Settled) ∧
        ((∀ own, (placeData n.data (.dict own)).run w = .ok (.dict own, u)) ∨
          ∃ object, (Value.dict object).Settled ∧ ∀ own, (placeData n.data (.dict own)).run w =
            .ok (.dict (Dict.insert own (.string "data") (.dict object)), u)) := by
  obtain ⟨R, s⟩ := w
  rcases h.spec.data with empty | ⟨_, r, reference, regular⟩
  · rw [empty]
    exact .inr ⟨⟨R, s⟩, id, .inl fun own => rfl⟩
  · rw [reference]
    have settled := regular.settled R
    simp only [run_placeData regular]
    cases s with
    | outside =>
      exact .inr ⟨⟨R.addAll r.blobs, .outside⟩, id, .inr ⟨_, settled, fun own => rfl⟩⟩
    | waiting =>
      exact .inr ⟨⟨R.addAll r.blobs, .holding (r.resolvedIn R)⟩, fun _ => settled,
        .inl fun own => rfl⟩
    | holding first =>
      simp only [placed]
      cases first.sameData (r.resolvedIn R) with
      | error reason => exact .inl ⟨.misuse reason, fun own => rfl⟩
      | ok met =>
        cases met with
        | true => exact .inr ⟨⟨_, .holding first⟩, id, .inl fun own => rfl⟩
        | false => exact .inr ⟨⟨_, .holding first⟩, id, .inr ⟨_, settled, fun own => rfl⟩⟩

theorem placeData_releasesAt (apart : HoldsApart key (.dict own)) (ne : "data" ≠ key) (w : Walk) :
    ReleasesAt w key (placeData n.data (.dict own))
      (placeData n.data (.dict (Value.releasedEntries walking own))) := by
  rcases placeData_cases h w with ⟨e, run⟩ | ⟨u, scope, run | ⟨object, settled, run⟩⟩
  · exact releasesAt_error (run _) (run _)
  · exact releasesAt_ok (run _) apart scope (run _)
  · refine releasesAt_ok (run _) (apart.insert ne _) scope ((run _).trans ?_)
    rw [Dict.releasedEntries_insert, settled]

theorem placeData_settles (own : Dict) (settled : (Value.dict own).Settled) :
    Settles (placeData n.data (.dict own)) := by
  intro w p here ok
  rcases placeData_cases h w with ⟨e, run⟩ | ⟨u, scope, run | ⟨object, data, run⟩⟩
  · cases (run own).symm.trans ok
  · cases (run own).symm.trans ok
    exact ⟨settled, scope here⟩
  · cases (run own).symm.trans ok
    exact ⟨settled.insert "data" data, scope here⟩

end Data

theorem leaveFacet_releasesAt {own : Dict} {w : Walk} (settled : w.scope.Settled)
    (apart : HoldsApart "facet" (.dict own)) :
    ReleasesAt w "facet" (leaveFacet (.dict own))
      (leaveFacet (.dict (Value.releasedEntries walking own))) := by
  obtain ⟨R, s⟩ := w
  cases s with
  | outside | waiting => exact releasesAt_ok (run_leaveFacet ..) apart id (run_leaveFacet ..)
  | holding object =>
    refine releasesAt_ok (run_leaveFacet ..) (apart.insert (by decide) _) (fun _ => trivial)
      ((run_leaveFacet ..).trans ?_)
    rw [withHeld, withHeld, Dict.releasedEntries_insert, settled]

theorem leaveFacet_settles {own : Dict} (settled : (Value.dict own).Settled) :
    Settles (leaveFacet (.dict own)) := by
  intro w p here ok
  obtain ⟨R, s⟩ := w
  rw [run_leaveFacet] at ok
  cases ok
  refine ⟨?_, trivial⟩
  cases s with
  | outside | waiting => exact settled
  | holding object => exact settled.insert "data" here

/-! ### Kind by kind -/

/-- What the walk does with a chart that stands in a repeat. -/
def Releases (c : Chart) : Prop :=
  ∀ kind, c.kindOf = .ok kind → kind.canRepeat = true → ∀ w,
    ReleasesAt w kind.channelsKey (assembleOn (some walking) false c) (assemble false c)

section Kinds

variable {id : Nat} {n : Node} {children : List Chart} {child : Option Chart}

theorem walking_made : ∀ j ∈ some walking, j = walking :=
  fun _ here => (Option.some.inj here).symm

theorem Node.Regular.holdsApart (h : n.Regular) :
    HoldsApart n.kind.channelsKey (.dict (n.ownEntriesOn (some walking) false)) :=
  ⟨_, rfl, fun _ => h.unshared_ownEntriesOn _ false n.kind.channelsKey_mem_mapKeys⟩

theorem releases_unit (h : n.Regular) (kind : n.kind = .unit) :
    Releases (.node id n children child) := by
  intro k known _ w
  cases known
  rw [assembleOn_unit _ _ h kind, assemble_unit _ h kind,
    ← h.releasedEntries_ownEntriesOn walking_made]
  exact placeData_releasesAt h (Node.Regular.holdsApart h) (by rw [kind]; decide) w

theorem enterFacet_cases (w : Walk) : (∃ e, enterFacet.run w = .error e) ∨
    enterFacet.run w = .ok ((), ⟨w.registry, .waiting⟩) := by
  obtain ⟨R, s⟩ := w
  cases s with
  | outside => exact .inr rfl
  | waiting | holding => exact .inl ⟨_, rfl⟩

/-- In a facet nothing else waits. -/
theorem ReleasesAt.enterFacet {w : Walk} {key : String} {m m' : Walker Value}
    (inside : ∀ R, ReleasesAt ⟨R, .waiting⟩ key m m') :
    ReleasesAt w key (enterFacet >>= fun _ => m) (enterFacet >>= fun _ => m') := by
  rcases enterFacet_cases w with ⟨e, run⟩ | run
  · exact releasesAt_error (by rw [run_bind_eq, run]; rfl) (by rw [run_bind_eq, run]; rfl)
  · obtain ⟨same, ok⟩ := inside w.registry
    rw [ReleasesAt, run_bind_eq, run_bind_eq, run]
    exact ⟨same, fun p here => ⟨(ok p here).1, fun _ => (ok p here).2 trivial⟩⟩

theorem releases_facet_none (h : n.Regular) (kind : n.kind = .facet) :
    Releases (.node id n children none) := by
  intro k known _ w
  cases known
  have apart := Node.Regular.holdsApart h
  rw [kind] at apart ⊢
  rw [assembleOn_facet_none _ _ h kind, assemble_facet_none _ h kind,
    ← h.releasedEntries_ownEntriesOn walking_made]
  refine .enterFacet fun R => (placeData_releasesAt h apart (by decide) _).bind fun own u apart
    settled => leaveFacet_releasesAt (settled trivial) apart

theorem releases_facet_some (h : n.Regular) (kind : n.kind = .facet) {c : Chart}
    (below : Settles (assemble false c)) : Releases (.node id n children (some c)) := by
  intro k known _ w
  cases known
  have apart := Node.Regular.holdsApart h
  rw [kind] at apart ⊢
  rw [assembleOn_facet_some _ _ h kind, assemble_facet_some _ h kind,
    ← h.releasedEntries_ownEntriesOn walking_made]
  refine .enterFacet fun R => (placeData_releasesAt h apart (by decide) _).bind fun own u apart
    settled => ?_
  rw [ReleasesAt, run_bind_eq, run_bind_eq]
  cases run : (assemble false c).run u with
  | error e => exact ⟨rfl, fun p ok => by cases ok⟩
  | ok p =>
    obtain ⟨v, t⟩ := p
    obtain ⟨inner, scope⟩ := below u _ (settled trivial) run
    have left := leaveFacet_releasesAt scope (apart.insert (by decide : "spec" ≠ "facet") v)
    rw [Dict.releasedEntries_insert, inner] at left
    exact ⟨left.1, fun q ok => ⟨(left.2 q ok).1, fun _ => (left.2 q ok).2 scope⟩⟩

/-- The axes of a repeat are texts. -/
theorem axesOf_texts (h : n.Regular) (isRoot : Bool) (v : Value) :
    ∃ axes, axesOf (.dict (Dict.insert (n.ownEntries isRoot) (.string "spec") v)) = .ok axes ∧
      ∀ axis ∈ axes, axis.IsText := by
  rw [axesOf_dict, Dict.get?_insert_of_ne _ (by decide)]
  cases held : Dict.get? (n.ownEntries isRoot) (.string "repeat") with
  | none => exact ⟨[], rfl, List.forall_mem_nil _⟩
  | some axes =>
    obtain ⟨parts, rfl, each⟩ := h.unshared_ownEntriesOn none isRoot (by decide) held
    exact ⟨Dict.keys parts, rfl, List.forall_mem_map.2 fun e he => (each e he).1⟩

theorem axesOf_insert (own : Dict) (v w : Value) :
    axesOf (.dict (Dict.insert own (.string "spec") v)) =
      axesOf (.dict (Dict.insert own (.string "spec") w)) := by
  rw [axesOf_dict, axesOf_dict, Dict.get?_insert_of_ne _ (by decide),
    Dict.get?_insert_of_ne _ (by decide)]

theorem repeat_texts (h : n.Regular) (id : Option Identity) (entries : Dict)
    (eq : n.repeatChannels = ⟨id, .dict entries⟩) : ∀ e ∈ entries, e.2.IsText := by
  obtain ⟨_, channels, held, texts⟩ := h.spec.repeatChannels
  rw [held] at eq
  cases eq
  exact texts

/-- The channels of a repeated node are bound in its object without identities. -/
theorem assemble_repeated_of (isRoot : Bool) (h : n.Regular) (kind : n.kind = .repeated)
    {c : Chart} (below : Releases c) :
    assemble isRoot (.node id n children (some c)) = (do
      let kind ← reached c.kindOf
      if kind.canRepeat then
        let inner ← assemble false c
        let bound ← bindAxesApart
          (.dict (Dict.insert (n.ownEntries isRoot) (.string "spec") inner)) n.repeatChannels kind
          inner
        pure (.dict (Dict.insert (n.ownEntries isRoot) (.string "spec") bound))
      else throw (.notRepeatable kind)) := by
  have unfolded : assemble isRoot (.node id n children (some c)) = (do
      let kind ← reached c.kindOf
      if kind.canRepeat then
        let inner ← assembleOn (some walking) false c
        let bound ← bindAxes (.dict (Dict.insert (n.ownEntries isRoot) (.string "spec") inner))
          n.repeatChannels kind inner
        pure (.dict (Dict.insert (n.ownEntries isRoot) (.string "spec") (bound.released walking)))
      else throw (.notRepeatable kind)) := by
    simp only [assemble, assembleOn, copiedProperties_eq h, reached_ok, pure_bind,
      ownProperties_eq, kind, withField_dict, Dict.insert_insert_self, Node.ownEntries]
  rw [unfolded]
  cases known : c.kindOf with
  | error reason => rfl
  | ok k =>
    simp only [reached_ok, pure_bind]
    cases may : k.canRepeat with
    | false => rfl
    | true =>
      simp only [if_true]
      funext w
      obtain ⟨same, ok⟩ := below k known may w
      show ((assembleOn (some walking) false c).run w).bind _ = ((assemble false c).run w).bind _
      rw [same]
      cases run : (assembleOn (some walking) false c).run w with
      | error e => rfl
      | ok p =>
        obtain ⟨v, u⟩ := p
        obtain ⟨apart, _⟩ := ok _ run
        obtain ⟨axes, given, texts⟩ := axesOf_texts h isRoot v
        have bound := bindAxesApart_released (repeat_texts h) given
          ((axesOf_insert _ (v.released walking) v).trans given)
          (fun axis mem => (texts axis mem).settled) apart
        show ((liftM (bindAxes (.dict (Dict.insert (n.ownEntries isRoot) (.string "spec") v))
            n.repeatChannels k v) : Walker Value) >>= fun bound => pure (Value.dict (Dict.insert
              (n.ownEntries isRoot) (.string "spec") (bound.released walking)))).run u =
          ((liftM (bindAxesApart (.dict (Dict.insert (n.ownEntries isRoot) (.string "spec")
            (v.released walking))) n.repeatChannels k (v.released walking)) : Walker Value) >>=
              fun bound => pure (Value.dict (Dict.insert (n.ownEntries isRoot) (.string "spec")
                bound))).run u
        rw [bindAxes_eq_apart (repeat_texts h) _ apart, bound]
        cases bindAxesApart (.dict (Dict.insert (n.ownEntries isRoot) (.string "spec") v))
          n.repeatChannels k v <;> rfl

end Kinds

/-! ### All charts -/

section Settling

variable {id : Nat} {n : Node} {children : List Chart} {child : Option Chart}

theorem Settles.bind {m : Walker Value} {f : Value → Walker Value} (h : Settles m)
    (dicts : ∀ w p, m.run w = .ok p → ∃ own, p.1 = .dict own)
    (next : ∀ own, (Value.dict own).Settled → Settles (f (.dict own))) : Settles (m >>= f) := by
  intro w p here ok
  obtain ⟨v, u, run, rest⟩ := bind_ok ok
  obtain ⟨settled, scope⟩ := h w _ here run
  obtain ⟨own, rfl⟩ := dicts w _ run
  exact next own settled u p scope rest

theorem Settles.enterFacet {m : Walker Value} (h : Settles m) :
    Settles (enterFacet >>= fun _ => m) := by
  intro w p here ok
  obtain ⟨_, u, enter, rest⟩ := bind_ok ok
  rcases enterFacet_cases w with ⟨e, run⟩ | run
  · cases run.symm.trans enter
  · cases run.symm.trans enter
    exact h ⟨w.registry, .waiting⟩ p trivial rest

theorem placeData_dict (h : n.Regular) (own : Dict) (w : Walk) (p : Value × Walk)
    (ok : (placeData n.data (.dict own)).run w = .ok p) : ∃ own, p.1 = .dict own := by
  rcases placeData_cases h w with ⟨e, run⟩ | ⟨u, _, run | ⟨object, _, run⟩⟩ <;>
    cases (run own).symm.trans ok <;> exact ⟨_, rfl⟩

variable (isRoot : Bool)

theorem settles_unit (h : n.Regular) (kind : n.kind = .unit) :
    Settles (assemble isRoot (.node id n children child)) := by
  rw [assemble_unit isRoot h kind]
  exact placeData_settles h _ (h.settled_ownEntries isRoot)

theorem settles_facet_none (h : n.Regular) (kind : n.kind = .facet) :
    Settles (assemble isRoot (.node id n children none)) := by
  rw [assemble_facet_none isRoot h kind]
  exact .enterFacet ((placeData_settles h _ (h.settled_ownEntries isRoot)).bind
    (placeData_dict h _) fun own settled => leaveFacet_settles settled)

theorem settles_facet_some (h : n.Regular) (kind : n.kind = .facet) {c : Chart}
    (below : Settles (assemble false c)) :
    Settles (assemble isRoot (.node id n children (some c))) := by
  rw [assemble_facet_some isRoot h kind]
  refine .enterFacet ((placeData_settles h _ (h.settled_ownEntries isRoot)).bind
    (placeData_dict h _) fun own settled w p here ok => ?_)
  obtain ⟨v, u, run, rest⟩ := bind_ok ok
  obtain ⟨inner, scope⟩ := below w _ here run
  exact leaveFacet_settles (settled.insert "spec" inner) u p scope rest

theorem settles_repeated_none (h : n.Regular) (kind : n.kind = .repeated) :
    Settles (assemble isRoot (.node id n children none)) := by
  intro w p here ok
  rw [assemble_repeated_none isRoot h kind] at ok
  cases ok
  exact ⟨h.settled_ownEntries isRoot, here⟩

/-- What the walk does below a repeat that it comes to an end of. -/
theorem Releases.ok {c : Chart} (releases : Releases c) (below : Settles (assemble false c))
    {kind : Kind} (known : c.kindOf = .ok kind) (may : kind.canRepeat = true) {w u : Walk}
    {v : Value} (here : w.scope.Settled) (run : (assemble false c).run w = .ok (v, u)) :
    HoldsApart kind.channelsKey v ∧ v.Settled ∧ u.scope.Settled := by
  obtain ⟨same, apart⟩ := releases kind known may w
  obtain ⟨⟨first, t⟩, inside, made⟩ := map_eq_ok_iff.1 (same.symm.trans run)
  cases made
  exact ⟨(apart _ inside).1.released walking, below w _ here run⟩

theorem settles_repeated_some (h : n.Regular) (kind : n.kind = .repeated) {c : Chart}
    (releases : Releases c) (below : Settles (assemble false c)) :
    Settles (assemble isRoot (.node id n children (some c))) := by
  rintro w ⟨object, s⟩ here ok
  rw [assemble_repeated_of isRoot h kind releases] at ok
  obtain ⟨k, t, reach, rest⟩ := bind_ok ok
  obtain ⟨known, rfl⟩ := reached_inv reach
  cases may : k.canRepeat with
  | false =>
    rw [may] at rest
    cases rest
  | true =>
    simp only [may, if_true] at rest
    obtain ⟨v, u, run, rest⟩ := bind_ok rest
    obtain ⟨b, u', lifted, last⟩ := bind_ok rest
    obtain ⟨bound, rfl⟩ := lift_ok lifted
    cases last
    obtain ⟨apart, inner, scope⟩ := releases.ok below known may here run
    obtain ⟨axes, given, texts⟩ := axesOf_texts h isRoot v
    -- What is bound in a settled object is settled, as binding commutes with the release.
    have settled := bindAxesApart_released (repeat_texts h) given given
      (fun axis mem => (texts axis mem).settled) apart
    rw [inner, bound] at settled
    have fixed : b.Settled := (Except.ok.inj settled).symm
    exact ⟨(h.settled_ownEntries isRoot).insert "spec" fixed, scope⟩

theorem settles_all {cs : List Chart} (below : ∀ c ∈ cs, Settles (assemble false c)) :
    ∀ w p, w.scope.Settled → (assembleAll cs).run w = .ok p →
      (∀ v ∈ p.1, v.Settled) ∧ p.2.scope.Settled := by
  induction cs with
  | nil =>
    intro w p here ok
    cases ok
    exact ⟨List.forall_mem_nil _, here⟩
  | cons c cs ih =>
    obtain ⟨first, rest⟩ := List.forall_mem_cons.1 below
    rintro w ⟨objects, u⟩ here ok
    rw [assembleAll_cons] at ok
    obtain ⟨v, t, run, ok⟩ := bind_ok ok
    obtain ⟨vs, s, others, last⟩ := bind_ok ok
    cases last
    obtain ⟨settled, scope⟩ := first w _ here run
    obtain ⟨all, last⟩ := ih rest t _ scope others
    exact ⟨List.forall_mem_cons.2 ⟨settled, all⟩, last⟩

theorem settles_concat (h : n.Regular) (kind : n.kind.isConcat = true)
    (below : ∀ c ∈ children, Settles (assemble false c)) :
    Settles (assemble isRoot (.node id n children child)) := by
  rintro w ⟨object, s⟩ here ok
  rw [assemble_concat isRoot h kind] at ok
  obtain ⟨vs, u, run, last⟩ := bind_ok ok
  cases last
  obtain ⟨all, scope⟩ := settles_all below w _ here run
  exact ⟨(h.settled_ownEntries isRoot).insert n.kind.name (Value.settled_list all), scope⟩

end Settling

/-- Of the objects of regular nodes only those that a repeat is about to bind have identities that
are still to be released. -/
theorem releases_and_settles {c : Chart} (regular : c.All Node.Regular) :
    Releases c ∧ ∀ isRoot, Settles (assemble isRoot c) := by
  induction regular with
  | @node id n children child h _ _ ih_children ih_child =>
    cases kind : n.kind with
    | unit => exact ⟨releases_unit h kind, fun isRoot => settles_unit isRoot h kind⟩
    | facet =>
      cases child with
      | none => exact ⟨releases_facet_none h kind, fun isRoot => settles_facet_none isRoot h kind⟩
      | some c =>
        have below := (ih_child c rfl).2 false
        exact ⟨releases_facet_some h kind below,
          fun isRoot => settles_facet_some isRoot h kind below⟩
    | repeated =>
      refine ⟨fun k known may => ?_, fun isRoot => ?_⟩
      · cases known
        rw [kind] at may
        cases may
      · cases child with
        | none => exact settles_repeated_none isRoot h kind
        | some c =>
          obtain ⟨releases, below⟩ := ih_child c rfl
          exact settles_repeated_some isRoot h kind releases (below false)
    | layer | hconcat | vconcat =>
      refine ⟨fun k known may => ?_, fun isRoot => ?_⟩
      · cases known
        rw [kind] at may
        cases may
      · exact settles_concat isRoot h (by rw [kind]; rfl) fun c hc => (ih_children c hc).2 false

/-- A repeat is assembled from the node that it wraps as that is assembled anywhere else. -/
theorem assemble_repeated_some {id : Nat} {n : Node} {children : List Chart} (isRoot : Bool)
    (h : n.Regular) (kind : n.kind = .repeated) {c : Chart} (regular : c.All Node.Regular) :
    assemble isRoot (.node id n children (some c)) = (do
      let kind ← reached c.kindOf
      if kind.canRepeat then
        let inner ← assemble false c
        let bound ← bindAxesApart
          (.dict (Dict.insert (n.ownEntries isRoot) (.string "spec") inner)) n.repeatChannels kind
          inner
        pure (.dict (Dict.insert (n.ownEntries isRoot) (.string "spec") bound))
      else throw (.notRepeatable kind)) :=
  assemble_repeated_of isRoot h kind (releases_and_settles regular).1

end Chart

end ChartTree
