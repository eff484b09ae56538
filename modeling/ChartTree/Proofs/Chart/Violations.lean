import ChartTree.Proofs.Chart.Binding
import ChartTree.Proofs.Chart.Trace

/-!
# What keeps a chart from being compiled

The violations of a chart in the order of the walk: a facet in a facet, a repeat of what cannot be
repeated, an axis of a repeated facet that lays out no cells, and two data options that refuse to be
compared. No setter brings about a repeat of what cannot be repeated.
-/

namespace ChartTree

/-- What stands around a node in the walk: no facet, a facet without data so far, or a facet with
the first reference met in it. -/
inductive Around where
  | outside
  | waiting
  | holding (first : DataReference)

namespace Around

def isOutside : Around → Bool
  | .outside => true
  | _ => false

/-- What stands around the nodes after a reference was met. -/
def meets (a : Around) (r? : Option DataReference) : Around :=
  match a, r? with
  | .waiting, some r => .holding r
  | a, _ => a

def after (a : Around) (c : Chart) : Around :=
  a.meets (c.visited.findSome? Chart.reference?)

end Around

/-- Comparing the first of two names with the second is refused; a name that counts as false is not
compared. -/
def Value.namesRefuse : Option Value → Option Value → Bool
  | some v, some w => v.truthy && v.refuses w
  | _, _ => false

namespace DataReference

/-- Two references have one address that counts as true. -/
def sharesAddress (first r : DataReference) : Bool :=
  first.values.isNone && r.values.isNone && first.url.truthy && first.url.same r.url

/-- Comparing two references comes to names that refuse to be compared. -/
def clashes (first r : DataReference) : Bool :=
  !first.sharesAddress r && Value.namesRefuse first.givenName? r.givenName?

end DataReference

namespace Chart

/-- The data of a unit cannot be compared with the first data of the facet around it. -/
def dataClashes (a : Around) (c : Chart) : List CompileError :=
  match a, c.reference? with
  | .holding first, some r =>
    if first.clashes r then [.misuse (.notComparable .signalling)] else []
  | _, _ => []

/-- The axes of a repeat that are bound to no row or column. -/
def strayAxes (n : Node) : List CompileError :=
  n.axes.filterMap fun axis =>
    if isFacetChannel (n.channelOf axis) then none else some (.notFacetChannel (n.channelOf axis))

mutual

/-- The violations of a chart in the order of the walk, with what its units contribute. -/
def violations (ofUnit : Around → Chart → List CompileError) (a : Around) :
    Chart → List CompileError
  | .other _ => []
  | .node id n children child =>
    match n.kind with
    | .unit => ofUnit a (.node id n children child)
    | .facet =>
      if a.isOutside then
        match child with
        | none => []
        | some c => violations ofUnit
            (Around.waiting.meets (reference? (.node id n children child))) c
      else [.nestedFacet]
    | .repeated =>
      match child with
      | none => []
      | some c =>
        match c.kind? with
        | some .unit => violations ofUnit a c
        | some .facet => violations ofUnit a c ++ strayAxes n
        | some k => [.notRepeatable k]
        | none => []
    | .layer | .hconcat | .vconcat => violationsAll ofUnit a children
termination_by structural c => c

def violationsAll (ofUnit : Around → Chart → List CompileError) (a : Around) :
    List Chart → List CompileError
  | [] => []
  | c :: cs => violations ofUnit a c ++ violationsAll ofUnit (a.after c) cs
termination_by structural cs => cs

end

end Chart

/-! ### Comparing data -/

namespace Value

theorem refuses_of_text_left {v : Value} (text : v.IsText) (w : Value) : v.refuses w = false := by
  obtain ⟨id, c⟩ := v
  obtain ⟨s, content⟩ := text
  cases content
  simp [refuses, numbersRefuse, isSignalling, isNumber, content]

theorem refuses_of_text_right (v : Value) {w : Value} (text : w.IsText) : v.refuses w = false := by
  obtain ⟨s, content⟩ := text
  obtain ⟨id, c⟩ := v
  cases c <;> simp [refuses, numbersRefuse, isSignalling, isNumber, content]

/-- Names that are texts make no difference. -/
theorem namesRefuse_or_text {a? b? : Option Value} (left : ∀ v, a? = some v → v.IsText)
    (right : ∀ w, b? = some w → w.IsText) (v? w? : Option Value) :
    namesRefuse (v?.or a?) (w?.or b?) = namesRefuse v? w? := by
  have text_left {v : Value} (text : v.IsText) (u? : Option Value) :
      namesRefuse (some v) u? = false := by
    cases u? with
    | none => rfl
    | some u => rw [namesRefuse, refuses_of_text_left text, Bool.and_false]
  have text_right (v : Value) {u : Value} (text : u.IsText) :
      namesRefuse (some v) (some u) = false := by
    rw [namesRefuse, refuses_of_text_right v text, Bool.and_false]
  cases v? with
  | none =>
    rw [Option.none_or]
    cases a? with
    | none => rfl
    | some v => exact text_left (left v rfl) _
  | some v =>
    rw [Option.some_or]
    cases w? with
    | some w => rfl
    | none =>
      rw [Option.none_or]
      cases b? with
      | none => rfl
      | some w => exact text_right v (right w rfl)

end Value

namespace DataReference

variable {first r : DataReference}

theorem agreeOn_url (hf : first.Regular) (hr : r.Regular) (R S : Registry) :
    DataObject.agreeOn "url" (first.resolvedIn R) (r.resolvedIn S) =
      .ok (first.sharesAddress r) := by
  rw [DataObject.agreeOn, hf.get?_url, hr.get?_url, sharesAddress]
  cases address : first.values with
  | some blob => rfl
  | none =>
    cases r.values with
    | some blob => rfl
    | none =>
      have compared : first.url.compare r.url = .ok (first.url.same r.url) :=
        Value.compare_eq_ok_iff.2 ⟨Value.refuses_of_text_left (hf.source address) _, rfl⟩
      simp only [Option.isNone_none, if_pos, compared]
      cases first.url.truthy <;> rfl

theorem agreeOn_ends (key : String) (a b : DataObject) :
    Ends (if Value.namesRefuse (Dict.get? a (.string key)) (Dict.get? b (.string key)) then
        [Misuse.notComparable .signalling] else []) (DataObject.agreeOn key a b) fun _ => True := by
  rw [DataObject.agreeOn]
  cases Dict.get? a (.string key) with
  | none => exact ⟨false, rfl, trivial⟩
  | some v =>
    cases Dict.get? b (.string key) with
    | none => exact ⟨false, rfl, trivial⟩
    | some w =>
      show Ends (if (v.truthy && v.refuses w) = true then _ else _)
        (if v.truthy then (v.compare w).mapError Misuse.notComparable else .ok false) _
      cases refused : v.refuses w with
      | false =>
        rw [Bool.and_false, Value.compare_eq_ok_iff.2 ⟨refused, rfl⟩]
        cases v.truthy <;> exact ⟨_, rfl, trivial⟩
      | true =>
        have compared : v.compare w = .error .signalling := by
          rw [Value.compare, refused]
          rfl
        rw [Bool.and_true, compared]
        cases v.truthy with
        | false => exact ⟨false, rfl, trivial⟩
        | true => exact rfl

/-- Comparing the data objects of two references is refused exactly if the references clash. -/
theorem sameData_ends (hf : first.Regular) (hr : r.Regular) (R S : Registry) :
    Ends (if first.clashes r then [Misuse.notComparable .signalling] else [])
      (DataObject.sameData (first.resolvedIn R) (r.resolvedIn S)) fun _ => True := by
  rw [DataObject.sameData_of_no_values _ (hr.get?_values S), agreeOn_url hf hr, clashes]
  cases first.sharesAddress r with
  | true => exact ⟨true, rfl, trivial⟩
  | false =>
    have generated (R : Registry) (blob? : Option Shared) (v : Value)
        (eq : blob?.map (fun blob => Value.string (R.nameOf blob)) = some v) : v.IsText := by
      obtain ⟨blob, _, rfl⟩ := Option.map_eq_some_iff.1 eq
      exact ⟨_, rfl⟩
    -- A name that the options do not give is generated, and a text refuses nothing.
    rw [← Value.namesRefuse_or_text (generated R first.values) (generated S r.values),
      ← hf.get?_name, ← hr.get?_name]
    exact agreeOn_ends "name" _ _

end DataReference

namespace Around

theorem meets_none (a : Around) : a.meets none = a := by
  cases a <;> rfl

theorem meets_outside (r? : Option DataReference) : outside.meets r? = outside := by
  cases r? <;> rfl

theorem meets_meets (a : Around) (r? s? : Option DataReference) :
    (a.meets r?).meets s? = a.meets (r?.or s?) := by
  cases a <;> cases r? <;> rfl

end Around

namespace Chart

theorem dataClashes_of_none (a : Around) {c : Chart} (bare : c.reference? = none) :
    dataClashes a c = [] := by
  unfold dataClashes
  rw [bare]
  cases a <;> rfl

theorem dataClashes_holding (first : DataReference) {c : Chart} {r : DataReference}
    (reference : c.reference? = some r) : dataClashes (.holding first) c =
      if first.clashes r then [.misuse (.notComparable .signalling)] else [] := by
  unfold dataClashes
  rw [reference]

theorem dataClashes_waiting (c : Chart) : dataClashes .waiting c = [] := by
  unfold dataClashes
  cases c.reference? <;> rfl

section Kinds

/-! ### Violations kind by kind -/

variable {id : Nat} {n : Node} {children : List Chart} {child : Option Chart} {a : Around}
  (ofUnit : Around → Chart → List CompileError)

theorem violations_unit (kind : n.kind = .unit) :
    violations ofUnit a (.node id n children child) = ofUnit a (.node id n children child) := by
  cases child <;> simp only [violations, kind]

theorem violations_facet_none (kind : n.kind = .facet) :
    violations ofUnit a (.node id n children none) =
      if a.isOutside then [] else [.nestedFacet] := by
  simp only [violations, kind]

theorem violations_facet_some (kind : n.kind = .facet) (c : Chart) :
    violations ofUnit a (.node id n children (some c)) =
      if a.isOutside then violations ofUnit
        (Around.waiting.meets (reference? (.node id n children (some c)))) c
      else [.nestedFacet] := by
  simp only [violations, kind]

theorem violations_repeated_none (kind : n.kind = .repeated) :
    violations ofUnit a (.node id n children none) = [] := by
  simp only [violations, kind]

theorem violations_repeated_some (kind : n.kind = .repeated) (c : Chart) :
    violations ofUnit a (.node id n children (some c)) = match c.kind? with
      | some .unit => violations ofUnit a c
      | some .facet => violations ofUnit a c ++ strayAxes n
      | some k => [.notRepeatable k]
      | none => [] := by
  simp only [violations, kind]

theorem violations_concat (kind : n.kind.isConcat = true) :
    violations ofUnit a (.node id n children child) = violationsAll ofUnit a children := by
  rcases Kind.isConcat_iff.1 kind with kind | kind | kind <;> cases child <;>
    simp only [violations, kind]

theorem strayAxes_eq (n : Node) :
    strayAxes n = n.axes.filterMap fun axis => axisError? .facet (n.channelOf axis) := by
  refine congrArg (List.filterMap · n.axes) (funext fun axis => ?_)
  rw [axisError?]
  cases isFacetChannel (n.channelOf axis) <;> rfl

theorem violations_repeated_of_kind {c : Chart} {k : Kind} (kind : n.kind = .repeated)
    (found : c.kind? = some k) :
    violations ofUnit a (.node id n children (some c)) =
      if k.canRepeat then violations ofUnit a c ++
        n.axes.filterMap fun axis => axisError? k (n.channelOf axis)
      else [.notRepeatable k] := by
  rw [violations_repeated_some _ kind, found]
  cases k with
  | unit =>
    have fine : (n.axes.filterMap fun axis => axisError? .unit (n.channelOf axis)) = [] := by
      refine List.filterMap_eq_nil_iff.2 fun axis _ => ?_
      rw [axisError?]
      exact if_neg fun both => by cases both.1
    rw [fine]
    exact (List.append_nil _).symm
  | facet => rw [strayAxes_eq]; rfl
  | layer | hconcat | vconcat | repeated => rfl

end Kinds

/-! ### Children of grown repeats -/

theorem not_mem_strayAxes (n : Node) (k : Kind) :
    CompileError.notRepeatable k ∉ strayAxes n := by
  intro mem
  obtain ⟨axis, _, eq⟩ := List.mem_filterMap.1 mem
  split at eq <;> cases eq

theorem Formed.canRepeat {id : Nat} {n : Node} {children : List Chart} {c : Chart} {k : Kind}
    (h : (Chart.node id n children (some c)).Formed) (kind : n.kind = .repeated)
    (found : c.kind? = some k) : k.canRepeat = true := by
  cases h with
  | @node _ _ _ _ _ node? _ _ _ seats _ kind_eq =>
    obtain ⟨m, given, same⟩ : ∃ m, node? = some m ∧ c.kindOf = .ok m.kind := by
      cases node? with
      | none => cases kind_eq
      | some m => exact ⟨m, rfl, Option.some.inj kind_eq⟩
    have known : c.kindOf = .ok k := by
      cases c with
      | other v => cases found
      | node => exact congrArg Except.ok (Option.some.inj found)
    rw [known] at same
    cases same
    exact seats.repeated kind m given

theorem not_mem_violationsAll {ofUnit : Around → Chart → List CompileError} {cs : List Chart}
    {k : Kind}
    (each : ∀ c ∈ cs, ∀ a, CompileError.notRepeatable k ∉ violations ofUnit a c) (a : Around) :
    CompileError.notRepeatable k ∉ violationsAll ofUnit a cs := by
  induction cs generalizing a with
  | nil => exact List.not_mem_nil
  | cons c cs ih =>
    rw [violationsAll, List.mem_append]
    rintro (first | rest)
    · exact each c (List.mem_cons_self ..) a first
    · exact ih (fun c hc => each c (List.mem_cons_of_mem _ hc)) _ rest

/-- No setter seats a node in a repeat that cannot be repeated. -/
theorem Formed.not_notRepeatable {ofUnit : Around → Chart → List CompileError} {k : Kind}
    (fine : ∀ a c, CompileError.notRepeatable k ∉ ofUnit a c) {c : Chart} (h : c.Formed)
    (a : Around) : CompileError.notRepeatable k ∉ violations ofUnit a c := by
  induction h generalizing a with
  | @node id n children child nodes node? spec listed wrapped seats kinds kind children_formed
      child_formed ih_children ih_child =>
    have formed : (Chart.node id n children child).Formed :=
      .node spec listed wrapped seats kinds kind children_formed child_formed
    cases own : n.kind with
    | unit =>
      rw [violations_unit _ own]
      exact fine a _
    | facet =>
      cases child with
      | none =>
        rw [violations_facet_none _ own]
        cases a <;> simp [Around.isOutside]
      | some c =>
        rw [violations_facet_some _ own]
        split
        · exact ih_child c rfl _
        · simp
    | repeated =>
      cases child with
      | none =>
        rw [violations_repeated_none _ own]
        exact List.not_mem_nil
      | some c =>
        rw [violations_repeated_some _ own]
        cases found : c.kind? with
        | none => exact List.not_mem_nil
        | some l =>
          have may := formed.canRepeat own found
          cases l with
          | unit => exact ih_child c rfl a
          | facet =>
            rw [List.mem_append, not_or]
            exact ⟨ih_child c rfl a, not_mem_strayAxes n k⟩
          | layer | hconcat | vconcat | repeated => cases may
    | layer | hconcat | vconcat =>
      rw [violations_concat _ (by rw [own]; rfl)]
      exact not_mem_violationsAll ih_children a

theorem not_mem_dataClashes (k : Kind) (a : Around) (c : Chart) :
    CompileError.notRepeatable k ∉ dataClashes a c := by
  unfold dataClashes
  split
  · split <;> simp
  · exact List.not_mem_nil

end Chart

end ChartTree
