import ChartTree.Proofs.Data.Rendering
import ChartTree.Proofs.Value.Symmetry

/-!
# Data objects that mean the same data

Whether two data objects mean the same data is told from what stands under three keys, and in
either order of the two: they share a `url` or a `name` that counts as true, or the identical
object under `values`. Only a signalling not-a-number under `url` or `name` can prevent an answer,
and there the order matters.
-/

namespace ChartTree

namespace Dict

/-- No key stands in a dictionary twice. -/
def Keyed (d : Dict) : Prop :=
  d.Pairwise fun e f => e.1.alike f.1 = false

theorem alike_of_text {v w : Value} {s : String} (hv : v.content = .string s)
    (hw : w.content = .string s) : v.alike w = true := by
  obtain ⟨_, c⟩ := v
  have eq : c = .string s := hv
  rw [eq, Value.alike, Value.same, hw]
  simp

/-- What stands under a text does not depend on the order of the entries. -/
theorem get?_perm {d d' : Dict} (perm : d.Perm d') (keyed : Keyed d) (s : String) :
    get? d (.string s) = get? d' (.string s) := by
  induction perm with
  | nil => rfl
  | cons e _ ih => rw [get?_cons, get?_cons, ih (List.pairwise_cons.1 keyed).2]
  | swap e f d =>
    by_cases he : e.1.content = .string s
    · by_cases hf : f.1.content = .string s
      · have apart := (List.pairwise_cons.1 keyed).1 e (List.mem_cons_self ..)
        rw [alike_of_text hf he] at apart
        cases apart
      · rw [get?_of_content_ne hf, get?_of_content he, get?_of_content he]
    · rw [get?_of_content_ne he]
      by_cases hf : f.1.content = .string s
      · rw [get?_of_content hf, get?_of_content hf]
      · rw [get?_of_content_ne hf, get?_of_content_ne hf, get?_of_content_ne he]
  | trans perm _ ih ih' =>
    have symm {e f : Value × Value} (h : e.1.alike f.1 = false) : f.1.alike e.1 = false :=
      Value.alike_comm e.1 f.1 ▸ h
    rw [ih keyed, ih' ((perm.pairwise_iff symm).1 keyed)]

end Dict

namespace DataObject

variable {a b a' b' : DataObject} {key : String}

/-- The keys that say what the data are. -/
def identityKeys : List String :=
  ["url", "values", "name"]

def isIdentityKey (key : Value) : Bool :=
  match key.content with
  | .string s => identityKeys.contains s
  | _ => false

/-- The entries that say what the data are. -/
def telling (a : DataObject) : DataObject :=
  a.filter fun e => isIdentityKey e.1

theorem get?_telling (mem : key ∈ identityKeys) (a : DataObject) :
    Dict.get? a.telling (.string key) = Dict.get? a (.string key) := by
  induction a with
  | nil => rfl
  | cons e a ih =>
    by_cases here : e.1.content = .string key
    · have kept : isIdentityKey e.1 = true := by
        rw [isIdentityKey, here]
        exact List.contains_iff_mem.2 mem
      rw [telling, List.filter_cons, if_pos kept, Dict.get?_of_content here,
        Dict.get?_of_content here]
    · rw [Dict.get?_of_content_ne here, ← ih, telling, List.filter_cons]
      split
      · exact Dict.get?_of_content_ne here
      · rfl

/-- Entries under other keys, and the order of all, do not matter to what stands under one of the
three. -/
theorem get?_of_telling (keyed : Dict.Keyed a) (perm : a.telling.Perm a'.telling)
    (mem : key ∈ identityKeys) :
    Dict.get? a (.string key) = Dict.get? a' (.string key) := by
  rw [← get?_telling mem a, ← get?_telling mem a']
  exact Dict.get?_perm perm (keyed.filter _) key

/-! ### What an answer says -/

/-- Two data objects have equal values that count as true under a key. -/
def agrees (key : String) (a b : DataObject) : Bool :=
  match Dict.get? a (.string key), Dict.get? b (.string key) with
  | some v, some w => v.truthy && v.same w
  | _, _ => false

/-- Two data objects share one of the three fields. -/
def shares (a b : DataObject) : Bool :=
  agrees "url" a b || shareValues a b || agrees "name" a b

theorem agreeOn_eq_ok {met : Bool} (h : agreeOn key a b = .ok met) : met = agrees key a b := by
  rw [agreeOn] at h
  rw [agrees]
  cases left : Dict.get? a (.string key) with
  | none =>
    rw [left] at h
    cases h
    rfl
  | some v =>
    cases right : Dict.get? b (.string key) with
    | none =>
      rw [left, right] at h
      cases h
      rfl
    | some w =>
      simp only [left, right] at h ⊢
      cases truthy : v.truthy with
      | false =>
        rw [truthy] at h
        cases h
        rfl
      | true =>
        rw [truthy, if_pos rfl] at h
        rw [Bool.true_and, (Value.compare_eq_ok_iff.1 (mapError_eq_ok_iff.1 h)).2]

theorem sameData_eq (a b : DataObject) : sameData a b = (agreeOn "url" a b).bind fun met =>
    if met || shareValues a b then .ok true else agreeOn "name" a b := rfl

/-- An answer says whether the two share one of the three fields. -/
theorem sameData_eq_ok {met : Bool} (h : sameData a b = .ok met) : met = shares a b := by
  rw [sameData_eq] at h
  obtain ⟨sameUrl, url, h⟩ := bind_eq_ok_iff.1 h
  rw [shares, ← agreeOn_eq_ok url]
  cases met_before : sameUrl || shareValues a b with
  | true =>
    rw [met_before, if_pos rfl] at h
    cases h
    rfl
  | false =>
    rw [met_before, if_neg Bool.false_ne_true] at h
    rw [Bool.false_or, agreeOn_eq_ok h]

theorem agrees_comm (key : String) (a b : DataObject) : agrees key a b = agrees key b a := by
  rw [agrees, agrees]
  cases Dict.get? a (.string key) with
  | none => cases Dict.get? b (.string key) <;> rfl
  | some v =>
    cases Dict.get? b (.string key) with
    | none => rfl
    | some w =>
      simp only [Value.same_comm w v]
      -- Equal values count alike as true, so it does not matter whose truth is asked for.
      cases same : v.same w with
      | false => rw [Bool.and_false, Bool.and_false]
      | true => rw [Value.truthy_of_same same]

theorem shareValues_comm (a b : DataObject) : shareValues a b = shareValues b a := by
  rw [shareValues, shareValues]
  cases Dict.get? a (.string "values") with
  | none => cases Dict.get? b (.string "values") <;> rfl
  | some v =>
    cases Dict.get? b (.string "values") with
    | none => rfl
    | some w => simp only [Bool.and_comm (!v.isNull), Value.isIdentical_comm w v]

theorem shares_comm (a b : DataObject) : shares a b = shares b a := by
  rw [shares, shares, agrees_comm "url", shareValues_comm, agrees_comm "name"]

/-! ### Answers that are given -/

/-- No signalling not-a-number is in what is compared of a data object. -/
def Quiet (a : DataObject) : Prop :=
  ∀ key ∈ ["url", "name"], ∀ v, Dict.get? a (.string key) = some v → v.quiet = true

theorem agreeOn_of_quiet (mem : key ∈ ["url", "name"]) (ha : a.Quiet) (hb : b.Quiet) :
    agreeOn key a b = .ok (agrees key a b) := by
  rw [agreeOn, agrees]
  cases left : Dict.get? a (.string key) with
  | none => rfl
  | some v =>
    cases right : Dict.get? b (.string key) with
    | none => rfl
    | some w =>
      simp only [Value.compare_of_quiet (ha key mem v left) (hb key mem w right)]
      cases v.truthy <;> rfl

theorem sameData_of_quiet (ha : a.Quiet) (hb : b.Quiet) : sameData a b = .ok (shares a b) := by
  rw [sameData_eq, agreeOn_of_quiet (by simp) ha hb, agreeOn_of_quiet (by simp) ha hb, shares]
  show (if agrees "url" a b || shareValues a b then _ else _) = _
  cases agrees "url" a b || shareValues a b <;> rfl

/-! ### Fields that are added -/

theorem agrees_insert (absent : Dict.get? a (.string key) = none) (v : Value) {other : String}
    (h : agrees other a b = true) : agrees other (Dict.insert a (.string key) v) b = true := by
  by_cases eq : key = other
  · rw [agrees, ← eq, absent] at h
    cases h
  · rwa [agrees, Dict.get?_insert_of_ne a eq]

theorem shareValues_insert (absent : Dict.get? a (.string key) = none) (v : Value)
    (h : shareValues a b = true) : shareValues (Dict.insert a (.string key) v) b = true := by
  by_cases eq : key = "values"
  · rw [shareValues, ← eq, absent] at h
    cases h
  · rwa [shareValues, Dict.get?_insert_of_ne a eq]

theorem shares_insert (absent : Dict.get? a (.string key) = none) (v : Value)
    (h : shares a b = true) : shares (Dict.insert a (.string key) v) b = true := by
  simp only [shares, Bool.or_eq_true] at h ⊢
  exact h.imp (Or.imp (agrees_insert absent v) (shareValues_insert absent v))
    (agrees_insert absent v)

theorem shares_insert_right (absent : Dict.get? b (.string key) = none) (v : Value)
    (h : shares a b = true) : shares a (Dict.insert b (.string key) v) = true := by
  rw [shares_comm] at h ⊢
  exact shares_insert absent v h

/-! ### The comparison as a relation -/

theorem sameData_of_telling (ha : Dict.Keyed a) (hb : Dict.Keyed b)
    (pa : a.telling.Perm a'.telling) (pb : b.telling.Perm b'.telling) :
    sameData a' b' = sameData a b := by
  have left {key : String} (mem : key ∈ identityKeys) := get?_of_telling ha pa mem
  have right {key : String} (mem : key ∈ identityKeys) := get?_of_telling hb pb mem
  have agree {key : String} (mem : key ∈ identityKeys) :
      agreeOn key a' b' = agreeOn key a b := by
    rw [agreeOn, agreeOn, left mem, right mem]
  have shared : shareValues a' b' = shareValues a b := by
    rw [shareValues, shareValues, left (by decide), right (by decide)]
  rw [sameData_eq, sameData_eq, agree (by decide), agree (by decide), shared]

theorem agreeOn_of_not_truthy
    (untrue : ((Dict.get? a (.string key)).getD .null).truthy = false) (b : DataObject) :
    agreeOn key a b = .ok false := by
  rw [agreeOn]
  cases left : Dict.get? a (.string key) with
  | none => rfl
  | some v =>
    have v_untrue : v.truthy = false := by rwa [left] at untrue
    cases Dict.get? b (.string key) with
    | none => rfl
    | some w => simp only [v_untrue, Bool.false_eq_true, if_false]

/-- A data object that does not say what its data are shares them with none. -/
theorem sameData_of_not_telling (untold : a.isTelling = false) (b : DataObject) :
    sameData a b = .ok false := by
  simp only [isTelling, Bool.or_eq_false_iff, Bool.not_eq_false'] at untold
  obtain ⟨⟨url, values⟩, name⟩ := untold
  have apart : shareValues a b = false := by
    rw [shareValues]
    cases left : Dict.get? a (.string "values") with
    | none => rfl
    | some v =>
      have null : v.isNull = true := by rwa [left] at values
      cases Dict.get? b (.string "values") with
      | none => rfl
      | some w => simp only [null, Bool.not_true, Bool.false_and]
  rw [sameData_eq, agreeOn_of_not_truthy url, agreeOn_of_not_truthy name, apart]
  rfl

/-- How the comparison of two data objects behaves. -/
structure Compares (a b : DataObject) : Prop where
  /-- Asked as values, the two are compared as data objects. -/
  asked : ∀ i j, Value.sameData ⟨i, .dict a⟩ ⟨j, .dict b⟩ = sameData a b
  /-- Where both orders give an answer, it is the same. -/
  symmetric : ∀ {met met' : Bool}, sameData a b = .ok met → sameData b a = .ok met' → met = met'
  /-- Both orders give an answer unless a signalling not-a-number is compared. -/
  answered : a.Quiet → b.Quiet → ∃ met, sameData a b = .ok met ∧ sameData b a = .ok met
  /-- Nothing depends on entries under other keys or on the order of entries. -/
  fields_only : ∀ {a' b' : DataObject}, Dict.Keyed a → Dict.Keyed b →
    a.telling.Perm a'.telling → b.telling.Perm b'.telling → sameData a' b' = sameData a b
  /-- A further field never makes the data different. -/
  added : ∀ key ∈ identityKeys, ∀ v, Dict.get? a (.string key) = none →
    sameData a b = .ok true → sameData (Dict.insert a (.string key) v) b ≠ .ok false
  /-- Nor does one of the second data object. -/
  added_right : ∀ key ∈ identityKeys, ∀ v, Dict.get? b (.string key) = none →
    sameData a b = .ok true → sameData a (Dict.insert b (.string key) v) ≠ .ok false

/-- Whether two data objects mean the same data is symmetric wherever it is answered, and a matter
of the three fields alone. -/
theorem sameData_compares (a b : DataObject) : Compares a b where
  asked i j := by
    show (if a.isTelling then sameData a b else .ok false) = _
    cases telling : a.isTelling with
    | true => rfl
    | false => exact (sameData_of_not_telling telling b).symm
  symmetric h h' := by rw [sameData_eq_ok h, sameData_eq_ok h', shares_comm]
  answered ha hb := ⟨shares a b, sameData_of_quiet ha hb, by
    rw [sameData_of_quiet hb ha, shares_comm]⟩
  fields_only := sameData_of_telling
  added key _ v absent h h' := by
    have shared := shares_insert absent v (sameData_eq_ok h).symm
    rw [← sameData_eq_ok h'] at shared
    cases shared
  added_right key _ v absent h h' := by
    have shared := shares_insert_right absent v (sameData_eq_ok h).symm
    rw [← sameData_eq_ok h'] at shared
    cases shared

/-- A dictionary with an unequal number before a signalling not-a-number. -/
def numberFirst : DataObject :=
  [(.string "url", .dict [(.string "a", .int 1),
    (.string "b", ⟨none, .decimal (.nan false true 0)⟩)])]

/-- A dictionary with a signalling not-a-number before an unequal number. -/
def signalFirst : DataObject :=
  [(.string "url", .dict [(.string "b", ⟨none, .decimal (.nan false true 0)⟩),
    (.string "a", .int 2)])]

/-- With a signalling not-a-number the order matters: one way round the comparison ends at the
number, the other way round it is refused. -/
theorem not_always_symmetric : Dict.Keyed numberFirst ∧ Dict.Keyed signalFirst ∧
    sameData numberFirst signalFirst = .ok false ∧
    sameData signalFirst numberFirst = .error (.notComparable .signalling) ∧
    sameData signalFirst numberFirst ≠ sameData numberFirst signalFirst :=
  ⟨List.pairwise_singleton .., List.pairwise_singleton .., rfl, rfl, nofun⟩

end DataObject

end ChartTree
