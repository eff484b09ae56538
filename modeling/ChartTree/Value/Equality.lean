import ChartTree.Value.Basic

/-!
# Equality of values

When two values are equal. Numbers of all formats and truth values are compared by their exact
value, and not-a-number differs from everything; lists and tuples are compared item by item and
never with each other; dictionaries without regard to order; times by the instant they mean; nodes
by identity. Inside a collection two parts also agree if they are one object, so a collection with
the identical not-a-number in it equals itself.
-/

namespace ChartTree.Value

/-- Whether two numeric values are the same; what has no numeric value is no number. -/
def sameNumber (a b : Option ExactNumber) : Bool :=
  match a, b with
  | some x, some y => x = y
  | _, _ => false

mutual

def same (a b : Value) : Bool :=
  match a with
  | ⟨_, .null⟩ => b.isNull
  | ⟨_, .bool x⟩ => sameNumber (exactValue? ⟨none, .bool x⟩) b.exactValue?
  | ⟨_, .int x⟩ => sameNumber (exactValue? ⟨none, .int x⟩) b.exactValue?
  | ⟨_, .float x⟩ => sameNumber (exactValue? ⟨none, .float x⟩) b.exactValue?
  | ⟨_, .decimal x⟩ => sameNumber (exactValue? ⟨none, .decimal x⟩) b.exactValue?
  | ⟨_, .string s⟩ => match b.content with
    | .string t => s = t
    | _ => false
  | ⟨_, .bytes xs⟩ => match b.content with
    | .bytes ys => xs = ys
    | _ => false
  | ⟨_, .list xs⟩ => match b.content with
    | .list ys => sameItems xs ys
    | _ => false
  | ⟨_, .tuple xs⟩ => match b.content with
    | .tuple ys => sameItems xs ys
    | _ => false
  | ⟨_, .dict xs⟩ => match b.content with
    | .dict ys => sameEntries xs ys (ys.map fun _ => false)
    | _ => false
  | ⟨_, .date x⟩ => match b.content with
    | .date y => x = y
    | _ => false
  | ⟨_, .time x⟩ => match b.content with
    | .time y => x.same y
    | _ => false
  | ⟨_, .datetime x⟩ => match b.content with
    | .datetime y => x.same y
    | _ => false
  | ⟨_, .duration x⟩ => match b.content with
    | .duration y => x = y
    | _ => false
  | ⟨_, .uuid x⟩ => match b.content with
    | .uuid y => x = y
    | _ => false
  | ⟨id, .node kind⟩ => match b.content with
    | .node _ => isIdentical ⟨id, .node kind⟩ b
    | _ => false
  | ⟨_, .reference url values options⟩ => match b.content with
    | .reference url' values' options' =>
      (url.isIdentical url' || same url url') &&
        (values.isIdentical values' || same values values') &&
        (options.isIdentical options' || same options options')
    | _ => false
termination_by structural a

/-- Whether two sequences agree item by item. -/
def sameItems : List Value → List Value → Bool
  | [], ys => ys.isEmpty
  | x :: xs, ys => match ys with
    | [] => false
    | y :: ys => (x.isIdentical y || same x y) && sameItems xs ys
termination_by structural xs => xs

/-- Whether each entry of the first dictionary agrees with one of the second, and each entry of the
second that is not marked as met with one of the first. Two entries are compared only once. -/
def sameEntries : List (Value × Value) → List (Value × Value) → List Bool → Bool
  | [], _, met => met.all id
  | (key, value) :: xs, ys, met =>
    let agreeing := ys.map fun e => (key.isIdentical e.1 || same key e.1) &&
      (value.isIdentical e.2 || same value e.2)
    agreeing.any id && sameEntries xs ys (List.zipWith or met agreeing)
termination_by structural xs => xs

end

/-- Whether two values agree: one object, or equal. -/
def alike (a b : Value) : Bool :=
  a.isIdentical b || a.same b

/-- Whether two entries agree in key and value. -/
def alikeEntries (e f : Value × Value) : Bool :=
  e.1.alike f.1 && e.2.alike f.2

/-- Marks that are added for a test on the entries leave those to be met that fail it. -/
theorem forall_mem_zip_or {α : Type} (g : α → Bool) (P : α → Prop) (ys : List α)
    (met : List Bool) :
    (∀ p ∈ ys.zip (List.zipWith or met (ys.map g)), p.2 = true ∨ P p.1) ↔
      ∀ p ∈ ys.zip met, p.2 = true ∨ g p.1 = true ∨ P p.1 := by
  induction ys generalizing met with
  | nil => simp
  | cons y ys ih =>
    cases met with
    | nil => simp
    | cons m met =>
      simp only [List.map_cons, List.zipWith_cons_cons, List.zip_cons_cons, List.forall_mem_cons,
        ih, Bool.or_eq_true, or_assoc]

/-- Every entry of the first dictionary is met by one of the second, and each of the second is
marked or met by one of the first. -/
theorem sameEntries_eq_true_iff (xs ys : List (Value × Value)) (met : List Bool)
    (marks : met.length = ys.length) :
    sameEntries xs ys met = true ↔
      (∀ e ∈ xs, ∃ f ∈ ys, alikeEntries e f = true) ∧
        ∀ p ∈ ys.zip met, p.2 = true ∨ ∃ e ∈ xs, alikeEntries e p.1 = true := by
  induction xs generalizing met with
  | nil =>
    have unzipped : (ys.zip met).map Prod.snd = met := List.map_snd_zip (by omega)
    simp only [sameEntries, List.not_mem_nil, false_implies, implies_true, true_and, false_and,
      exists_false, or_false, List.all_eq_true, id]
    conv => lhs; rw [← unzipped]
    simp
  | cons e xs ih =>
    have row : (ys.map fun f => (e.1.isIdentical f.1 || same e.1 f.1) &&
        (e.2.isIdentical f.2 || same e.2 f.2)) = ys.map (alikeEntries e) := rfl
    have rest := ih (List.zipWith or met (ys.map (alikeEntries e))) (by simp [marks])
    have added := forall_mem_zip_or (alikeEntries e) (fun f => ∃ e ∈ xs, alikeEntries e f = true)
      ys met
    simp only [sameEntries, row, Bool.and_eq_true, rest, added, List.any_map, List.any_eq_true,
      Function.comp, id, List.mem_cons, forall_eq_or_imp, exists_eq_or_imp, and_assoc]

/-- Dictionaries are equal if each entry of one agrees with an entry of the other. -/
theorem same_dict (i j : Option Identity) (xs ys : Dict) :
    same ⟨i, .dict xs⟩ ⟨j, .dict ys⟩ = true ↔
      (∀ e ∈ xs, ∃ f ∈ ys, alikeEntries e f = true) ∧
        ∀ f ∈ ys, ∃ e ∈ xs, alikeEntries e f = true := by
  have unmarked : ys.zip (ys.map fun _ => false) = ys.map fun f => (f, false) := by
    induction ys with
    | nil => rfl
    | cons f ys ih => simp only [List.map_cons, List.zip_cons_cons, ih]
  simp only [same, content, sameEntries_eq_true_iff xs ys _ (List.length_map _), unmarked,
    List.forall_mem_map, Bool.false_eq_true, false_or]

theorem same_string {s : String} {v : Value} :
    same (.string s) v = true ↔ v.content = .string s := by
  obtain ⟨_, c⟩ := v
  cases c <;> simp [same, content, eq_comm]

/-- A text without an identity agrees with what has it as content. -/
theorem alike_string {s : String} {v : Value} :
    alike (.string s) v = true ↔ v.content = .string s := by
  rw [← same_string]
  simp [alike, isIdentical, identity?]

end ChartTree.Value
