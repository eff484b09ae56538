import ChartTree.Value.Equality

/-!
# Comparisons that are refused

A signalling not-a-number refuses to be compared with a number, itself included. Comparing two
values goes through them part by part and in order, and ends at the first parts that differ; so a
comparison is refused if it comes to such a number before. Parts that are one object are not
compared, nor are lists or dictionaries of different lengths.
-/

namespace ChartTree

/-- Why two values cannot be compared. -/
inductive ComparisonError where
  /-- A signalling not-a-number met a number. -/
  | signalling
deriving DecidableEq, Repr

def ComparisonError.message : ComparisonError → String
  | .signalling => "[<class 'decimal.InvalidOperation'>]"

namespace Value

/-- Whether a value is a signalling not-a-number. -/
def isSignalling (v : Value) : Bool :=
  match v.content with
  | .decimal (.nan _ true _) => true
  | _ => false

/-- Whether a value is a number; truth values are. -/
def isNumber (v : Value) : Bool :=
  match v.content with
  | .bool _ | .int _ | .float _ | .decimal _ => true
  | _ => false

/-- Whether two numbers refuse to be compared. -/
def numbersRefuse (a b : Value) : Bool :=
  (a.isSignalling && b.isNumber) || (a.isNumber && b.isSignalling)

mutual

/-- Whether the comparison of two values is refused. -/
def refuses (a b : Value) : Bool :=
  match a with
  | ⟨_, .list xs⟩ => match b.content with
    | .list ys => xs.length = ys.length && itemsRefuse xs ys
    | _ => false
  | ⟨_, .tuple xs⟩ => match b.content with
    | .tuple ys => itemsRefuse xs ys
    | _ => false
  | ⟨_, .dict xs⟩ => match b.content with
    | .dict ys => xs.length = ys.length && entriesRefuse xs ys
    | _ => false
  | ⟨_, .reference url values options⟩ => match b.content with
    | .reference url' values' options' =>
      (!url.isIdentical url' && refuses url url') ||
        (url.alike url' && ((!values.isIdentical values' && refuses values values') ||
          (values.alike values' && (!options.isIdentical options' && refuses options options'))))
    | _ => false
  | a => numbersRefuse a b
termination_by structural a

/-- Whether the comparison of two sequences is refused before it comes to items that differ. -/
def itemsRefuse : List Value → List Value → Bool
  | [], _ => false
  | x :: xs, ys => match ys with
    | [] => false
    | y :: ys => (!x.isIdentical y && refuses x y) || (x.alike y && itemsRefuse xs ys)
termination_by structural xs => xs

/-- Whether the comparison of two dictionaries is refused before it comes to an entry that the
second one does not have. -/
def entriesRefuse : List (Value × Value) → List (Value × Value) → Bool
  | [], _ => false
  | (key, value) :: xs, ys => match ys.find? fun e => key.alike e.1 with
    | none => false
    | some e => (!value.isIdentical e.2 && refuses value e.2) ||
        (value.alike e.2 && entriesRefuse xs ys)
termination_by structural xs => xs

end

def compare (a b : Value) : Except ComparisonError Bool :=
  if refuses a b then .error .signalling else .ok (same a b)

/-- Where the comparison is not refused, it says whether the values are equal. -/
theorem compare_eq_ok_iff {a b : Value} {equal : Bool} :
    compare a b = .ok equal ↔ refuses a b = false ∧ same a b = equal := by
  by_cases h : refuses a b = true <;> simp [compare, h]

end Value

end ChartTree
