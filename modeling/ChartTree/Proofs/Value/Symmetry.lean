import ChartTree.Proofs.Value.Objects
import ChartTree.Value.Comparison

/-!
# Symmetry of equality

Equality of values does not depend on which of them comes first, at any depth and also where
dictionaries are compared without order or numbers across formats; and equal values count alike as
true or not. Whether a comparison is refused does depend on the order, but only a signalling
not-a-number can make it so: values without one are always compared.
-/

namespace ChartTree

theorem Time.same_comm (t u : Time) : t.same u = u.same t := by
  simp only [same, eq_comm]

theorem DateTime.same_comm (d e : DateTime) : d.same e = e.same d := by
  simp only [same, eq_comm]

namespace Value

variable {a b : Value}

theorem isIdentical_comm (a b : Value) : a.isIdentical b = b.isIdentical a := by
  obtain ⟨i, c⟩ := a
  obtain ⟨j, c'⟩ := b
  cases i <;> cases j <;> simp [isIdentical, identity?, eq_comm]

theorem sameNumber_comm (x y : Option ExactNumber) : sameNumber x y = sameNumber y x := by
  cases x <;> cases y <;> simp [sameNumber, eq_comm]

theorem sameNumber_eq_true_iff {x y : Option ExactNumber} :
    sameNumber x y = true ↔ ∃ n, x = some n ∧ y = some n := by
  cases x <;> cases y <;> simp [sameNumber, eq_comm]

/-! ### Numbers -/

theorem same_of_number_left (number : a.isNumber = true) (b : Value) :
    a.same b = sameNumber a.exactValue? b.exactValue? := by
  obtain ⟨_, c⟩ := a
  cases c <;> first | rfl | cases number

/-- What is no number has no numeric value, so it equals none. -/
theorem same_of_number_right (number : b.isNumber = true) (a : Value) :
    a.same b = sameNumber a.exactValue? b.exactValue? := by
  obtain ⟨_, c⟩ := a
  obtain ⟨_, c'⟩ := b
  cases c' <;> first
    | exact (Bool.false_ne_true number).elim
    | (cases c <;> rfl)

/-- Only what is not compared as a number is left to be compared the other way round. -/
theorem same_comm_of_others (others : ∀ b : Value, b.isNumber = false → a.same b = b.same a)
    (b : Value) : a.same b = b.same a := by
  cases number : b.isNumber with
  | true => rw [same_of_number_right number, same_of_number_left number, sameNumber_comm]
  | false => exact others b number

/-! ### Parts -/

theorem sameItems_comm {xs : List Value} (ih : ∀ x ∈ xs, ∀ y : Value, x.same y = y.same x)
    (ys : List Value) : sameItems xs ys = sameItems ys xs := by
  induction xs generalizing ys with
  | nil => cases ys <;> rfl
  | cons x xs rest =>
    cases ys with
    | nil => rfl
    | cons y ys =>
      rw [sameItems, sameItems, isIdentical_comm x y, ih x (List.mem_cons_self ..) y,
        rest (fun z mem => ih z (List.mem_cons_of_mem _ mem)) ys]

theorem alike_comm_of (ih : ∀ y : Value, a.same y = y.same a) (b : Value) :
    a.alike b = b.alike a := by
  rw [alike, alike, isIdentical_comm, ih]

theorem same_dict_comm {i j : Option Identity} {xs ys : Dict}
    (ih : ∀ e ∈ xs, (∀ y : Value, e.1.same y = y.same e.1) ∧ ∀ y : Value, e.2.same y = y.same e.2) :
    same ⟨i, .dict xs⟩ ⟨j, .dict ys⟩ = same ⟨j, .dict ys⟩ ⟨i, .dict xs⟩ := by
  have entries : ∀ e ∈ xs, ∀ f : Value × Value, alikeEntries e f = alikeEntries f e :=
    fun e mem f => by
      rw [alikeEntries, alikeEntries, alike_comm_of (ih e mem).1, alike_comm_of (ih e mem).2]
  rw [Bool.eq_iff_iff, same_dict, same_dict]
  constructor
  · rintro ⟨there, back⟩
    refine ⟨fun f hf => ?_, fun e he => ?_⟩
    · obtain ⟨e, he, alike⟩ := back f hf
      exact ⟨e, he, entries e he f ▸ alike⟩
    · obtain ⟨f, hf, alike⟩ := there e he
      exact ⟨f, hf, entries e he f ▸ alike⟩
  · rintro ⟨there, back⟩
    refine ⟨fun e he => ?_, fun f hf => ?_⟩
    · obtain ⟨f, hf, alike⟩ := back e he
      exact ⟨f, hf, (entries e he f).symm ▸ alike⟩
    · obtain ⟨e, he, alike⟩ := there f hf
      exact ⟨e, he, (entries e he f).symm ▸ alike⟩

/-- Equality is symmetric. -/
theorem same_comm (a b : Value) : a.same b = b.same a := by
  induction a using induction generalizing b with
  | list id items ih =>
    refine same_comm_of_others (fun ⟨_, c⟩ other => ?_) b
    cases c with
    | list items' => exact sameItems_comm ih items'
    | bool | int | float | decimal => exact (Bool.false_ne_true other.symm).elim
    | _ => rfl
  | tuple id items ih =>
    refine same_comm_of_others (fun ⟨_, c⟩ other => ?_) b
    cases c with
    | tuple items' => exact sameItems_comm ih items'
    | bool | int | float | decimal => exact (Bool.false_ne_true other.symm).elim
    | _ => rfl
  | dict id entries ih =>
    refine same_comm_of_others (fun ⟨_, c⟩ other => ?_) b
    cases c with
    | dict entries' => exact same_dict_comm ih
    | bool | int | float | decimal => exact (Bool.false_ne_true other.symm).elim
    | _ => rfl
  | reference id url values options ih_url ih_values ih_options =>
    refine same_comm_of_others (fun ⟨_, c⟩ other => ?_) b
    cases c with
    | reference url' values' options' =>
      simp only [same, content]
      rw [isIdentical_comm url, ih_url, isIdentical_comm values, ih_values,
        isIdentical_comm options, ih_options]
    | bool | int | float | decimal => exact (Bool.false_ne_true other.symm).elim
    | _ => rfl
  | scalar id content scalar =>
    cases number : isNumber ⟨id, content⟩ with
    | true => rw [same_of_number_left number, same_of_number_right number, sameNumber_comm]
    | false =>
      refine same_comm_of_others (fun ⟨_, c⟩ other => ?_) b
      -- What is of different types is equal neither way round.
      cases content <;> cases c <;> first
        | exact (Bool.false_ne_true scalar).elim
        | exact (Bool.false_ne_true number.symm).elim
        | exact (Bool.false_ne_true other.symm).elim
        | rfl
        | simp only [same, Value.content, eq_comm, Time.same_comm, DateTime.same_comm,
            isIdentical_comm]

theorem alike_comm (a b : Value) : a.alike b = b.alike a :=
  alike_comm_of (same_comm a) b

/-! ### Truth -/

end Value

namespace ExactNumber

def zero : ExactNumber :=
  .finite false 0 0 0

theorem divideOut_ne_zero {n : Nat} (p fuel : Nat) (nonzero : n ≠ 0) :
    (divideOut p fuel n).2 ≠ 0 := by
  induction fuel generalizing n with
  | zero => exact nonzero
  | succ fuel ih =>
    rw [divideOut]
    by_cases divides : n % p = 0
    · rw [if_pos divides]
      refine ih fun none => nonzero ?_
      rw [← Nat.div_add_mod n p, none, divides, Nat.mul_zero]
    · rwa [if_neg divides]

theorem ofProduct_eq_zero_iff {negative : Bool} {n : Nat} {twos fives : Int} :
    ofProduct negative n twos fives = zero ↔ n = 0 := by
  rw [ofProduct]
  by_cases none : n = 0
  · rw [if_pos none]
    exact iff_of_true rfl none
  · rw [if_neg none]
    refine iff_of_false (fun eq => ?_) none
    have odd := divideOut_ne_zero 2 (n.log2 + 1) none
    have core := divideOut_ne_zero 5 ((divideOut 2 (n.log2 + 1) n).2.log2 + 1) odd
    exact core (finite.inj eq).2.1

end ExactNumber

namespace Value

variable {a b : Value}

/-- A number counts as true exactly if its value is not zero. -/
theorem truthy_of_exactValue {x : ExactNumber} (value : a.exactValue? = some x) :
    a.truthy = true ↔ x ≠ .zero := by
  obtain ⟨_, c⟩ := a
  have product (negative : Bool) (n : Nat) (twos fives : Int) :
      n ≠ 0 ↔ ExactNumber.ofProduct negative n twos fives ≠ .zero :=
    not_congr ExactNumber.ofProduct_eq_zero_iff.symm
  cases c with
  | bool b =>
    cases b <;> cases value <;>
      simp [truthy, content, Content.truthy, ← product, ExactNumber.ofInt]
  | int n =>
    cases value
    simp [truthy, content, Content.truthy, ExactNumber.ofInt, ← product]
  | float x =>
    cases x with
    | finite =>
      cases value
      simp [truthy, content, Content.truthy, Binary64.isZero, ← product]
    | infinite =>
      cases value
      simp [truthy, content, Content.truthy, Binary64.isZero, ExactNumber.zero]
    | nan => cases value
  | decimal d =>
    cases d with
    | finite =>
      cases value
      simp [truthy, content, Content.truthy, Decimal.isZero, ← product]
    | infinite =>
      cases value
      simp [truthy, content, Content.truthy, Decimal.isZero, ExactNumber.zero]
    | nan => cases value
  | _ => cases value

theorem isEmpty_of_sameItems {xs ys : List Value} (h : sameItems xs ys = true) :
    xs.isEmpty = ys.isEmpty := by
  cases xs <;> cases ys <;> first | rfl | cases h

theorem isEmpty_of_same_dict {i j : Option Identity} {xs ys : Dict}
    (h : same ⟨i, .dict xs⟩ ⟨j, .dict ys⟩ = true) : xs.isEmpty = ys.isEmpty := by
  obtain ⟨there, back⟩ := (same_dict i j xs ys).1 h
  cases xs with
  | nil =>
    cases ys with
    | nil => rfl
    | cons f ys =>
      obtain ⟨_, mem, _⟩ := back f (List.mem_cons_self ..)
      cases mem
  | cons e xs =>
    cases ys with
    | nil =>
      obtain ⟨_, mem, _⟩ := there e (List.mem_cons_self ..)
      cases mem
    | cons f ys => rfl

/-- Equal values count alike as true or not. -/
theorem truthy_of_same (h : a.same b = true) : a.truthy = b.truthy := by
  cases number : a.isNumber with
  | true =>
    rw [same_of_number_left number, sameNumber_eq_true_iff] at h
    obtain ⟨n, left, right⟩ := h
    rw [Bool.eq_iff_iff, truthy_of_exactValue left, truthy_of_exactValue right]
  | false =>
    obtain ⟨_, c⟩ := a
    obtain ⟨_, c'⟩ := b
    cases c <;> cases c' <;> first
      | exact (Bool.false_ne_true number.symm).elim
      | exact (Bool.false_ne_true h).elim
      | rfl
      | skip
    case string.string s t => rw [show s = t from of_decide_eq_true h]; rfl
    case bytes.bytes xs ys => rw [show xs = ys from of_decide_eq_true h]; rfl
    case list.list => exact congrArg (!·) (isEmpty_of_sameItems h)
    case tuple.tuple => exact congrArg (!·) (isEmpty_of_sameItems h)
    case dict.dict => exact congrArg (!·) (isEmpty_of_same_dict h)
    case duration.duration x y => rw [show x = y from of_decide_eq_true h]; rfl

/-! ### Refused comparisons -/

mutual

/-- Whether no signalling not-a-number is in a value. -/
def quiet : Value → Bool
  | ⟨_, .decimal (.nan _ signalling _)⟩ => !signalling
  | ⟨_, .list items⟩ | ⟨_, .tuple items⟩ => allQuiet items
  | ⟨_, .dict entries⟩ => entriesQuiet entries
  | ⟨_, .reference url values options⟩ => quiet url && quiet values && quiet options
  | _ => true
termination_by structural v => v

/-- Whether no signalling not-a-number is in the items of a sequence. -/
def allQuiet : List Value → Bool
  | [] => true
  | v :: vs => quiet v && allQuiet vs
termination_by structural vs => vs

/-- Whether no signalling not-a-number is in the entries of a dictionary. -/
def entriesQuiet : List (Value × Value) → Bool
  | [] => true
  | (key, value) :: rest => quiet key && quiet value && entriesQuiet rest
termination_by structural es => es

end

theorem allQuiet_iff {vs : List Value} : allQuiet vs = true ↔ ∀ v ∈ vs, v.quiet = true := by
  induction vs with
  | nil => simp [allQuiet]
  | cons v vs ih => simp [allQuiet, ih]

theorem entriesQuiet_iff {es : List (Value × Value)} :
    entriesQuiet es = true ↔ ∀ e ∈ es, e.1.quiet = true ∧ e.2.quiet = true := by
  induction es with
  | nil => simp [entriesQuiet]
  | cons e es ih => simp [entriesQuiet, ih]

theorem isSignalling_of_quiet (h : a.quiet = true) : a.isSignalling = false := by
  obtain ⟨_, c⟩ := a
  cases c with
  | decimal d =>
    cases d with
    | nan negative signalling payload =>
      cases signalling with
      | true => cases h
      | false => rfl
    | _ => rfl
  | _ => rfl

theorem itemsRefuse_of_quiet {xs ys : List Value}
    (ih : ∀ x ∈ xs, ∀ y : Value, y.quiet = true → x.refuses y = false)
    (quiet : ∀ y ∈ ys, y.quiet = true) : itemsRefuse xs ys = false := by
  induction xs generalizing ys with
  | nil => rfl
  | cons x xs rest =>
    cases ys with
    | nil => rfl
    | cons y ys =>
      have first := ih x (List.mem_cons_self ..) y (quiet y (List.mem_cons_self ..))
      have later := rest (fun z mem => ih z (List.mem_cons_of_mem _ mem))
        fun z mem => quiet z (List.mem_cons_of_mem _ mem)
      rw [itemsRefuse, first, later, Bool.and_false, Bool.and_false, Bool.or_false]

theorem entriesRefuse_of_quiet {xs ys : Dict}
    (ih : ∀ e ∈ xs, ∀ y : Value, y.quiet = true → e.2.refuses y = false)
    (quiet : ∀ f ∈ ys, f.2.quiet = true) : entriesRefuse xs ys = false := by
  induction xs with
  | nil => rfl
  | cons e xs rest =>
    rw [entriesRefuse]
    cases found : ys.find? fun f => e.1.alike f.1 with
    | none => rfl
    | some f =>
      have here := ih e (List.mem_cons_self ..) f.2 (quiet f (List.mem_of_find?_eq_some found))
      have later := rest fun g mem => ih g (List.mem_cons_of_mem _ mem)
      simp only [here, later, Bool.and_false, Bool.or_false]

/-- No comparison of values without a signalling not-a-number is refused. -/
theorem refuses_of_quiet (ha : a.quiet = true) (hb : b.quiet = true) : a.refuses b = false := by
  induction a using induction generalizing b with
  | list id items ih =>
    obtain ⟨_, c⟩ := b
    cases c with
    | list items' =>
      have later := itemsRefuse_of_quiet (fun x mem y => ih x mem (allQuiet_iff.1 ha x mem))
        (allQuiet_iff.1 hb)
      simp only [refuses, content, later, Bool.and_false]
    | _ => rfl
  | tuple id items ih =>
    obtain ⟨_, c⟩ := b
    cases c with
    | tuple items' =>
      exact itemsRefuse_of_quiet (fun x mem y => ih x mem (allQuiet_iff.1 ha x mem))
        (allQuiet_iff.1 hb)
    | _ => rfl
  | dict id entries ih =>
    obtain ⟨_, c⟩ := b
    cases c with
    | dict entries' =>
      have later := entriesRefuse_of_quiet
        (fun e mem y => (ih e mem).2 (entriesQuiet_iff.1 ha e mem).2)
        fun f mem => (entriesQuiet_iff.1 hb f mem).2
      simp only [refuses, content, later, Bool.and_false]
    | _ => rfl
  | reference id url values options ih_url ih_values ih_options =>
    obtain ⟨_, c⟩ := b
    cases c with
    | reference url' values' options' =>
      simp only [quiet, Bool.and_eq_true] at ha hb
      simp only [refuses, content, ih_url ha.1.1 hb.1.1, ih_values ha.1.2 hb.1.2,
        ih_options ha.2 hb.2, Bool.and_false, Bool.or_false]
    | _ => rfl
  | scalar id content scalar =>
    have number : refuses ⟨id, content⟩ b = numbersRefuse ⟨id, content⟩ b := by
      cases content <;> first
        | exact (Bool.false_ne_true scalar).elim
        | rfl
    rw [number, numbersRefuse, isSignalling_of_quiet ha, isSignalling_of_quiet hb, Bool.false_and,
      Bool.and_false, Bool.or_false]

theorem compare_of_quiet (ha : a.quiet = true) (hb : b.quiet = true) :
    a.compare b = .ok (a.same b) :=
  compare_eq_ok_iff.2 ⟨refuses_of_quiet ha hb, rfl⟩

end Value

end ChartTree
