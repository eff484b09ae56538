import Mathlib.Algebra.Order.Field.Power
import Mathlib.Data.Rat.Cast.Order
import Mathlib.Tactic.Linarith
import Mathlib.Tactic.Positivity
import Mathlib.Tactic.Ring
import ChartTree.Number.Binary64

/-!
# The nearest number of the format

Which magnitudes round to a finite number is told from the distances to the numbers of the format
alone. Powers of two beyond the greatest take part, so that what rounds to an infinity is nearest to
no finite number. The numbers next to a given one are a unit above it and a unit below it, or half
a unit below a power of two; the magnitudes nearest to it are those up to half the way.
-/

namespace ChartTree

namespace Binary64

/-- The absolute value of a finite number. -/
def absolute (m : ℕ) (e : ℤ) : ℚ :=
  m * 2 ^ e

/-- A magnitude is nearer to a finite number than to any other of the format; of two equally near
ones to that with the even significand. -/
def Nearest (q : ℚ) (m : ℕ) (e : ℤ) : Prop :=
  ∀ n f, isCanonical n f = true → absolute n f ≠ absolute m e →
    |q - absolute m e| < |q - absolute n f| ∨
      |q - absolute m e| = |q - absolute n f| ∧ m % 2 = 0

/-! ### Distances -/

section Distances

variable {q x y : ℚ}

theorem dist_sq_sub : (q - y) ^ 2 - (q - x) ^ 2 = (y - x) * (x + y - 2 * q) := by
  ring

theorem dist_lt_iff_above (lt : x < y) : |q - x| < |q - y| ↔ 2 * q < x + y := by
  rw [← sq_lt_sq, ← sub_pos, dist_sq_sub, mul_pos_iff_of_pos_left (sub_pos.2 lt), sub_pos]

theorem dist_eq_iff (ne : y ≠ x) : |q - x| = |q - y| ↔ 2 * q = x + y := by
  rw [eq_comm, ← sq_eq_sq_iff_abs_eq_abs, ← sub_eq_zero, dist_sq_sub, mul_eq_zero, sub_eq_zero,
    or_iff_right ne, sub_eq_zero, eq_comm]

theorem dist_lt_iff_below (lt : y < x) : |q - x| < |q - y| ↔ x + y < 2 * q := by
  have above := dist_lt_iff_above (q := -q) (neg_lt_neg lt)
  rw [← abs_neg, ← abs_neg (q - y)]
  rw [neg_sub_neg, neg_sub_neg] at above
  rw [neg_sub, neg_sub, above]
  constructor <;> intro <;> linarith

end Distances

/-! ### Numbers next to each other -/

variable {m n : ℕ} {e f : ℤ}

theorem isCanonical_iff :
    isCanonical m e = true ↔ m < 2 ^ 53 ∧ -1074 ≤ e ∧ (2 ^ 52 ≤ m ∨ e = -1074) := by
  simp only [isCanonical, Bool.and_eq_true, Bool.or_eq_true, decide_eq_true_eq, and_assoc]
  exact Iff.rfl

theorem two_zpow_pos (e : ℤ) : (0 : ℚ) < 2 ^ e :=
  zpow_pos two_pos e

theorem two_zpow_half (e : ℤ) : (2 : ℚ) ^ e = 2 * 2 ^ (e - 1) := by
  rw [mul_comm, ← zpow_add_one₀ two_ne_zero, sub_add_cancel]

theorem two_zpow_quarter (e : ℤ) : (2 : ℚ) ^ (e - 1) = 2 * 2 ^ (e - 2) := by
  have half := two_zpow_half (e - 1)
  rwa [sub_sub, one_add_one_eq_two] at half

theorem quartersBelow_le_two (m : ℕ) (e : ℤ) : quartersBelow m e ≤ 2 := by
  rw [quartersBelow]
  split <;> decide

theorem quartersBelow_of_power (gt : -1074 < e) : quartersBelow (2 ^ 52) e = 1 := by
  have above : minExponent < e := gt
  have power : 2 ^ 52 = normalMantissa := rfl
  simp [quartersBelow, above, power]

theorem quartersBelow_of_ne (ne : ¬(m = 2 ^ 52 ∧ -1074 < e)) : quartersBelow m e = 2 := by
  have : ¬(decide (m = normalMantissa) && decide (minExponent < e)) = true := by
    rw [Bool.and_eq_true, decide_eq_true_iff, decide_eq_true_iff]
    exact ne
  rw [quartersBelow, if_neg this]

/-- The absolute value of a number in units of a smaller power of two. -/
theorem absolute_eq_natCast (le : e ≤ f) (n : ℕ) : ∃ k : ℕ, absolute n f = absolute k e := by
  obtain ⟨d, rfl⟩ := Int.le.dest le
  refine ⟨n * 2 ^ d, ?_⟩
  rw [absolute, absolute, zpow_add₀ two_ne_zero, zpow_natCast]
  push_cast
  ring

theorem absolute_lt_iff : absolute n e < absolute m e ↔ n < m := by
  rw [absolute, absolute, mul_lt_mul_iff_left₀ (two_zpow_pos e), Nat.cast_lt]

theorem absolute_le_iff : absolute n e ≤ absolute m e ↔ n ≤ m := by
  rw [absolute, absolute, mul_le_mul_iff_left₀ (two_zpow_pos e), Nat.cast_le]

theorem absolute_succ (m : ℕ) (e : ℤ) : absolute (m + 1) e = absolute m e + 2 ^ e := by
  rw [absolute, absolute]
  push_cast
  ring

/-- A number with a smaller power of two is at most the greatest one below. -/
theorem absolute_le_of_exponent_lt (short : n < 2 ^ 53) (lt : f < e) :
    absolute n f ≤ absolute (2 ^ 53 - 1) (e - 1) := by
  have power : (2 : ℚ) ^ f ≤ 2 ^ (e - 1) := zpow_le_zpow_right₀ one_le_two (by omega)
  have short : (n : ℚ) ≤ (2 ^ 53 - 1 : ℕ) := by exact_mod_cast Nat.le_sub_one_of_lt short
  exact mul_le_mul short power (two_zpow_pos f).le (Nat.cast_nonneg _)

/-- The greatest significand is half a unit short of a power of two. -/
theorem absolute_greatest (e : ℤ) :
    absolute (2 ^ 53 - 1) (e - 1) + 2 ^ (e - 1) = absolute (2 ^ 52) e := by
  rw [absolute, absolute, two_zpow_half e]
  generalize (2 : ℚ) ^ (e - 1) = half
  norm_num
  ring

/-- The next number above is at least one unit away. -/
theorem unit_above (hm : isCanonical m e = true) (hn : isCanonical n f = true)
    (lt : absolute m e < absolute n f) : absolute m e + 2 ^ e ≤ absolute n f := by
  obtain ⟨_, _, normal⟩ := isCanonical_iff.1 hm
  obtain ⟨short, least, _⟩ := isCanonical_iff.1 hn
  rcases le_or_gt e f with le | gt
  · obtain ⟨k, eq⟩ := absolute_eq_natCast le n
    rw [eq] at lt ⊢
    rw [← absolute_succ]
    exact absolute_le_iff.2 (absolute_lt_iff.1 lt)
  · have normal : 2 ^ 52 ≤ m := normal.resolve_right (by omega)
    have small := absolute_le_of_exponent_lt short gt
    have large : absolute (2 ^ 52) e ≤ absolute m e := absolute_le_iff.2 normal
    linarith [absolute_greatest e, two_zpow_pos (e - 1)]

/-- The next number below is at least as many half units away as quarters round over. -/
theorem units_below (hm : isCanonical m e = true) (hn : isCanonical n f = true)
    (lt : absolute n f < absolute m e) :
    absolute n f + quartersBelow m e * 2 ^ (e - 1) ≤ absolute m e := by
  obtain ⟨_, _, normal⟩ := isCanonical_iff.1 hm
  obtain ⟨short, least, _⟩ := isCanonical_iff.1 hn
  have whole (k : ℕ) (below : k < m) :
      absolute k e + quartersBelow m e * 2 ^ (e - 1) ≤ absolute m e := by
    have quarters : (quartersBelow m e : ℚ) ≤ 2 := by exact_mod_cast quartersBelow_le_two m e
    have quarters := mul_le_mul_of_nonneg_right quarters (two_zpow_pos (e - 1)).le
    have next : absolute (k + 1) e ≤ absolute m e := absolute_le_iff.2 below
    linarith [two_zpow_half e, absolute_succ k e]
  rcases le_or_gt e f with le | gt
  · obtain ⟨k, eq⟩ := absolute_eq_natCast le n
    rw [eq] at lt ⊢
    exact whole k (absolute_lt_iff.1 lt)
  · have normal : 2 ^ 52 ≤ m := normal.resolve_right (by omega)
    have small := absolute_le_of_exponent_lt short gt
    have greatest := absolute_greatest e
    rcases normal.eq_or_lt with rfl | above
    · -- Below a power of two the numbers stand twice as close.
      rw [quartersBelow_of_power (by omega), Nat.cast_one, one_mul]
      linarith
    · have := whole (2 ^ 52) above
      linarith [two_zpow_pos (e - 1)]

/-! ### The magnitudes nearest to a number -/

/-- The lower end of the magnitudes that round to a number, half the way to the next below. -/
def lowEnd (m : ℕ) (e : ℤ) : ℚ :=
  (4 * m - quartersBelow m e) * 2 ^ (e - 2)

/-- The upper end of the magnitudes that round to a number, half the way to the next above. -/
def highEnd (m : ℕ) (e : ℤ) : ℚ :=
  (4 * m + 2) * 2 ^ (e - 2)

/-- A magnitude is between the ends; at an end only if the significand is even. -/
structure Within (q : ℚ) (m : ℕ) (e : ℤ) : Prop where
  low : lowEnd m e ≤ q
  high : q ≤ highEnd m e
  inside : m % 2 ≠ 0 → lowEnd m e < q ∧ q < highEnd m e

theorem two_mul_lowEnd (m : ℕ) (e : ℤ) :
    2 * lowEnd m e = 2 * absolute m e - quartersBelow m e * 2 ^ (e - 1) := by
  rw [lowEnd, absolute, two_zpow_half e, two_zpow_quarter e]
  ring

theorem two_mul_highEnd (m : ℕ) (e : ℤ) :
    2 * highEnd m e = 2 * absolute m e + 2 ^ e := by
  rw [highEnd, absolute, two_zpow_half e, two_zpow_quarter e]
  ring

/-- What is between the ends is nearest to the number. -/
theorem Within.nearest {q : ℚ} (within : Within q m e) (hm : isCanonical m e = true) :
    Nearest q m e := by
  intro n f hn ne
  have low := two_mul_lowEnd m e
  have high := two_mul_highEnd m e
  rcases lt_or_gt_of_ne ne with below | above
  · have far := units_below hm hn below
    rw [dist_lt_iff_below below, dist_eq_iff ne]
    by_cases even : m % 2 = 0
    · rcases (by linarith [within.low] : absolute m e + absolute n f ≤ 2 * q).lt_or_eq
        with lt | eq
      · exact .inl lt
      · exact .inr ⟨eq.symm, even⟩
    · exact .inl (by linarith [(within.inside even).1])
  · have far := unit_above hm hn above
    rw [dist_lt_iff_above above, dist_eq_iff ne]
    by_cases even : m % 2 = 0
    · rcases (by linarith [within.high] : 2 * q ≤ absolute m e + absolute n f).lt_or_eq
        with lt | eq
      · exact .inl lt
      · exact .inr ⟨eq, even⟩
    · exact .inl (by linarith [(within.inside even).2])

/-- The next number above is one unit away. -/
theorem exists_above (hm : isCanonical m e = true) :
    ∃ n f, isCanonical n f = true ∧ absolute n f = absolute m e + 2 ^ e := by
  obtain ⟨short, least, normal⟩ := isCanonical_iff.1 hm
  by_cases last : m + 1 = 2 ^ 53
  · refine ⟨2 ^ 52, e + 1, isCanonical_iff.2 ⟨by norm_num, by omega, .inl le_rfl⟩, ?_⟩
    rw [← absolute_succ, last, absolute, absolute, zpow_add_one₀ two_ne_zero]
    push_cast
    ring
  · refine ⟨m + 1, e, isCanonical_iff.2 ⟨by omega, least, ?_⟩, absolute_succ m e⟩
    exact normal.imp (fun le => by omega) id

/-- The next number below is as many half units away as quarters round over. -/
theorem exists_below (hm : isCanonical m e = true) (positive : 0 < m) :
    ∃ n f, isCanonical n f = true ∧
      absolute n f + quartersBelow m e * 2 ^ (e - 1) = absolute m e := by
  obtain ⟨short, least, normal⟩ := isCanonical_iff.1 hm
  by_cases power : m = 2 ^ 52 ∧ -1074 < e
  · obtain ⟨rfl, gt⟩ := power
    refine ⟨2 ^ 53 - 1, e - 1, isCanonical_iff.2 ⟨by norm_num, by omega, .inl (by norm_num)⟩, ?_⟩
    rw [quartersBelow_of_power gt, Nat.cast_one, one_mul]
    exact absolute_greatest e
  · refine ⟨m - 1, e, isCanonical_iff.2 ⟨by omega, least, by omega⟩, ?_⟩
    obtain ⟨k, rfl⟩ := Nat.exists_eq_succ_of_ne_zero positive.ne'
    rw [quartersBelow_of_ne power, absolute, absolute, Nat.succ_sub_one, two_zpow_half e]
    push_cast
    ring

/-- What is nearest to a number is between the ends. -/
theorem Nearest.within {q : ℚ} (near : Nearest q m e) (hm : isCanonical m e = true)
    (positive : 0 < m) : Within q m e := by
  have low := two_mul_lowEnd m e
  have high := two_mul_highEnd m e
  obtain ⟨n, f, hn, below⟩ := exists_below hm positive
  obtain ⟨n', f', hn', above⟩ := exists_above hm
  have lower : absolute n f < absolute m e := by
    have quarters : (0 : ℚ) < quartersBelow m e := by
      rw [quartersBelow]
      split <;> norm_num
    linarith [mul_pos quarters (two_zpow_pos (e - 1))]
  have higher : absolute m e < absolute n' f' := by linarith [two_zpow_pos e]
  have before := near n f hn lower.ne
  have behind := near n' f' hn' higher.ne'
  rw [dist_lt_iff_below lower, dist_eq_iff lower.ne] at before
  rw [dist_lt_iff_above higher, dist_eq_iff higher.ne'] at behind
  refine ⟨?_, ?_, fun odd => ⟨?_, ?_⟩⟩
  · rcases before with lt | ⟨eq, _⟩ <;> linarith
  · rcases behind with lt | ⟨eq, _⟩ <;> linarith
  · rcases before with lt | ⟨_, even⟩
    · linarith
    · exact absurd even odd
  · rcases behind with lt | ⟨_, even⟩
    · linarith
    · exact absurd even odd

theorem lowEnd_lt_absolute (m : ℕ) (e : ℤ) : lowEnd m e < absolute m e := by
  have quarters : (0 : ℚ) < quartersBelow m e := by
    rw [quartersBelow]
    split <;> norm_num
  linarith [two_mul_lowEnd m e, mul_pos quarters (two_zpow_pos (e - 1))]

theorem absolute_lt_highEnd (m : ℕ) (e : ℤ) : absolute m e < highEnd m e := by
  linarith [two_mul_highEnd m e, two_zpow_pos e]

theorem lowEnd_pos (positive : 0 < m) (e : ℤ) : 0 < lowEnd m e := by
  have quarters : (quartersBelow m e : ℚ) ≤ 2 := by exact_mod_cast quartersBelow_le_two m e
  have positive : (1 : ℚ) ≤ m := by exact_mod_cast positive
  exact mul_pos (by linarith) (two_zpow_pos _)

/-- What is between a magnitude that rounds to a number and the number itself rounds to it. -/
theorem Within.of_le_of_le {q r : ℚ} (within : Within q m e) (above : q ≤ r)
    (below : r ≤ absolute m e) : Within r m e where
  low := within.low.trans above
  high := below.trans (absolute_lt_highEnd m e).le
  inside odd := ⟨(within.inside odd).1.trans_le above, below.trans_lt (absolute_lt_highEnd m e)⟩

theorem Within.of_ge_of_ge {q r : ℚ} (within : Within q m e) (below : r ≤ q)
    (above : absolute m e ≤ r) : Within r m e where
  low := (lowEnd_lt_absolute m e).le.trans above
  high := below.trans within.high
  inside odd := ⟨(lowEnd_lt_absolute m e).trans_le above, below.trans_lt (within.inside odd).2⟩

end Binary64

end ChartTree
