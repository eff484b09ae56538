import ChartTree.Proofs.Number.Nearest

/-!
# Intervals of whole numbers

The interval of a finite number in units of a power of ten, compared in whole numbers, is that of
the magnitudes that round to the number. The integer chosen from it is as near as any in it, and
with seventeen digits there is one.
-/

namespace ChartTree

namespace Binary64

variable {m : ℕ} {e : ℤ}

theorem ten_zpow_pos (g : ℤ) : (0 : ℚ) < 10 ^ g :=
  zpow_pos (by norm_num) g

theorem ten_zpow_natCast (n : ℕ) : (10 : ℚ) ^ (n : ℤ) = ((10 ^ n : ℕ) : ℚ) := by
  rw [zpow_natCast, Nat.cast_pow, Nat.cast_ofNat]

namespace Interval

/-- An interval is that of a number, in a unit. -/
structure Shows (i : Interval) (m : ℕ) (e : ℤ) (unit : ℚ) : Prop where
  den : 0 < i.den
  low : i.low * unit = lowEnd m e * i.den
  value : i.value * unit = absolute m e * i.den
  high : i.high * unit = highEnd m e * i.den
  closed : i.closed = decide (m % 2 = 0)

/-- A power of two as a quotient of two that are whole. -/
theorem natCast_two_pow (z : ℤ) :
    ((Nat.pow 2 z.toNat : ℕ) : ℚ) = 2 ^ z * (Nat.pow 2 (-z).toNat : ℕ) := by
  have pow (n : ℕ) : ((Nat.pow 2 n : ℕ) : ℚ) = 2 ^ (n : ℤ) := by
    rw [zpow_natCast]
    exact Nat.cast_pow 2 n
  rw [pow, pow, ← zpow_add₀ two_ne_zero]
  congr 1
  omega

theorem shows_interval (positive : 0 < m) (e : ℤ) : (interval m e).Shows m e 1 := by
  have scale := natCast_two_pow (e - 2)
  rw [neg_sub] at scale
  have whole : quartersBelow m e ≤ 4 * m := by linarith [quartersBelow_le_two m e]
  have unit : absolute m e = 4 * m * 2 ^ (e - 2) := by
    rw [absolute, two_zpow_half e, two_zpow_quarter e]
    ring
  refine ⟨Nat.pow_pos two_pos, ?_, ?_, ?_, rfl⟩
  · rw [interval, lowEnd, Nat.cast_mul, scale, Nat.cast_sub whole]
    push_cast
    ring
  · rw [interval, unit, Nat.cast_mul, scale]
    push_cast
    ring
  · rw [interval, highEnd, Nat.cast_mul, scale]
    push_cast
    ring

variable {i : Interval} {unit : ℚ}

theorem Shows.inUnits (shows : i.Shows m e 1) (g : ℤ) : (i.inUnits g).Shows m e (10 ^ g) := by
  obtain ⟨den, low, value, high, closed⟩ := shows
  rw [mul_one] at low value high
  rw [Interval.inUnits]
  split
  · rename_i whole
    have power : ((Nat.pow 10 g.toNat : ℕ) : ℚ) = 10 ^ g := by
      refine (ten_zpow_natCast _).symm.trans ?_
      rw [Int.toNat_of_nonneg whole]
    refine ⟨Nat.mul_pos den (Nat.pow_pos (by decide)), ?_, ?_, ?_, closed⟩
    · rw [Nat.cast_mul, power, ← mul_assoc, ← low]
    · rw [Nat.cast_mul, power, ← mul_assoc, ← value]
    · rw [Nat.cast_mul, power, ← mul_assoc, ← high]
  · rename_i fraction
    have power : ((Nat.pow 10 (-g).toNat : ℕ) : ℚ) * 10 ^ g = 1 := by
      have pow : ((Nat.pow 10 (-g).toNat : ℕ) : ℚ) = 10 ^ (((-g).toNat : ℕ) : ℤ) :=
        (ten_zpow_natCast _).symm
      rw [pow, Int.toNat_of_nonneg (by omega), ← zpow_add₀ (by norm_num), neg_add_cancel, zpow_zero]
    refine ⟨den, ?_, ?_, ?_, closed⟩
    · rw [scaleUp, Nat.cast_mul, mul_assoc, power, mul_one, low]
    · rw [scaleUp, Nat.cast_mul, mul_assoc, power, mul_one, value]
    · rw [scaleUp, Nat.cast_mul, mul_assoc, power, mul_one, high]

/-- A comparison of whole numbers is one of magnitudes. -/
theorem Shows.natCast_le (shows : i.Shows m e unit) (positive : 0 < unit) {a b : ℕ} {x y : ℚ}
    (ha : a * unit = x * i.den) (hb : b * unit = y * i.den) : a ≤ b ↔ x ≤ y := by
  have den : (0 : ℚ) < i.den := by exact_mod_cast shows.den
  rw [← Nat.cast_le (α := ℚ), ← mul_le_mul_iff_left₀ positive, ha, hb, mul_le_mul_iff_left₀ den]

theorem Shows.natCast_lt (shows : i.Shows m e unit) (positive : 0 < unit) {a b : ℕ} {x y : ℚ}
    (ha : a * unit = x * i.den) (hb : b * unit = y * i.den) : a < b ↔ x < y := by
  rw [← not_le, shows.natCast_le positive hb ha, not_le]

theorem natCast_mul_den (t : ℕ) (unit : ℚ) :
    ((t * i.den : ℕ) : ℚ) * unit = t * unit * i.den := by
  rw [Nat.cast_mul, mul_right_comm]

/-- An integer lies in the interval if its magnitude is between the ends. -/
theorem Shows.holds_iff (shows : i.Shows m e unit) (positive : 0 < unit) (t : ℕ) :
    i.holds t = true ↔ Within (t * unit) m e := by
  have mid := natCast_mul_den (i := i) t unit
  have low := shows.natCast_le positive shows.low mid
  have high := shows.natCast_le positive mid shows.high
  have low' := shows.natCast_lt positive shows.low mid
  have high' := shows.natCast_lt positive mid shows.high
  rw [holds, shows.closed]
  by_cases even : m % 2 = 0
  · rw [if_pos (decide_eq_true even), Bool.and_eq_true, decide_eq_true_iff, decide_eq_true_iff,
      low, high]
    exact ⟨fun h => ⟨h.1, h.2, fun odd => absurd even odd⟩, fun h => ⟨h.low, h.high⟩⟩
  · rw [if_neg (by simpa using even), Bool.and_eq_true, decide_eq_true_iff, decide_eq_true_iff,
      low', high']
    exact ⟨fun h => ⟨h.1.le, h.2.le, fun _ => h⟩, fun h => h.inside even⟩

/-- The integer below a number in a unit and the one after it. -/
theorem Shows.floor (shows : i.Shows m e unit) (positive : 0 < unit) :
    ((i.value / i.den : ℕ) : ℚ) * unit ≤ absolute m e ∧
      absolute m e < ((i.value / i.den + 1 : ℕ) : ℚ) * unit := by
  have next : i.value < (i.value / i.den + 1) * i.den := by
    rw [mul_comm]
    exact Nat.lt_mul_div_succ i.value shows.den
  exact ⟨(shows.natCast_le positive (natCast_mul_den _ _) shows.value).1 (Nat.div_mul_le_self _ _),
    (shows.natCast_lt positive shows.value (natCast_mul_den _ _)).1 next⟩

/-- The nearest integer is one of the two neighbours, and within the interval. -/
theorem Shows.of_nearest? (shows : i.Shows m e unit) (positive : 0 < unit) {t : ℕ}
    (found : i.nearest? = some t) : Within (t * unit) m e ∧ t ≤ i.value / i.den + 1 := by
  rw [← shows.holds_iff positive]
  rw [nearest?] at found
  cases below : i.holds (i.value / i.den) <;> cases above : i.holds (i.value / i.den + 1) <;>
    simp only [below, above, Option.some.injEq, reduceCtorEq] at found
  · exact found ▸ ⟨above, le_rfl⟩
  · exact found ▸ ⟨below, Nat.le_succ _⟩
  · split at found
    · exact found ▸ ⟨below, Nat.le_succ _⟩
    · exact found ▸ ⟨above, le_rfl⟩

/-- The distances to the two neighbours are compared as whole numbers. -/
theorem Shows.dist_le_iff (shows : i.Shows m e unit) (positive : 0 < unit) {f : ℕ}
    (eq : f = i.value / i.den) :
    (i.value - f * i.den ≤ (f + 1) * i.den - i.value ↔
      |f * unit - absolute m e| ≤ |(f + 1 : ℕ) * unit - absolute m e|) ∧
    ((f + 1) * i.den - i.value ≤ i.value - f * i.den ↔
      |(f + 1 : ℕ) * unit - absolute m e| ≤ |f * unit - absolute m e|) := by
  obtain ⟨floor, ceil⟩ := shows.floor positive
  rw [← eq] at floor ceil
  have le : f * i.den ≤ i.value := eq ▸ Nat.div_mul_le_self _ _
  have le' : i.value ≤ (f + 1) * i.den :=
    (shows.natCast_le positive shows.value (natCast_mul_den _ _)).2 ceil.le
  have below : ((i.value - f * i.den : ℕ) : ℚ) * unit = (absolute m e - f * unit) * i.den := by
    rw [Nat.cast_sub le, sub_mul, shows.value, natCast_mul_den, sub_mul]
  have above : (((f + 1) * i.den - i.value : ℕ) : ℚ) * unit =
      ((f + 1 : ℕ) * unit - absolute m e) * i.den := by
    rw [Nat.cast_sub le', sub_mul, shows.value, natCast_mul_den, sub_mul]
  rw [abs_of_nonpos (sub_nonpos.2 floor), abs_of_pos (sub_pos.2 ceil), neg_sub]
  exact ⟨shows.natCast_le positive below above, shows.natCast_le positive above below⟩

/-- The nearest integer is as near as any other in the interval. -/
theorem Shows.nearest?_le (shows : i.Shows m e unit) (positive : 0 < unit) {s : ℕ}
    (within : Within (s * unit) m e) :
    ∃ t, i.nearest? = some t ∧ |t * unit - absolute m e| ≤ |s * unit - absolute m e| := by
  obtain ⟨floor, ceil⟩ := shows.floor positive
  obtain ⟨closer, closer'⟩ := shows.dist_le_iff positive rfl
  rw [nearest?]
  generalize i.value / i.den = f at *
  -- An integer of the interval is not nearer than the neighbour on its side.
  have side : i.holds f = true ∧ |f * unit - absolute m e| ≤ |s * unit - absolute m e| ∨
      i.holds (f + 1) = true ∧
        |(f + 1 : ℕ) * unit - absolute m e| ≤ |s * unit - absolute m e| := by
    rcases Nat.lt_or_ge f s with above | below
    · have le : ((f + 1 : ℕ) : ℚ) * unit ≤ s * unit :=
        mul_le_mul_of_nonneg_right (by exact_mod_cast above) positive.le
      refine .inr ⟨(shows.holds_iff positive _).2 (within.of_ge_of_ge le ceil.le), ?_⟩
      rw [abs_of_pos (sub_pos.2 ceil), abs_of_pos (sub_pos.2 (ceil.trans_le le))]
      linarith
    · have le : (s : ℚ) * unit ≤ f * unit :=
        mul_le_mul_of_nonneg_right (by exact_mod_cast below) positive.le
      refine .inl ⟨(shows.holds_iff positive _).2 (within.of_le_of_le le floor), ?_⟩
      rw [abs_of_nonpos (sub_nonpos.2 floor), abs_of_nonpos (sub_nonpos.2 (le.trans floor))]
      linarith
  cases below : i.holds f with
  | false =>
    rw [below, or_iff_right fun h => nomatch h.1] at side
    rw [side.1]
    exact ⟨_, rfl, side.2⟩
  | true =>
    cases above : i.holds (f + 1) with
    | false =>
      rw [above, or_iff_left fun h => nomatch h.1] at side
      exact ⟨_, rfl, side.2⟩
    | true =>
      refine ⟨_, rfl, ?_⟩
      split
      · rename_i chosen
        have le := closer.1 (by grind)
        exact side.elim (fun h => h.2) fun h => le.trans h.2
      · rename_i chosen
        have le := closer'.1 (by grind)
        exact side.elim (fun h => le.trans h.2) fun h => h.2

/-- With seventeen digits one of the neighbours lies in the interval. -/
theorem Shows.nearest?_isSome (shows : i.Shows m e unit) (positive : 0 < unit)
    (hm : isCanonical m e = true) (large : 10 ^ 16 * unit ≤ absolute m e) :
    i.nearest?.isSome = true := by
  obtain ⟨short, _, _⟩ := isCanonical_iff.1 hm
  obtain ⟨floor, ceil⟩ := shows.floor positive
  have eighth := two_zpow_pos (e - 2)
  have low := two_mul_lowEnd m e
  have high := two_mul_highEnd m e
  rw [two_zpow_half e] at high
  have half := two_zpow_quarter e
  -- A unit is less than twice the room to either side.
  have room : unit < 2 * (absolute m e - lowEnd m e) ∧ unit < 2 * (highEnd m e - absolute m e) := by
    rw [absolute, two_zpow_half e, half] at large
    by_cases power : m = 2 ^ 52 ∧ -1074 < e
    · obtain ⟨rfl, gt⟩ := power
      rw [quartersBelow_of_power gt, Nat.cast_one] at low
      push_cast at large
      constructor <;> linarith
    · have short : (m : ℚ) < 2 ^ 53 := by exact_mod_cast short
      have := mul_lt_mul_of_pos_right short eighth
      rw [quartersBelow_of_ne power, Nat.cast_two] at low
      constructor <;> linarith
  have next : ((i.value / i.den + 1 : ℕ) : ℚ) * unit = (i.value / i.den : ℕ) * unit + unit := by
    rw [Nat.cast_succ, add_mul, one_mul]
  rw [next] at ceil
  have some (s : ℕ) (within : Within (s * unit) m e) : i.nearest?.isSome = true := by
    obtain ⟨t, found, _⟩ := shows.nearest?_le positive within
    rw [found]
    rfl
  rcases le_total (2 * (absolute m e - (i.value / i.den : ℕ) * unit)) unit with near | far
  · refine some (i.value / i.den) ⟨by linarith, by linarith, fun _ => ⟨by linarith, by linarith⟩⟩
  · refine some (i.value / i.den + 1) ?_
    rw [next]
    exact ⟨by linarith, by linarith, fun _ => ⟨by linarith, by linarith⟩⟩

/-! ### Orders of magnitude -/

/-- A value below one is below one after so many places and no more. -/
theorem leadingZeros_spec {num den fuel : ℕ} (less : num < den) (reach : den ≤ num * 10 ^ fuel) :
    num * 10 ^ leadingZeros num den fuel < den ∧
      den ≤ num * 10 ^ (leadingZeros num den fuel + 1) := by
  induction fuel generalizing num with
  | zero => omega
  | succ fuel ih =>
    rw [leadingZeros]
    split
    · rename_i first
      exact ⟨by simpa using less, by simpa [mul_comm] using first⟩
    · rename_i later
      have shift (n : ℕ) : 10 * num * 10 ^ n = num * 10 ^ (n + 1) := by ring
      have rest := ih (lt_of_not_ge later) (by rwa [shift])
      rwa [shift, shift] at rest

/-- A value of one or more has as many digits as its integer. -/
theorem decimal_length {n : ℕ} (positive : 0 < n) :
    ∃ k, (Text.decimal n).length = k + 1 ∧ 10 ^ k ≤ n ∧ n < 10 ^ (k + 1) := by
  obtain ⟨k, length⟩ := Nat.exists_eq_succ_of_ne_zero
    (List.length_pos_iff.2 (Text.decimal_ne_nil n)).ne'
  refine ⟨k, length, ?_, (Nat.length_toDigits_le_iff (by decide) k.succ_pos).1 length.le⟩
  rcases Nat.eq_zero_or_pos k with rfl | some
  · exact positive
  · refine Nat.le_of_not_lt fun short => ?_
    have := (Nat.length_toDigits_le_iff (by decide) some).2 short
    exact absurd (length.symm.trans_le this) (by omega)

theorem Shows.magnitude (shows : i.Shows m e 1) (reach : i.den ≤ i.value * 10 ^ 400) :
    (10 : ℚ) ^ i.magnitude ≤ absolute m e ∧ absolute m e < 10 ^ (i.magnitude + 1) := by
  have den : (0 : ℚ) < i.den := by exact_mod_cast shows.den
  have value := shows.value
  rw [mul_one] at value
  rw [Interval.magnitude]
  split
  · rename_i whole
    obtain ⟨k, length, low, high⟩ := decimal_length (Nat.div_pos whole shows.den)
    have low : 10 ^ k * i.den ≤ i.value := (Nat.le_div_iff_mul_le shows.den).1 low
    have high : i.value < 10 ^ (k + 1) * i.den := (Nat.div_lt_iff_lt_mul shows.den).1 high
    have low : ((10 ^ k : ℕ) : ℚ) * i.den ≤ i.value := by exact_mod_cast low
    have high : (i.value : ℚ) < (10 ^ (k + 1) : ℕ) * i.den := by exact_mod_cast high
    rw [value] at low high
    rw [length, Nat.cast_succ, add_sub_cancel_right, ← Nat.cast_succ, ten_zpow_natCast,
      ten_zpow_natCast]
    exact ⟨(mul_le_mul_iff_left₀ den).1 low, (mul_lt_mul_iff_left₀ den).1 high⟩
  · rename_i fraction
    obtain ⟨low, high⟩ := leadingZeros_spec (lt_of_not_ge fraction) reach
    generalize leadingZeros i.value i.den 400 = z at low high
    have low : (i.value : ℚ) * (10 ^ z : ℕ) < i.den := by exact_mod_cast low
    have high : (i.den : ℚ) ≤ i.value * (10 ^ (z + 1) : ℕ) := by exact_mod_cast high
    rw [value, ← ten_zpow_natCast, mul_right_comm, ← lt_div_iff₀ den, div_self den.ne',
      ← lt_div_iff₀ (ten_zpow_pos _), one_div, ← zpow_neg] at low
    rw [value, ← ten_zpow_natCast, mul_right_comm, ← div_le_iff₀ den, div_self den.ne',
      ← div_le_iff₀ (ten_zpow_pos _), one_div, ← zpow_neg] at high
    rw [sub_add_cancel]
    rw [Nat.cast_succ, neg_add'] at high
    exact ⟨high, low⟩

end Interval

end Binary64

end ChartTree
