import ChartTree.Proofs.Number.Interval

/-!
# The shortest decimal of a number

The text of a finite number writes a decimal that rounds to it, that has as few digits as any other
such decimal and that is as close to it as any with as few. Digits are tried one after the other
from the first one on; with seventeen of them one of the two neighbours is always near enough.
-/

namespace ChartTree

namespace Binary64

variable {m : ℕ} {e : ℤ}

/-! ### The first decimal -/

theorem findSome?_range_eq_some {β : Type} {n : ℕ} {f : ℕ → Option β} {b : β}
    (found : (List.range n).findSome? f = some b) :
    ∃ k < n, f k = some b ∧ ∀ j < k, f j = none := by
  induction n with
  | zero => cases found
  | succ n ih =>
    rw [List.range_succ, List.findSome?_append, Option.or_eq_some_iff] at found
    rcases found with before | ⟨none, last⟩
    · obtain ⟨k, lt, rest⟩ := ih before
      exact ⟨k, lt.trans n.lt_succ_self, rest⟩
    · rw [List.findSome?_singleton] at last
      exact ⟨n, n.lt_succ_self, last, fun j lt => List.findSome?_eq_none_iff.1 none j
        (List.mem_range.2 lt)⟩

/-- A decimal of so many digits after the first one is the nearest of those that round to a number,
and none with fewer does. -/
structure FirstDecimal (m : ℕ) (e order : ℤ) (k t : ℕ) : Prop where
  within : Within (t * 10 ^ (order - k)) m e
  small : t ≤ 10 ^ (k + 1)
  closest : ∀ s : ℕ, Within (s * 10 ^ (order - k)) m e →
    |t * 10 ^ (order - k) - absolute m e| ≤ |s * 10 ^ (order - k) - absolute m e|
  first : ∀ j < k, ∀ s : ℕ, ¬Within (s * 10 ^ (order - j)) m e

/-- The order of magnitude of a number. -/
def Order (m : ℕ) (e order : ℤ) : Prop :=
  (10 : ℚ) ^ order ≤ absolute m e ∧ absolute m e < 10 ^ (order + 1)

theorem ten_pow_mul (order : ℤ) (k : ℕ) :
    ((10 ^ k : ℕ) : ℚ) * 10 ^ (order - k) = 10 ^ order := by
  rw [← ten_zpow_natCast, ← zpow_add₀ (by norm_num), add_sub_cancel]

theorem two_pow_le_ten_pow {a n : ℕ} (le : a ≤ 3 * n) : 2 ^ a ≤ 10 ^ n :=
  calc 2 ^ a ≤ 2 ^ (3 * n) := Nat.pow_le_pow_right two_pos le
    _ = (2 ^ 3) ^ n := pow_mul 2 3 n
    _ ≤ 10 ^ n := Nat.pow_le_pow_left (by decide) n

theorem interval_reach (least : -1074 ≤ e) (positive : 0 < m) :
    (interval m e).den ≤ (interval m e).value * 10 ^ 400 := by
  have den : (interval m e).den ≤ 10 ^ 400 := two_pow_le_ten_pow (by omega)
  have value : 0 < (interval m e).value :=
    Nat.mul_pos (Nat.mul_pos four_pos positive) (Nat.pow_pos two_pos)
  exact den.trans (Nat.le_mul_of_pos_left _ value)

theorem shortest_spec (hm : isCanonical m e = true) (positive : 0 < m) :
    ∃ (order : ℤ) (k : ℕ), Order m e order ∧ (shortest m e).2 = order - k ∧
      FirstDecimal m e order k (shortest m e).1 := by
  obtain ⟨_, least, _⟩ := isCanonical_iff.1 hm
  have shows := Interval.shows_interval positive e
  obtain ⟨low, high⟩ := shows.magnitude (interval_reach least positive)
  rw [shortest]
  generalize interval m e = i at *
  dsimp only
  generalize i.magnitude = order at *
  have enough : ((List.range 17).findSome? fun k : ℕ =>
      (i.inUnits (order - k)).nearest?.map fun t => (t, order - (k : ℤ))).isSome = true := by
    refine List.findSome?_isSome_iff.2 ⟨16, List.mem_range.2 (by decide), ?_⟩
    rw [Option.isSome_map]
    refine (shows.inUnits _).nearest?_isSome (ten_zpow_pos _) hm ?_
    have power := ten_pow_mul order 16
    push_cast at power
    exact power.trans_le low
  obtain ⟨⟨t, g⟩, found⟩ := Option.isSome_iff_exists.1 enough
  rw [found]
  obtain ⟨k, _, here, before⟩ := findSome?_range_eq_some found
  obtain ⟨t', near, eq⟩ := Option.map_eq_some_iff.1 here
  cases eq
  have shows' := shows.inUnits (order - k)
  obtain ⟨within, le⟩ := shows'.of_nearest? (ten_zpow_pos _) near
  refine ⟨order, k, ⟨low, high⟩, rfl, within, ?_, fun s hs => ?_, fun j lt s hs => ?_⟩
  · obtain ⟨floor, _⟩ := shows'.floor (ten_zpow_pos _)
    have bound := floor.trans_lt high
    rw [zpow_add_one₀ (by norm_num), ← ten_pow_mul order k, mul_right_comm,
      mul_lt_mul_iff_left₀ (ten_zpow_pos _)] at bound
    exact le.trans (Nat.succ_le_of_lt (by exact_mod_cast bound))
  · obtain ⟨t', near', closest⟩ := shows'.nearest?_le (ten_zpow_pos _) hs
    cases near.symm.trans near'
    exact closest
  · obtain ⟨t', near', _⟩ := (shows.inUnits (order - j)).nearest?_le (ten_zpow_pos _) hs
    have none := before j lt
    rw [near'] at none
    cases none

/-! ### The shortest decimal -/

/-- A magnitude is written with so many decimal digits, apart from zeros at either end. -/
def HasDigits (q : ℚ) (k : ℕ) : Prop :=
  ∃ (t : ℕ) (g : ℤ), t < 10 ^ k ∧ q = t * 10 ^ g

/-- A magnitude rounds to a number, with as few digits as any that does, and is as close to it as
any with as few. -/
structure Shortest (q : ℚ) (m : ℕ) (e : ℤ) : Prop where
  nearest : Nearest q m e
  fewest : ∀ {r k}, Nearest r m e → HasDigits r k → HasDigits q k
  closest : ∀ {r k}, Nearest r m e → HasDigits r k → ¬HasDigits q (k - 1) →
    |q - absolute m e| ≤ |r - absolute m e|

/-- A magnitude that rounds to a number can be replaced by one that is not further from it, has
not more digits and starts where the number does. -/
theorem exists_in_order {order : ℤ} (bounds : Order m e order) {r : ℚ} (within : Within r m e)
    (hr : 0 < r) {d : ℕ} (digits : HasDigits r d) :
    ∃ k s : ℕ, d = k + 1 ∧ Within (s * 10 ^ (order - k)) m e ∧
      |s * 10 ^ (order - k) - absolute m e| ≤ |r - absolute m e| := by
  obtain ⟨s, h, few, rfl⟩ := digits
  have some : s ≠ 0 := by
    rintro rfl
    simp at hr
  obtain ⟨k, rfl⟩ : ∃ k, d = k + 1 := by
    refine Nat.exists_eq_succ_of_ne_zero ?_
    rintro rfl
    exact some (Nat.lt_one_iff.1 few)
  refine ⟨k, ?_⟩
  rcases le_or_gt ((10 : ℚ) ^ order) (s * 10 ^ h) with above | below
  · -- With so few digits the decimal is a multiple of the unit.
    have few : (s : ℚ) < 10 ^ (k + 1) := by exact_mod_cast few
    have lt := above.trans_lt (mul_lt_mul_of_pos_right few (ten_zpow_pos h))
    rw [← zpow_natCast, ← zpow_add₀ (by norm_num), zpow_lt_zpow_iff_right₀ (by norm_num)] at lt
    obtain ⟨n, eq⟩ := Int.le.dest (show order - k ≤ h by omega)
    have same : ((s * 10 ^ n : ℕ) : ℚ) * 10 ^ (order - k) = s * 10 ^ h := by
      rw [← eq, zpow_add₀ (by norm_num), zpow_natCast]
      push_cast
      ring
    exact ⟨s * 10 ^ n, rfl, by rwa [same], by rw [same]⟩
  · have power : ((10 ^ k : ℕ) : ℚ) * 10 ^ (order - k) = 10 ^ order := ten_pow_mul order k
    refine ⟨10 ^ k, rfl, ?_, ?_⟩
    · rw [power]
      exact within.of_le_of_le below.le bounds.1
    · rw [power, abs_of_nonpos (sub_nonpos.2 bounds.1),
        abs_of_nonpos (sub_nonpos.2 (below.le.trans bounds.1))]
      linarith

/-- The first decimal is the shortest one. -/
theorem FirstDecimal.shortest {order : ℤ} {k t : ℕ} (hm : isCanonical m e = true)
    (positive : 0 < m) (bounds : Order m e order) (first : FirstDecimal m e order k t) :
    Shortest (t * 10 ^ (order - k)) m e := by
  have few : HasDigits (t * 10 ^ (order - k)) (k + 1) := by
    rcases first.small.lt_or_eq with lt | rfl
    · exact ⟨t, _, lt, rfl⟩
    · refine ⟨1, order + 1, Nat.one_lt_pow k.succ_ne_zero (by decide), ?_⟩
      rw [pow_succ', Nat.cast_mul, mul_assoc, ten_pow_mul, zpow_add_one₀ (by norm_num)]
      push_cast
      ring
  have more {j d : ℕ} (le : j ≤ d) {q : ℚ} (digits : HasDigits q j) : HasDigits q d := by
    obtain ⟨t, g, lt, eq⟩ := digits
    exact ⟨t, g, lt.trans_le (Nat.pow_le_pow_right (by decide) le), eq⟩
  have replaced {r : ℚ} {d : ℕ} (near : Nearest r m e) (digits : HasDigits r d) :
      ∃ j s : ℕ, d = j + 1 ∧ Within (s * 10 ^ (order - j)) m e ∧
        |s * 10 ^ (order - j) - absolute m e| ≤ |r - absolute m e| := by
    have within := near.within hm positive
    exact exists_in_order bounds within ((lowEnd_pos positive e).trans_le within.low) digits
  refine ⟨first.within.nearest hm, fun near digits => ?_, fun near digits fewer => ?_⟩
  · obtain ⟨j, s, rfl, within, _⟩ := replaced near digits
    have le : k ≤ j := Nat.le_of_not_lt fun lt => first.first j lt s within
    exact more (Nat.succ_le_succ le) few
  · obtain ⟨j, s, rfl, within, le⟩ := replaced near digits
    have ge : k ≤ j := Nat.le_of_not_lt fun lt => first.first j lt s within
    rcases ge.eq_or_lt with rfl | lt
    · exact (first.closest s within).trans le
    · exact absurd (more (Nat.succ_le_of_lt lt) few) fewer

end Binary64

/-! ### Numerals -/

/-- The absolute value that a numeral writes. -/
def Numeral.absolute (n : Numeral) : ℚ :=
  (n.fraction.foldl (fun v d => 10 * v + d.val) n.whole : ℕ) *
    10 ^ (n.exponent.getD 0 - n.fraction.length)

namespace Binary64

theorem digitsValue_append (ds es : List Digit) :
    es.foldl (fun n d => 10 * n + d.val) (digitsValue ds) = digitsValue (ds ++ es) :=
  List.foldl_append.symm

theorem digitsValue_append_zeros (ds : List Digit) (k : ℕ) :
    digitsValue (ds ++ List.replicate k Numeral.zeroDigit) = digitsValue ds * 10 ^ k := by
  induction k with
  | zero => simp
  | succ k ih =>
    rw [List.replicate_succ', ← List.append_assoc, ← digitsValue_append, ih]
    show 10 * (digitsValue ds * 10 ^ k) + 0 = _
    ring

theorem digitsValue_zeros (k : ℕ) : digitsValue (List.replicate k Numeral.zeroDigit) = 0 := by
  simpa [digitsValue] using digitsValue_append_zeros [] k

theorem digit_digitChar_mod (n : ℕ) : Numeral.digit (Nat.digitChar (n % 10)) = Fin.ofNat 10 n := by
  have all : ∀ d < 10, Numeral.digit (Nat.digitChar d) = Fin.ofNat 10 d := by decide
  rw [all _ (Nat.mod_lt n (by decide))]
  ext
  simp

/-- A number is the value of its digits. -/
theorem digitsValue_digits (n : ℕ) : digitsValue (Numeral.digits n) = n := by
  induction n using Nat.strongRecOn with
  | _ n ih =>
    have last := digit_digitChar_mod n
    by_cases small : n < 10
    · rw [Nat.mod_eq_of_lt small] at last
      rw [Numeral.digits, Text.decimal, Nat.toDigits_of_lt_base small, List.map_singleton, last]
      simp [digitsValue, Nat.mod_eq_of_lt small]
    · have rest := ih (n / 10) (by omega)
      rw [Numeral.digits, Text.decimal] at rest ⊢
      rw [Nat.toDigits_of_base_le (by decide) (by omega), List.map_append, ← digitsValue_append,
        rest, List.map_singleton, last]
      simp only [List.foldl_cons, List.foldl_nil, Fin.ofNat]
      omega

/-- The digits of a number are the significant ones and zeros after them. -/
theorem digits_eq_significantDigits {n : ℕ} (positive : 0 < n) :
    ∃ k, Numeral.digits n = significantDigits n ++ List.replicate k Numeral.zeroDigit := by
  let isZero (d : Digit) : Bool := d == Numeral.zeroDigit
  have zeros := List.eq_replicate_of_mem fun d hd =>
    beq_iff_eq.1 (List.all_eq_true.1
      (List.all_takeWhile (p := isZero) (l := (Numeral.digits n).reverse)) d hd)
  have parts := List.takeWhile_append_dropWhile (p := isZero) (l := (Numeral.digits n).reverse)
  rw [zeros] at parts
  have split := congrArg List.reverse parts
  rw [List.reverse_append, List.reverse_replicate, List.reverse_reverse] at split
  rw [significantDigits]
  split
  · rename_i none
    rw [none, List.nil_append] at split
    have value := digitsValue_digits n
    rw [← split, digitsValue_zeros] at value
    exact absurd value positive.ne
  · exact ⟨_, split.symm⟩

theorem significantDigits_ne_nil (n : ℕ) : significantDigits n ≠ [] := by
  rw [significantDigits]
  split
  · exact List.cons_ne_nil _ _
  · assumption

theorem absolute_mk (negative : Bool) (ds fraction : List Digit) (exponent : Option ℤ) :
    Numeral.absolute ⟨negative, digitsValue ds, fraction, exponent⟩ =
      digitsValue (ds ++ fraction) * 10 ^ (exponent.getD 0 - fraction.length) := by
  rw [Numeral.absolute, digitsValue_append]

/-- Wherever the point stands, digits are laid out as the same value. -/
theorem absolute_layOut (negative : Bool) {ds : List Digit} (nonempty : ds ≠ []) (point : ℤ) :
    (layOut negative ds point).absolute = digitsValue ds * 10 ^ (point - ds.length) := by
  have length : 0 < ds.length := List.length_pos_iff.2 nonempty
  rw [layOut]
  split
  · -- With an exponent the point stands after the first digit.
    have power : point - 1 - (ds.drop 1).length = point - ds.length := by
      rw [List.length_drop]
      omega
    rw [absolute_mk, List.take_append_drop, Option.getD_some, power]
  split
  · -- Zeros fill the room between the point and the first digit.
    rename_i below
    have power : (0 : ℤ) - (List.replicate (-point).toNat Numeral.zeroDigit ++ ds).length =
        point - ds.length := by
      rw [List.length_append, List.length_replicate]
      omega
    have value : digitsValue (List.replicate (-point).toNat Numeral.zeroDigit ++ ds) =
        digitsValue ds := by
      rw [← digitsValue_append, digitsValue_zeros, digitsValue]
    have whole := absolute_mk negative [] (List.replicate (-point).toNat Numeral.zeroDigit ++ ds)
      none
    rw [List.nil_append, Option.getD_none, power, value] at whole
    exact whole
  · rename_i above
    dsimp only
    have value := digitsValue_append_zeros ds (point.toNat - ds.length)
    have size : (ds ++ List.replicate (point.toNat - ds.length) Numeral.zeroDigit).length =
        max ds.length point.toNat := by
      rw [List.length_append, List.length_replicate]
      omega
    generalize ds ++ List.replicate (point.toNat - ds.length) Numeral.zeroDigit = padded at *
    rw [absolute_mk, Option.getD_none]
    split
    · -- All digits stand before the point, and a zero after it.
      rename_i none
      have short := List.drop_eq_nil_iff.1 (List.isEmpty_iff.1 none)
      have tail := digitsValue_append_zeros padded 1
      rw [List.replicate_one, value] at tail
      rw [List.take_of_length_le short, tail, List.length_singleton]
      have power : point - ds.length = (point.toNat - ds.length : ℕ) := by omega
      rw [power, zpow_natCast]
      push_cast
      rw [mul_assoc, ← zpow_one_add₀ (by norm_num), add_neg_cancel, zpow_zero, mul_one]
    · rename_i some
      have long : point.toNat < padded.length := by
        refine Nat.lt_of_not_le fun short => some ?_
        rw [List.drop_eq_nil_iff.2 short]
        rfl
      have zeros : point.toNat - ds.length = 0 := by omega
      have power : (0 : ℤ) - (padded.drop point.toNat).length = point - ds.length := by
        rw [List.length_drop]
        omega
      rw [List.take_append_drop, value, zeros, power, pow_zero, mul_one]

/-- The digits of a decimal are laid out as its value. -/
theorem absolute_layOut_significantDigits (negative : Bool) {t : ℕ} (positive : 0 < t) (g : ℤ) :
    (layOut negative (significantDigits t) ((Text.decimal t).length + g)).absolute =
      t * 10 ^ g := by
  obtain ⟨k, split⟩ := digits_eq_significantDigits positive
  have value := digitsValue_digits t
  have length : (Text.decimal t).length = (Numeral.digits t).length := (List.length_map _).symm
  rw [split, digitsValue_append_zeros] at value
  rw [split, List.length_append, List.length_replicate] at length
  rw [absolute_layOut negative (significantDigits_ne_nil t), length]
  have power : ((significantDigits t).length + k : ℕ) + g - (significantDigits t).length =
      (k : ℤ) + g := by
    push_cast
    ring
  rw [power, zpow_add₀ (by norm_num), zpow_natCast, ← mul_assoc, ← Nat.cast_ofNat, ← Nat.cast_pow,
    ← Nat.cast_mul, value]

theorem negative_layOut (negative : Bool) (ds : List Digit) (point : ℤ) :
    (layOut negative ds point).negative = negative := by
  rw [layOut]
  split
  · rfl
  · split <;> rfl

theorem negative_numeral (negative : Bool) (m : ℕ) (e : ℤ) :
    (numeral negative m e).negative = negative := by
  rw [numeral]
  split
  · rfl
  · exact negative_layOut negative _ _

/-- Zero is the shortest decimal of itself. -/
theorem shortest_zero : Shortest 0 0 e := by
  have zero : absolute 0 e = 0 := by rw [absolute, Nat.cast_zero, zero_mul]
  refine ⟨fun n f _ ne => .inl ?_, fun {_ k} _ _ => ?_, fun _ _ _ => ?_⟩
  · rw [zero, sub_zero, abs_zero]
    exact abs_pos.2 (sub_ne_zero.2 (zero ▸ ne.symm))
  · exact ⟨0, 0, Nat.pow_pos (by decide), by rw [Nat.cast_zero, zero_mul]⟩
  · rw [zero, sub_zero, abs_zero]
    exact abs_nonneg _

/-- The numeral of a finite number is its shortest decimal. -/
theorem shortest_numeral (negative : Bool) (hm : isCanonical m e = true) :
    Shortest (numeral negative m e).absolute m e := by
  rcases Nat.eq_zero_or_pos m with rfl | positive
  · have zero : (numeral negative 0 e).absolute = 0 := by
      rw [numeral, if_pos rfl, Numeral.absolute]
      simp [Numeral.zeroDigit]
    rw [zero]
    exact shortest_zero
  · obtain ⟨order, k, bounds, power, first⟩ := shortest_spec hm positive
    have some : 0 < (shortest m e).1 := by
      refine Nat.pos_of_ne_zero fun none => ?_
      have within := first.within.low
      rw [none, Nat.cast_zero, zero_mul] at within
      exact absurd (lowEnd_pos positive e) (not_lt.2 within)
    rw [numeral, if_neg positive.ne']
    dsimp only
    rw [absolute_layOut_significantDigits negative some, power]
    exact first.shortest hm positive bounds

/-- A numeral writes a finite number: with its sign, the shortest decimal of it. -/
def IsShortest : Binary64 → Numeral → Prop
  | .finite negative m e .., n => n.negative = negative ∧ Shortest n.absolute m e
  | _, _ => False

theorem isShortest_numeral (negative : Bool) (hm : isCanonical m e = true)
    (range : e ≤ maxExponent) :
    IsShortest (.finite negative m e hm range) (numeral negative m e) :=
  ⟨negative_numeral negative m e, shortest_numeral negative hm⟩

end Binary64

end ChartTree
