import ChartTree.Json.Reader
import ChartTree.Json.Script
import ChartTree.Json.Writer

/-!
# Reading written tokens

The numerals and strings that a JSON text is made of are read back from it. Numerals are read back
digit by digit up to where the next token starts, strings unit by unit, also after characters that
stand in strings only have been replaced by their escapes.
-/

namespace ChartTree

/-! ### Digits -/

namespace Text

theorem readHexFrom?_append (n : Nat) (cs ds : List Char) :
    readHexFrom? n (cs ++ ds) = (readHexFrom? n cs).bind fun m => readHexFrom? m ds := by
  induction cs generalizing n with
  | nil => rfl
  | cons c cs ih =>
    rw [List.cons_append, readHexFrom?, readHexFrom?]
    cases hexDigit? c with
    | none => rfl
    | some d => exact ih (16 * n + d)

theorem hexDigit?_digitChar {d : Nat} (h : d < 16) : hexDigit? (Nat.digitChar d) = some d := by
  have all : ∀ d, d < 16 → hexDigit? (Nat.digitChar d) = some d := by decide
  exact all d h

theorem readHexFrom?_toDigits (n : Nat) : readHexFrom? 0 (Nat.toDigits 16 n) = some n := by
  induction n using Nat.strongRecOn with
  | _ n ih =>
    by_cases small : n < 16
    · rw [Nat.toDigits_of_lt_base small, readHexFrom?, hexDigit?_digitChar small]
      simp [readHexFrom?]
    · have last : n % 16 < 16 := Nat.mod_lt n (by omega)
      rw [Nat.toDigits_of_base_le (by omega) (by omega), readHexFrom?_append,
        ih (n / 16) (by omega), Option.bind_some, readHexFrom?, hexDigit?_digitChar last]
      have whole : 16 * (n / 16) + n % 16 = n := by omega
      simp [readHexFrom?, whole]

/-- A unit is read back from its four hexadecimal digits. -/
theorem readHex?_hexFilled {n : Nat} (h : n < 0x10000) :
    ∃ a b c d, hexFilled 4 n = [a, b, c, d] ∧ readHex? [a, b, c, d] = some n := by
  have short : (Nat.toDigits 16 n).length ≤ 4 :=
    (Nat.length_toDigits_le_iff (by omega) (by omega)).2 h
  have length : (hexFilled 4 n).length = 4 := by
    simp only [hexFilled, zeroFilled, List.length_append, List.length_replicate]
    omega
  have zeros : ∀ k, readHexFrom? 0 (List.replicate k '0') = some 0 := by
    intro k
    induction k with
    | zero => rfl
    | succ k ih => exact ih
  have read : readHexFrom? 0 (hexFilled 4 n) = some n := by
    rw [hexFilled, zeroFilled, readHexFrom?_append, zeros, Option.bind_some, readHexFrom?_toDigits]
  match hexFilled 4 n, length, read with
  | [a, b, c, d], _, read => exact ⟨a, b, c, d, rfl, read⟩

theorem hexDigit?_of_mem {n m : Nat} {cs : List Char} (read : readHexFrom? n cs = some m) :
    ∀ c ∈ cs, hexDigit? c ≠ none := by
  induction cs generalizing n with
  | nil => exact fun c hc => (List.not_mem_nil hc).elim
  | cons c cs ih =>
    rw [readHexFrom?] at read
    obtain ⟨d, digit, rest⟩ := Option.bind_eq_some_iff.1 read
    exact List.forall_mem_cons.2 ⟨fun none => (nomatch none.symm.trans digit), ih rest⟩

theorem ne_of_isDigit {c d : Char} (digit : c.isDigit = true) (other : d.isDigit = false) :
    c ≠ d := by
  rintro rfl
  rw [other] at digit
  cases digit

/-! ### Units -/

theorem toNat_valid (c : Char) : c.toNat < 0xd800 ∨ 0xdfff < c.toNat ∧ c.toNat < 0x110000 :=
  c.valid

theorem toNat_ofNat_of_lt {u : Nat} (small : u < 0xd800) : (Char.ofNat u).toNat = u := by
  have valid : u.isValidChar := .inl small
  rw [Char.ofNat, dif_pos valid]
  rfl

theorem units_lt (c : Char) : ∀ u ∈ units c, u < 0x10000 := by
  have valid := toNat_valid c
  intro u hu
  rw [units] at hu
  split at hu
  · cases List.mem_singleton.1 hu
    assumption
  · simp only [List.mem_cons, List.not_mem_nil, or_false] at hu
    omega

/-- The units of a character are joined to that character. -/
theorem joinUnits_units (c : Char) (us : List Nat) :
    joinUnits (units c ++ us) = (joinUnits us).map (c :: ·) := by
  have valid := toNat_valid c
  rw [units]
  split
  · have high : isHighSurrogate c.toNat = false := by
      simp only [isHighSurrogate, Bool.and_eq_false_iff, decide_eq_false_iff_not]
      omega
    have low : isLowSurrogate c.toNat = false := by
      simp only [isLowSurrogate, Bool.and_eq_false_iff, decide_eq_false_iff_not]
      omega
    rw [List.singleton_append, joinUnits.eq_def]
    simp [high, low, Char.ofNat_toNat]
  · -- The pair of surrogates holds the twenty bits above U+FFFF.
    have high : isHighSurrogate (0xd800 + (c.toNat - 0x10000) / 0x400) = true := by
      simp only [isHighSurrogate, Bool.and_eq_true, decide_eq_true_eq]
      omega
    have low : isLowSurrogate (0xdc00 + (c.toNat - 0x10000) % 0x400) = true := by
      simp only [isLowSurrogate, Bool.and_eq_true, decide_eq_true_eq]
      omega
    have pair : ofPair (0xd800 + (c.toNat - 0x10000) / 0x400)
        (0xdc00 + (c.toNat - 0x10000) % 0x400) = c := by
      have whole : 0x10000 + (0xd800 + (c.toNat - 0x10000) / 0x400 - 0xd800) * 0x400 +
          (0xdc00 + (c.toNat - 0x10000) % 0x400 - 0xdc00) = c.toNat := by omega
      rw [ofPair, whole, Char.ofNat_toNat]
    simp [joinUnits, high, low, pair]

theorem joinUnits_flatMap_units (cs : List Char) : joinUnits (cs.flatMap units) = some cs := by
  induction cs with
  | nil => rfl
  | cons c cs ih => rw [List.flatMap_cons, joinUnits_units, ih, Option.map_some]

/-! ### Decimal digits -/

theorem isDigit_of_mem_decimalFilled {width n : Nat} {c : Char} (h : c ∈ decimalFilled width n) :
    c.isDigit = true := by
  rcases List.mem_append.1 h with zero | digit
  · rw [List.eq_of_mem_replicate zero]
    rfl
  · exact isDigit_of_mem_decimal digit

theorem readDecimal?_decimalFilled (width n : Nat) :
    readDecimal? (decimalFilled width n) = some n := by
  have nonempty : (decimalFilled width n).isEmpty = false := by
    simp [decimalFilled, zeroFilled, decimal_ne_nil]
  have digits : (decimalFilled width n).all Char.isDigit = true :=
    List.all_eq_true.2 fun _ h => isDigit_of_mem_decimalFilled h
  have value : Nat.ofDigitChars 10 (decimalFilled width n) 0 = n := by
    rw [decimalFilled, zeroFilled, Nat.ofDigitChars_append, Nat.ofDigitChars_replicate_zero,
      Nat.mul_zero, decimal, Nat.ofDigitChars_toDigits (by decide) (by decide)]
  rw [readDecimal?, nonempty, digits, value]
  rfl

/-- Only the numeral of zero starts with a zero. -/
theorem decimal_starts {n : Nat} (positive : 0 < n) :
    ∃ c cs, decimal n = c :: cs ∧ c.isDigit = true ∧ c ≠ '0' := by
  induction n using Nat.strongRecOn with
  | _ n ih =>
    by_cases small : n < 10
    · have all : ∀ d, d < 10 → 0 < d →
          (Nat.digitChar d).isDigit = true ∧ Nat.digitChar d ≠ '0' := by decide
      exact ⟨_, [], Nat.toDigits_of_lt_base small, all n small positive⟩
    · obtain ⟨c, cs, eq, first⟩ := ih (n / 10) (by omega) (by omega)
      refine ⟨c, cs ++ [Nat.digitChar (n % 10)], ?_, first⟩
      rw [decimal] at eq ⊢
      rw [Nat.toDigits_of_base_le (by omega) (by omega), eq]
      rfl

end Text

namespace Numeral

/-- What may follow a numeral: a text that does not go on with it. -/
def Stops (rest : List Char) : Prop :=
  ∀ c ∈ rest.head?, c.isDigit = false ∧ c ∉ ['.', 'e', 'E']

theorem stops_nil : Stops [] :=
  fun _ none => nomatch none

theorem stops_cons {c : Char} (digit : c.isDigit = false) (other : c ∉ ['.', 'e', 'E'])
    (rest : List Char) : Stops (c :: rest) := by
  intro d first
  cases first
  exact ⟨digit, other⟩

/-- A run of digits is told from what follows it. -/
theorem span_digits {ds rest : List Char} (digits : ∀ c ∈ ds, c.isDigit = true)
    (stop : ∀ c ∈ rest.head?, c.isDigit = false) :
    (ds ++ rest).takeWhile Char.isDigit = ds ∧ (ds ++ rest).dropWhile Char.isDigit = rest := by
  rw [List.takeWhile_append_of_pos digits, List.dropWhile_append_of_pos digits]
  cases rest with
  | nil => simp
  | cons c rest =>
    have other := stop c rfl
    simp [other]

theorem readWhole_decimal (n : Nat) {rest : List Char}
    (stop : ∀ c ∈ rest.head?, c.isDigit = false) :
    readWhole (Text.decimal n ++ rest) = some (n, rest) := by
  rcases Nat.eq_zero_or_pos n with rfl | positive
  · rfl
  · obtain ⟨c, cs, eq, _, other⟩ := Text.decimal_starts positive
    have whole : readWhole (Text.decimal n ++ rest) =
        (Text.readDecimal? ((Text.decimal n ++ rest).takeWhile Char.isDigit)).map
          (·, (Text.decimal n ++ rest).dropWhile Char.isDigit) := by
      rw [eq, List.cons_append, readWhole.eq_2 _ fun _ zero => other (List.cons.inj zero).1]
    obtain ⟨taken, left⟩ := span_digits (fun c => Text.isDigit_of_mem_decimal (n := n)) stop
    rw [whole, taken, left, Text.readDecimal?_decimal]
    rfl

theorem isDigit_digitChar (d : Digit) : (digitChar d).isDigit = true := by
  revert d
  decide

theorem digit_digitChar (d : Digit) : digit (digitChar d) = d := by
  revert d
  decide

theorem readFraction_text (ds : List Digit) {rest : List Char}
    (stop : ∀ c ∈ rest.head?, c.isDigit = false ∧ c ≠ '.') :
    readFraction (fractionText ds ++ rest) = (ds, rest) := by
  cases ds with
  | nil =>
    show readFraction rest = ([], rest)
    rw [readFraction.eq_2]
    intro rest' point
    exact (stop '.' (by rw [point]; rfl)).2 rfl
  | cons d ds =>
    have digits : ∀ c ∈ (d :: ds).map digitChar, c.isDigit = true := by
      intro c hc
      obtain ⟨d, _, rfl⟩ := List.mem_map.1 hc
      exact isDigit_digitChar d
    obtain ⟨taken, left⟩ := span_digits digits fun c hc => (stop c hc).1
    have back : ((d :: ds).map digitChar).map digit = d :: ds := by
      rw [List.map_map]
      exact List.map_id'' digit_digitChar _
    show readFraction ('.' :: ((d :: ds).map digitChar ++ rest)) = _
    rw [readFraction, taken, left]
    exact congrArg (·, rest) back

theorem readExponent_text (exponent : Option Int) {rest : List Char} (stop : Stops rest) :
    readExponent (exponentText exponent ++ rest) = (exponent, rest) := by
  cases exponent with
  | none =>
    show readExponent rest = (none, rest)
    cases rest with
    | nil => rfl
    | cons c rest =>
      obtain ⟨_, other⟩ := stop c rfl
      simp only [List.mem_cons, List.not_mem_nil, or_false, not_or] at other
      simp [readExponent, other]
  | some e =>
    have read (negative : Bool) :
        readExponentDigits negative (Text.decimalFilled 2 e.natAbs ++ rest) =
          some (if negative then -(e.natAbs : Int) else e.natAbs, rest) := by
      have digits : ∀ c ∈ Text.decimalFilled 2 e.natAbs, c.isDigit = true :=
        fun c => Text.isDigit_of_mem_decimalFilled
      obtain ⟨taken, left⟩ := span_digits digits fun c hc => (stop c hc).1
      rw [readExponentDigits, taken, left, Text.readDecimal?_decimalFilled]
      rfl
    by_cases negative : e < 0
    · have value : -(e.natAbs : Int) = e := by omega
      simp only [exponentText, negative, if_true, List.cons_append, readExponent, decide_true,
        Bool.true_or, readSignedExponent, read, value]
    · have value : (e.natAbs : Int) = e := by omega
      simp [exponentText, negative, readExponent, readSignedExponent, read, value]

/-- A numeral is read back up to where it stops. -/
theorem read_text (n : Numeral) {rest : List Char} (stop : Stops rest) :
    Numeral.read (n.text ++ rest) = some (n, rest) := by
  have exponent := readExponent_text n.exponent stop
  have afterFraction : ∀ c ∈ (exponentText n.exponent ++ rest).head?,
      c.isDigit = false ∧ c ≠ '.' := by
    cases n.exponent with
    | none =>
      intro c hc
      obtain ⟨digit, other⟩ := stop c hc
      exact ⟨digit, fun point => other (by rw [point]; decide)⟩
    | some e =>
      intro c hc
      cases hc
      decide
  have fraction := readFraction_text n.fraction afterFraction
  have afterWhole : ∀ c ∈ (fractionText n.fraction ++ (exponentText n.exponent ++ rest)).head?,
      c.isDigit = false := by
    cases n.fraction with
    | nil => exact fun c hc => (afterFraction c hc).1
    | cons d ds =>
      intro c hc
      cases hc
      rfl
  have unsigned (negative : Bool) : readUnsigned negative (Text.decimal n.whole ++
      (fractionText n.fraction ++ (exponentText n.exponent ++ rest))) =
        some (⟨negative, n.whole, n.fraction, n.exponent⟩, rest) := by
    rw [readUnsigned, readWhole_decimal n.whole afterWhole]
    simp only [Option.map_some, fraction, exponent]
  obtain ⟨negative, whole, ds, e⟩ := n
  simp only [text, List.append_assoc]
  cases negative with
  | true => exact unsigned true
  | false =>
    have unsigned := unsigned false
    obtain ⟨c, cs, eq⟩ := List.exists_cons_of_ne_nil (Text.decimal_ne_nil whole)
    have first : c ∈ Text.decimal whole := eq ▸ List.mem_cons_self
    have digit : c.isDigit = true := Text.isDigit_of_mem_decimal first
    show Numeral.read (Text.decimal whole ++ _) = _
    rw [eq, List.cons_append] at unsigned ⊢
    rw [Numeral.read.eq_2 _ fun _ minus => absurd digit (by rw [(List.cons.inj minus).1]; decide)]
    exact unsigned

/-- The text of a numeral starts with a digit, maybe behind a minus sign, and is made of digits,
signs, a point and a letter. -/
theorem text_starts (n : Numeral) : ∃ c cs, c.isDigit = true ∧
    (n.text = c :: cs ∨ n.text = '-' :: c :: cs) := by
  obtain ⟨c, cs, eq⟩ := List.exists_cons_of_ne_nil (Text.decimal_ne_nil n.whole)
  have digit : c.isDigit = true :=
    Text.isDigit_of_mem_decimal (n := n.whole) (eq ▸ List.mem_cons_self)
  refine ⟨c, cs ++ (fractionText n.fraction ++ exponentText n.exponent), digit, ?_⟩
  rw [text, eq]
  cases n.negative with
  | true => exact .inr rfl
  | false => exact .inl rfl

theorem mem_text {n : Numeral} {c : Char} (h : c ∈ n.text) :
    c.isDigit = true ∨ c ∈ ['-', '+', '.', 'e'] := by
  rw [text, List.mem_append, List.mem_append, List.mem_append] at h
  rcases h with sign | whole | fraction | exponent
  · split at sign
    · exact .inr (List.mem_of_mem_take (i := 1) sign)
    · exact (List.not_mem_nil sign).elim
  · exact .inl (Text.isDigit_of_mem_decimal whole)
  · cases ds : n.fraction with
    | nil => rw [ds] at fraction; exact (List.not_mem_nil fraction).elim
    | cons d ds' =>
      rw [ds] at fraction
      rcases List.mem_cons.1 fraction with rfl | digit
      · exact .inr (by decide)
      · obtain ⟨d, _, rfl⟩ := List.mem_map.1 digit
        exact .inl (isDigit_digitChar d)
  · cases e : n.exponent with
    | none => rw [e] at exponent; exact (List.not_mem_nil exponent).elim
    | some e' =>
      rw [e] at exponent
      rcases List.mem_cons.1 exponent with rfl | signed
      · exact .inr (by decide)
      rcases List.mem_cons.1 signed with rfl | digit
      · refine .inr ?_
        split <;> decide
      · exact .inl (Text.isDigit_of_mem_decimalFilled digit)

end Numeral

namespace Json

/-! ### Strings -/

/-- A way to spell the characters of a JSON text: three that stand in strings only may be replaced
by their escapes, and all others stay. -/
structure Spelling (spell : Char → List Char) : Prop where
  plain : ∀ c, c ∉ ['<', '>', '&'] → spell c = [c]
  marked : ∀ c, spell c = [c] ∨ ∃ a b d e, spell c = ['\\', 'u', a, b, d, e] ∧
    Text.readHex? [a, b, d, e] = some c.toNat

theorem spelling_plain : Spelling fun c => [c] where
  plain _ _ := rfl
  marked _ := .inl rfl

theorem spelling_script : Spelling scriptChar where
  plain c other := by
    simp only [List.mem_cons, List.not_mem_nil, or_false, not_or] at other
    obtain ⟨less, greater, and⟩ := other
    rw [scriptChar, if_neg less, if_neg greater, if_neg and]
  marked c := by
    by_cases less : c = '<'
    · subst less
      exact .inr ⟨'0', '0', '3', 'C', rfl, by decide⟩
    by_cases greater : c = '>'
    · subst greater
      exact .inr ⟨'0', '0', '3', 'E', rfl, by decide⟩
    by_cases and : c = '&'
    · subst and
      exact .inr ⟨'0', '0', '2', '6', rfl, by decide⟩
    rw [scriptChar, if_neg less, if_neg greater, if_neg and]
    exact .inl rfl

theorem readUnits_coded {a b c d : Char} {u : Nat} (read : Text.readHex? [a, b, c, d] = some u)
    (rest : List Char) : readUnits ('\\' :: 'u' :: a :: b :: c :: d :: rest) =
      (readUnits rest).map fun (us, rest) => (u :: us, rest) := by
  rw [readUnits.eq_2, read]
  cases readUnits rest <;> rfl

section Spelled

variable {spell : Char → List Char} (spelling : Spelling spell)

include spelling

/-- A text without the three characters is spelled as it is. -/
theorem Spelling.keeps (cs : List Char) (other : ∀ c ∈ cs, c ∉ ['<', '>', '&']) :
    cs.flatMap spell = cs := by
  induction cs with
  | nil => rfl
  | cons c cs ih =>
    obtain ⟨first, rest⟩ := List.forall_mem_cons.1 other
    rw [List.flatMap_cons, spelling.plain c first, ih rest]
    rfl

theorem Spelling.cons {c : Char} (other : c ∉ ['<', '>', '&']) (cs : List Char) :
    (c :: cs).flatMap spell = c :: cs.flatMap spell := by
  rw [List.flatMap_cons, spelling.plain c other]
  rfl

theorem readUnits_escaped {c : Char} (other : c ∉ ['<', '>', '&']) (letter : c ≠ 'u') {u : Nat}
    (unit : escapeUnit? c = some u) (rest : List Char) :
    readUnits (['\\', c].flatMap spell ++ rest) =
      (readUnits rest).map fun (us, rest) => (u :: us, rest) := by
  have spelled : ['\\', c].flatMap spell = ['\\', c] := by
    rw [spelling.cons (by decide), spelling.cons other]
    rfl
  rw [spelled]
  show readUnits ('\\' :: c :: rest) = _
  rw [readUnits.eq_3 c rest fun _ _ _ _ _ eq _ => letter eq, unit]
  cases readUnits rest <;> rfl

/-- A unit of a string is read back, however its character is spelled. -/
theorem readUnits_spelled {u : Nat} (small : u < 0x10000) (rest : List Char) :
    readUnits ((escapedUnit u).flatMap spell ++ rest) =
      (readUnits rest).map fun (us, rest) => (u :: us, rest) := by
  have short {c : Char} (other : c ∉ ['<', '>', '&']) (letter : c ≠ 'u')
      (unit : escapeUnit? c = some u) := readUnits_escaped spelling other letter unit rest
  rw [escapedUnit]
  split
  · rename_i eq
    exact short (c := '\x22') (by decide) (by decide) (eq ▸ rfl)
  split
  · rename_i eq
    exact short (c := '\\') (by decide) (by decide) (eq ▸ rfl)
  split
  · rename_i eq
    exact short (c := 'n') (by decide) (by decide) (eq ▸ rfl)
  split
  · rename_i eq
    exact short (c := 'r') (by decide) (by decide) (eq ▸ rfl)
  split
  · rename_i eq
    exact short (c := 't') (by decide) (by decide) (eq ▸ rfl)
  split
  · rename_i eq
    exact short (c := 'b') (by decide) (by decide) (eq ▸ rfl)
  split
  · rename_i eq
    exact short (c := 'f') (by decide) (by decide) (eq ▸ rfl)
  split
  · rename_i quote backslash _ _ _ _ _ graphic
    simp only [Bool.and_eq_true, decide_eq_true_eq] at graphic
    have unit : (Char.ofNat u).toNat = u := Text.toNat_ofNat_of_lt (by omega)
    rcases spelling.marked (Char.ofNat u) with same | ⟨a, b, c, d, coded, read⟩
    · rw [List.flatMap_cons, List.flatMap_nil, List.append_nil, same, List.singleton_append]
      have not_quote : Char.ofNat u ≠ '\x22' := fun eq => quote (by rw [← unit, eq]; rfl)
      have not_backslash : Char.ofNat u ≠ '\\' := fun eq => backslash (by rw [← unit, eq]; rfl)
      have readable : (decide (Char.ofNat u = '\\') || decide ((Char.ofNat u).toNat < 0x20)) =
          false := by
        rw [Bool.or_eq_false_iff, decide_eq_false_iff_not, decide_eq_false_iff_not, unit]
        exact ⟨not_backslash, by omega⟩
      rw [readUnits.eq_4 _ _ (fun _ _ _ _ _ eq _ => not_backslash eq)
        fun _ _ eq _ => not_backslash eq, if_neg not_quote, readable, unit]
      rfl
    · rw [List.flatMap_cons, List.flatMap_nil, List.append_nil, coded]
      rw [unit] at read
      exact readUnits_coded read rest
  · obtain ⟨a, b, c, d, digits, read⟩ := Text.readHex?_hexFilled small
    have hex : ∀ x, Text.hexDigit? x ≠ none → x ∉ ['<', '>', '&'] := by
      intro x digit mem
      simp only [List.mem_cons, List.not_mem_nil, or_false] at mem
      rcases mem with rfl | rfl | rfl <;> exact digit (by decide)
    have among : ∀ x ∈ [a, b, c, d], Text.hexDigit? x ≠ none := Text.hexDigit?_of_mem read
    have plain : ∀ x ∈ ['\\', 'u', a, b, c, d], x ∉ ['<', '>', '&'] :=
      List.forall_mem_cons.2 ⟨by decide, List.forall_mem_cons.2 ⟨by decide, fun x hx =>
        hex x (among x hx)⟩⟩
    rw [digits, spelling.keeps _ plain]
    exact readUnits_coded read rest

/-- A written string is read back from behind its opening quote. -/
theorem readString_spelled (s : String) (rest : List Char) :
    readString ((s.toList.flatMap escapedChar).flatMap spell ++ '\x22' :: rest) =
      some (s, rest) := by
  have read : ∀ us : List Nat, (∀ u ∈ us, u < 0x10000) →
      readUnits ((us.flatMap escapedUnit).flatMap spell ++ '\x22' :: rest) = some (us, rest) := by
    intro us small
    induction us with
    | nil =>
      show readUnits ('\x22' :: rest) = _
      rw [readUnits.eq_4 _ _ (fun _ _ _ _ _ eq _ => absurd eq (by decide))
        fun _ _ eq _ => absurd eq (by decide), if_pos rfl]
    | cons u us ih =>
      obtain ⟨first, others⟩ := List.forall_mem_cons.1 small
      rw [List.flatMap_cons, List.flatMap_append, List.append_assoc,
        readUnits_spelled spelling first, ih others]
      rfl
  have units : s.toList.flatMap escapedChar =
      (s.toList.flatMap Text.units).flatMap escapedUnit := by
    rw [List.flatMap_assoc]
    rfl
  have small : ∀ u ∈ s.toList.flatMap Text.units, u < 0x10000 := by
    intro u hu
    obtain ⟨c, _, hc⟩ := List.mem_flatMap.1 hu
    exact Text.units_lt c u hc
  rw [readString, units, read _ small]
  simp [Text.joinUnits_flatMap_units]

end Spelled

end Json

end ChartTree
