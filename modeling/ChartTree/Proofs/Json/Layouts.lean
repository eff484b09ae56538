import ChartTree.Proofs.Json.RoundTrip

/-!
# Layouts of written JSON

The text of a value is in ASCII, and its texts in two layouts are the same apart from blanks that
stand outside of strings. What a layout adds to the text of a value depends on nothing else, so a
value has one dense text that is found in all of its texts.
-/

namespace ChartTree

/-! ### ASCII -/

def Text.IsAscii (cs : List Char) : Prop :=
  ∀ c ∈ cs, c.toNat < 128

namespace Text

theorem isAscii_nil : IsAscii [] :=
  fun _ mem => (List.not_mem_nil mem).elim

theorem IsAscii.cons {c : Char} {cs : List Char} (first : c.toNat < 128) (rest : IsAscii cs) :
    IsAscii (c :: cs) :=
  List.forall_mem_cons.2 ⟨first, rest⟩

theorem IsAscii.append {cs ds : List Char} (left : IsAscii cs) (right : IsAscii ds) :
    IsAscii (cs ++ ds) := by
  intro c hc
  rcases List.mem_append.1 hc with mem | mem
  · exact left c mem
  · exact right c mem

theorem ascii_of_isDigit {c : Char} (digit : c.isDigit = true) : c.toNat < 128 := by
  simp only [Char.isDigit, Bool.and_eq_true, decide_eq_true_eq, UInt32.le_iff_toNat_le] at digit
  have upper : c.toNat ≤ 57 := digit.2
  omega

theorem ascii_of_hexDigit? {c : Char} (digit : hexDigit? c ≠ none) : c.toNat < 128 := by
  rw [hexDigit?] at digit
  split at digit
  · rename_i decimal
    exact ascii_of_isDigit decimal
  split at digit
  · rename_i lower
    have upper : c.toNat ≤ 'f'.toNat := lower.2
    have value : 'f'.toNat = 102 := rfl
    omega
  split at digit
  · rename_i capital
    have upper : c.toNat ≤ 'F'.toNat := capital.2
    have value : 'F'.toNat = 70 := rfl
    omega
  · exact absurd rfl digit

theorem isAscii_hexFilled {n : Nat} (small : n < 0x10000) : IsAscii (hexFilled 4 n) := by
  obtain ⟨a, b, c, d, digits, read⟩ := readHex?_hexFilled small
  have hex : ∀ x ∈ [a, b, c, d], hexDigit? x ≠ none := hexDigit?_of_mem read
  intro x hx
  rw [digits] at hx
  exact ascii_of_hexDigit? (hex x hx)

end Text

theorem Numeral.isAscii_text (n : Numeral) : Text.IsAscii n.text := by
  intro c hc
  rcases mem_text hc with digit | sign
  · exact Text.ascii_of_isDigit digit
  · simp only [List.mem_cons, List.not_mem_nil, or_false] at sign
    rcases sign with rfl | rfl | rfl | rfl <;> decide

namespace Json

open Text (IsAscii isAscii_nil)

theorem isAscii_escapedUnit {u : Nat} (small : u < 0x10000) : IsAscii (escapedUnit u) := by
  have pair {c : Char} (ascii : c.toNat < 128) : IsAscii ['\\', c] :=
    .cons (by decide) (.cons ascii isAscii_nil)
  rw [escapedUnit]
  split
  · exact pair (by decide)
  split
  · exact pair (by decide)
  split
  · exact pair (by decide)
  split
  · exact pair (by decide)
  split
  · exact pair (by decide)
  split
  · exact pair (by decide)
  split
  · exact pair (by decide)
  split
  · rename_i graphic
    simp only [Bool.and_eq_true, decide_eq_true_eq] at graphic
    have unit : (Char.ofNat u).toNat = u := Text.toNat_ofNat_of_lt (by omega)
    exact .cons (by omega) isAscii_nil
  · exact .cons (by decide) (.cons (by decide) (Text.isAscii_hexFilled small))

theorem isAscii_writeString (s : String) : IsAscii (writeString s) := by
  have body : IsAscii (s.toList.flatMap escapedChar) := by
    intro c hc
    obtain ⟨d, _, inChar⟩ := List.mem_flatMap.1 hc
    obtain ⟨u, unit, inUnit⟩ := List.mem_flatMap.1 inChar
    exact isAscii_escapedUnit (Text.units_lt d u unit) c inUnit
  exact .cons (by decide) (body.append (.cons (by decide) isAscii_nil))

theorem isAscii_blank {blank : List Char} (spaces : ∀ c ∈ blank, isSpace c = true) :
    IsAscii blank := by
  intro c hc
  have space := spaces c hc
  simp only [isSpace, Bool.or_eq_true, decide_eq_true_eq] at space
  rcases space with ((rfl | rfl) | rfl) | rfl <;> decide

theorem isAscii_gap (l : Layout) (depth : Nat) : IsAscii (l.gap depth) :=
  isAscii_blank (gap_blank l depth)

theorem isAscii_separator (l : Layout) (depth : Nat) : IsAscii (l.separator depth) := by
  obtain ⟨blank, eq, spaces⟩ := separator_eq l depth
  rw [eq]
  exact .cons (by decide) (isAscii_blank spaces)

mutual

theorem isAscii_write (l : Layout) : ∀ (depth : Nat) (j : Json), IsAscii (write l depth j)
  | _, .null | _, .bool true | _, .bool false | _, .nan | _, .infinite true
  | _, .infinite false | _, .array [] | _, .object [] => by simp [write, IsAscii]
  | _, .number n => n.isAscii_text
  | _, .string s => isAscii_writeString s
  | depth, .array (j :: js) =>
    .cons (by decide) ((isAscii_gap l _).append ((isAscii_write l _ j).append
      ((isAscii_writeItems l _ js).append
        ((isAscii_gap l depth).append (.cons (by decide) isAscii_nil)))))
  | depth, .object ((name, j) :: ms) =>
    .cons (by decide) ((isAscii_gap l _).append ((isAscii_writeString name).append
      (.cons (by decide) (.cons (by decide) ((isAscii_write l _ j).append
        ((isAscii_writeMembers l _ ms).append
          ((isAscii_gap l depth).append (.cons (by decide) isAscii_nil))))))))
termination_by structural _ j => j

theorem isAscii_writeItems (l : Layout) :
    ∀ (depth : Nat) (js : List Json), IsAscii (writeItems l depth js)
  | _, [] => isAscii_nil
  | depth, j :: js =>
    (isAscii_separator l depth).append
      ((isAscii_write l depth j).append (isAscii_writeItems l depth js))
termination_by structural _ js => js

theorem isAscii_writeMembers (l : Layout) :
    ∀ (depth : Nat) (ms : List (String × Json)), IsAscii (writeMembers l depth ms)
  | _, [] => isAscii_nil
  | depth, (name, j) :: ms =>
    (isAscii_separator l depth).append ((isAscii_writeString name).append
      (.cons (by decide) (.cons (by decide)
        ((isAscii_write l depth j).append (isAscii_writeMembers l depth ms)))))
termination_by structural _ ms => ms

end

/-! ### Blanks outside of strings -/

mutual

/-- A text without the blanks outside of its strings. -/
def dense : List Char → List Char
  | [] => []
  | c :: cs =>
    if c = '\x22' then c :: denseString cs
    else if isSpace c then dense cs
    else c :: dense cs
termination_by structural cs => cs

/-- A text from inside of a string on, of which what stands behind the string is made dense. A
character behind a backslash never ends the string. -/
def denseString : List Char → List Char
  | [] => []
  | ['\\'] => ['\\']
  | '\\' :: c :: cs => '\\' :: c :: denseString cs
  | c :: cs => if c = '\x22' then c :: dense cs else c :: denseString cs
termination_by structural cs => cs

end

theorem dense_quote (cs : List Char) : dense ('\x22' :: cs) = '\x22' :: denseString cs := by
  rw [dense, if_pos rfl]

theorem dense_token {c : Char} (token : isSpace c = false) (other : c ≠ '\x22') (cs : List Char) :
    dense (c :: cs) = c :: dense cs := by
  rw [dense, if_neg other, token]
  rfl

theorem dense_space {c : Char} (space : isSpace c = true) (cs : List Char) :
    dense (c :: cs) = dense cs := by
  have other : c ≠ '\x22' := by
    rintro rfl
    cases space
  rw [dense, if_neg other, if_pos space]

theorem dense_blank {blank : List Char} (spaces : ∀ c ∈ blank, isSpace c = true) (cs : List Char) :
    dense (blank ++ cs) = dense cs := by
  induction blank with
  | nil => rfl
  | cons c blank ih =>
    obtain ⟨first, others⟩ := List.forall_mem_cons.1 spaces
    rw [List.cons_append, dense_space first, ih others]

/-- A text of tokens that are no strings is dense. -/
theorem dense_tokens {text : List Char}
    (tokens : ∀ c ∈ text, isSpace c = false ∧ c ≠ '\x22') (cs : List Char) :
    dense (text ++ cs) = text ++ dense cs := by
  induction text with
  | nil => rfl
  | cons c text ih =>
    obtain ⟨first, others⟩ := List.forall_mem_cons.1 tokens
    rw [List.cons_append, dense_token first.1 first.2, ih others]
    rfl

theorem denseString_plain {c : Char} (quote : c ≠ '\x22') (backslash : c ≠ '\\')
    (cs : List Char) : denseString (c :: cs) = c :: denseString cs := by
  rw [denseString.eq_4 c cs (fun eq _ => backslash eq) fun _ _ eq _ => backslash eq, if_neg quote]

theorem denseString_plains {text : List Char} (plain : ∀ c ∈ text, c ≠ '\x22' ∧ c ≠ '\\')
    (cs : List Char) : denseString (text ++ cs) = text ++ denseString cs := by
  induction text with
  | nil => rfl
  | cons c text ih =>
    obtain ⟨first, others⟩ := List.forall_mem_cons.1 plain
    rw [List.cons_append, denseString_plain first.1 first.2, ih others]
    rfl

/-- A written unit of a string is left as it is. -/
theorem denseString_escapedUnit {u : Nat} (small : u < 0x10000) (rest : List Char) :
    denseString (escapedUnit u ++ rest) = escapedUnit u ++ denseString rest := by
  rw [escapedUnit]
  split
  · rfl
  split
  · rfl
  split
  · rfl
  split
  · rfl
  split
  · rfl
  split
  · rfl
  split
  · rfl
  split
  · rename_i quote backslash _ _ _ _ _ graphic
    simp only [Bool.and_eq_true, decide_eq_true_eq] at graphic
    have unit : (Char.ofNat u).toNat = u := Text.toNat_ofNat_of_lt (by omega)
    have not_quote : Char.ofNat u ≠ '\x22' := fun eq => quote (by rw [← unit, eq]; rfl)
    have not_backslash : Char.ofNat u ≠ '\\' := fun eq => backslash (by rw [← unit, eq]; rfl)
    exact denseString_plain not_quote not_backslash rest
  · obtain ⟨a, b, c, d, digits, read⟩ := Text.readHex?_hexFilled small
    have hex : ∀ x ∈ [a, b, c, d], Text.hexDigit? x ≠ none := Text.hexDigit?_of_mem read
    have plain : ∀ x ∈ [a, b, c, d], x ≠ '\x22' ∧ x ≠ '\\' := by
      intro x hx
      constructor
      · rintro rfl
        exact hex _ hx (by decide)
      · rintro rfl
        exact hex _ hx (by decide)
    rw [digits]
    show '\\' :: 'u' :: denseString ([a, b, c, d] ++ rest) = _
    rw [denseString_plains plain]
    rfl

theorem dense_writeString (s : String) (rest : List Char) :
    dense (writeString s ++ rest) = writeString s ++ dense rest := by
  have units : ∀ us : List Nat, (∀ u ∈ us, u < 0x10000) → ∀ rest,
      denseString (us.flatMap escapedUnit ++ rest) =
        us.flatMap escapedUnit ++ denseString rest := by
    intro us small rest
    induction us with
    | nil => rfl
    | cons u us ih =>
      obtain ⟨first, others⟩ := List.forall_mem_cons.1 small
      rw [List.flatMap_cons, List.append_assoc, denseString_escapedUnit first, ih others,
        List.append_assoc]
  have chars : ∀ (cs rest : List Char), denseString (cs.flatMap escapedChar ++ rest) =
      cs.flatMap escapedChar ++ denseString rest := by
    intro cs rest
    induction cs with
    | nil => rfl
    | cons c cs ih =>
      rw [List.flatMap_cons, List.append_assoc, escapedChar, units _ (Text.units_lt c), ih,
        List.append_assoc]
  have closing : denseString ('\x22' :: rest) = '\x22' :: dense rest := by
    rw [denseString.eq_4 _ _ (fun eq _ => absurd eq (by decide))
      fun _ _ eq _ => absurd eq (by decide), if_pos rfl]
  rw [writeString, List.cons_append, dense_quote, List.append_assoc, chars, List.singleton_append,
    closing]
  simp

theorem tokens_of_numeral (n : Numeral) : ∀ c ∈ n.text, isSpace c = false ∧ c ≠ '\x22' := by
  intro c hc
  rcases Numeral.mem_text hc with digit | sign
  · have other {d : Char} (letter : d.isDigit = false) : c ≠ d := Text.ne_of_isDigit digit letter
    simp [isSpace, other]
  · simp only [List.mem_cons, List.not_mem_nil, or_false] at sign
    rcases sign with rfl | rfl | rfl | rfl <;> decide

/-! ### Dense texts of values -/

/-- A family of texts, one for each layout and depth, is the same dense text in front of any
rest. -/
def DenselySame (text : Layout → Nat → List Char) : Prop :=
  ∃ core, ∀ l depth rest, dense (text l depth ++ rest) = core ++ dense rest

theorem DenselySame.tokens {text : List Char}
    (tokens : ∀ c ∈ text, isSpace c = false ∧ c ≠ '\x22') : DenselySame fun _ _ => text :=
  ⟨text, fun _ _ rest => dense_tokens tokens rest⟩

mutual

/-- The texts of a value in all layouts have one dense text. -/
theorem denselySame_write : ∀ j : Json, DenselySame fun l depth => write l depth j
  | .null | .bool true | .bool false | .nan | .infinite true | .infinite false | .array []
  | .object [] => .tokens (by simp [isSpace])
  | .number n => .tokens (tokens_of_numeral n)
  | .string s => ⟨writeString s, fun _ _ rest => dense_writeString s rest⟩
  | .array (j :: js) => by
    obtain ⟨first, dense_first⟩ := denselySame_write j
    obtain ⟨others, dense_others⟩ := denselySame_writeItems js
    refine ⟨'[' :: (first ++ (others ++ [']'])), fun l depth rest => ?_⟩
    simp only [write, List.cons_append, List.append_assoc]
    rw [dense_token rfl (by decide), dense_blank (gap_blank l _), dense_first, dense_others,
      dense_blank (gap_blank l _), List.nil_append, dense_token rfl (by decide)]
    rfl
  | .object ((name, j) :: ms) => by
    obtain ⟨first, dense_first⟩ := denselySame_write j
    obtain ⟨others, dense_others⟩ := denselySame_writeMembers ms
    refine ⟨'\x7b' :: (writeString name ++ ':' :: (first ++ (others ++ ['\x7d']))),
      fun l depth rest => ?_⟩
    simp only [write, List.cons_append, List.append_assoc]
    rw [dense_token rfl (by decide), dense_blank (gap_blank l _), dense_writeString,
      dense_token rfl (by decide), dense_space rfl, dense_first, dense_others,
      dense_blank (gap_blank l _), List.nil_append, dense_token rfl (by decide)]
    rfl
termination_by structural j => j

theorem denselySame_writeItems : ∀ js : List Json,
    DenselySame fun l depth => writeItems l depth js
  | [] => ⟨[], fun _ _ _ => rfl⟩
  | j :: js => by
    obtain ⟨first, dense_first⟩ := denselySame_write j
    obtain ⟨others, dense_others⟩ := denselySame_writeItems js
    refine ⟨',' :: (first ++ others), fun l depth rest => ?_⟩
    obtain ⟨blank, eq, spaces⟩ := separator_eq l depth
    simp only [writeItems, eq, List.cons_append, List.append_assoc]
    rw [dense_token rfl (by decide), dense_blank spaces, dense_first, dense_others]
termination_by structural js => js

theorem denselySame_writeMembers : ∀ ms : List (String × Json),
    DenselySame fun l depth => writeMembers l depth ms
  | [] => ⟨[], fun _ _ _ => rfl⟩
  | (name, j) :: ms => by
    obtain ⟨first, dense_first⟩ := denselySame_write j
    obtain ⟨others, dense_others⟩ := denselySame_writeMembers ms
    refine ⟨',' :: (writeString name ++ ':' :: (first ++ others)), fun l depth rest => ?_⟩
    obtain ⟨blank, eq, spaces⟩ := separator_eq l depth
    simp only [writeMembers, eq, List.cons_append, List.append_assoc]
    rw [dense_token rfl (by decide), dense_blank spaces, dense_writeString,
      dense_token rfl (by decide), dense_space rfl, dense_first, dense_others]
termination_by structural ms => ms

end

end Json

end ChartTree
