import ChartTree.Proofs.Json.Tokens

/-!
# Reading written JSON

What is written for a value is read as that value, in every layout and spelling. Every value is
read from behind any blanks and up to what stops it, with no more fuel than its text is long.
-/

namespace ChartTree.Json

open Numeral (Stops stops_nil stops_cons)

/-! ### Blanks -/

theorem skipSpace_blank {blank : List Char} (spaces : ∀ c ∈ blank, isSpace c = true)
    (cs : List Char) : skipSpace (blank ++ cs) = skipSpace cs :=
  List.dropWhile_append_of_pos spaces

theorem skipSpace_cons {c : Char} (token : isSpace c = false) (cs : List Char) :
    skipSpace (c :: cs) = c :: cs :=
  List.dropWhile_cons_of_neg (by rw [token]; decide)

/-- A token is found behind blanks. -/
theorem skipSpace_token {blank : List Char} (spaces : ∀ c ∈ blank, isSpace c = true) {c : Char}
    (token : isSpace c = false) (cs : List Char) : skipSpace (blank ++ c :: cs) = c :: cs := by
  rw [skipSpace_blank spaces, skipSpace_cons token]

theorem gap_blank (l : Layout) (depth : Nat) : ∀ c ∈ l.gap depth, isSpace c = true := by
  intro c hc
  cases l with
  | inline => exact (List.not_mem_nil hc).elim
  | lines width =>
    rcases List.mem_cons.1 hc with rfl | space
    · rfl
    · rw [List.eq_of_mem_replicate space]
      rfl

theorem isSpace_plain {c : Char} (space : isSpace c = true) : c ∉ ['<', '>', '&'] := by
  intro mem
  simp only [List.mem_cons, List.not_mem_nil, or_false] at mem
  rcases mem with rfl | rfl | rfl <;> exact absurd space (by decide)

theorem separator_eq (l : Layout) (depth : Nat) :
    ∃ blank, l.separator depth = ',' :: blank ∧ ∀ c ∈ blank, isSpace c = true := by
  cases l with
  | inline => exact ⟨[' '], rfl, List.forall_mem_singleton.2 rfl⟩
  | lines width => exact ⟨_, rfl, gap_blank (.lines width) depth⟩

theorem stops_gap (l : Layout) (depth : Nat) {c : Char} (digit : c.isDigit = false)
    (other : c ∉ ['.', 'e', 'E']) (rest : List Char) : Stops (l.gap depth ++ c :: rest) := by
  cases l with
  | inline => exact stops_cons digit other rest
  | lines width => exact stops_cons rfl (by decide) _

/-! ### Scalars -/

/-- A text is read as a number if it starts like one. -/
theorem readScalar_number {c : Char} {cs : List Char} (digit : c.isDigit = true) {text : List Char}
    (starts : text = c :: cs ∨ text = '-' :: c :: cs) :
    readScalar text = (Numeral.read text).map fun (n, rest) => (.number n, rest) := by
  have other {d : Char} (letter : d.isDigit = false) : c ≠ d := Text.ne_of_isDigit digit letter
  have first {d : Char} {ds : List Char} (letter : d.isDigit = false) (sign : d ≠ '-') :
      text ≠ d :: ds := by
    rintro rfl
    rcases starts with eq | eq
    · exact other letter (List.cons.inj eq).1.symm
    · exact sign (List.cons.inj eq).1
  have second {ds : List Char} : text ≠ '-' :: 'I' :: ds := by
    rintro rfl
    rcases starts with eq | eq
    · exact other (d := '-') rfl (List.cons.inj eq).1.symm
    · exact other (d := 'I') rfl (List.cons.inj (List.cons.inj eq).2).1.symm
  rw [readScalar.eq_7]
  · exact fun _ => first rfl (by decide)
  · exact fun _ => first rfl (by decide)
  · exact fun _ => first rfl (by decide)
  · exact fun _ => first rfl (by decide)
  · exact fun _ => first rfl (by decide)
  · exact fun _ => second

/-- What stands at the front of a text that is written for a value. -/
theorem write_starts (l : Layout) (depth : Nat) (j : Json) :
    ∃ c cs, write l depth j = c :: cs ∧ isSpace c = false ∧ c ≠ ']' ∧ c ∉ ['<', '>', '&'] := by
  cases j with
  | null => exact ⟨_, _, rfl, by decide⟩
  | bool b => cases b <;> exact ⟨_, _, rfl, by decide⟩
  | number n =>
    obtain ⟨c, cs, digit, text | text⟩ := n.text_starts
    · have other {d : Char} (letter : d.isDigit = false) : c ≠ d := Text.ne_of_isDigit digit letter
      refine ⟨c, cs, text, ?_, other rfl, ?_⟩
      · simp [isSpace, other]
      · simp [other]
    · exact ⟨'-', c :: cs, text, by decide⟩
  | nan => exact ⟨_, _, rfl, by decide⟩
  | infinite negative => cases negative <;> exact ⟨_, _, rfl, by decide⟩
  | string s => exact ⟨_, _, rfl, by decide⟩
  | array js => cases js <;> exact ⟨_, _, rfl, by decide⟩
  | object ms => rcases ms with _ | ⟨⟨name, j⟩, ms⟩ <;> exact ⟨_, _, rfl, by decide⟩

/-! ### One step of the reader -/

theorem readValue_scalar {fuel : Nat} {cs rest : List Char} {c : Char}
    (here : skipSpace cs = c :: rest) (opening : c ∉ ['\x22', '[', '\x7b']) :
    readValue (fuel + 1) cs = readScalar (c :: rest) := by
  simp only [List.mem_cons, List.not_mem_nil, or_false, not_or] at opening
  obtain ⟨quote, bracket, brace⟩ := opening
  rw [readValue, here]
  split
  · rename_i eq
    exact absurd (List.cons.inj eq).1 quote
  · rename_i eq
    exact absurd (List.cons.inj eq).1 bracket
  · rename_i eq
    exact absurd (List.cons.inj eq).1 brace
  · rfl

theorem readValue_string {fuel : Nat} {cs rest : List Char}
    (here : skipSpace cs = '\x22' :: rest) :
    readValue (fuel + 1) cs = (readString rest).map fun (s, rest) => (.string s, rest) := by
  rw [readValue, here]
  rfl

theorem readValue_noItems {fuel : Nat} {cs rest : List Char}
    (here : skipSpace cs = '[' :: ']' :: rest) :
    readValue (fuel + 1) cs = some (.array [], rest) := by
  rw [readValue, here]
  rfl

theorem readValue_items {fuel : Nat} {cs rest first : List Char} {c : Char}
    (here : skipSpace cs = '[' :: rest) (next : skipSpace rest = c :: first)
    (item : c ≠ ']') :
    readValue (fuel + 1) cs = (readItems fuel (c :: first)).map fun (js, rest) =>
      (.array js, rest) := by
  rw [readValue, here]
  simp only [next]
  split
  · rename_i eq
    exact absurd (List.cons.inj eq).1 item
  · rfl

theorem readValue_noMembers {fuel : Nat} {cs rest : List Char}
    (here : skipSpace cs = '\x7b' :: '\x7d' :: rest) :
    readValue (fuel + 1) cs = some (.object [], rest) := by
  rw [readValue, here]
  rfl

theorem readValue_members {fuel : Nat} {cs rest first : List Char}
    (here : skipSpace cs = '\x7b' :: rest) (next : skipSpace rest = '\x22' :: first) :
    readValue (fuel + 1) cs = (readMembers fuel ('\x22' :: first)).map fun (ms, rest) =>
      (.object ms, rest) := by
  rw [readValue, here]
  simp only [next]
  rfl

/-! ### Values -/

section Spelled

variable {spell : Char → List Char} (spelling : Spelling spell) (l : Layout)

/-- A value is read from its text at a depth, wherever that text stands. -/
def Reads (spell : Char → List Char) (l : Layout) (depth : Nat) (j : Json) : Prop :=
  ∀ (fuel : Nat) (blank rest : List Char), (∀ c ∈ blank, isSpace c = true) → Stops rest →
    ((write l depth j).flatMap spell).length < fuel →
      readValue fuel (blank ++ ((write l depth j).flatMap spell ++ rest)) = some (j, rest)

include spelling

/-- A value without items is read from its text. -/
theorem reads_scalar {depth : Nat} {j : Json} {c : Char} {cs : List Char}
    (text : write l depth j = c :: cs) (plain : ∀ d ∈ c :: cs, d ∉ ['<', '>', '&'])
    (token : isSpace c = false) (opening : c ∉ ['\x22', '[', '\x7b'])
    (read : ∀ rest, Stops rest → readScalar (c :: (cs ++ rest)) = some (j, rest)) :
    Reads spell l depth j := by
  intro fuel blank rest spaces stop enough
  obtain ⟨fuel, rfl⟩ := Nat.exists_eq_add_of_lt enough
  rw [text, spelling.keeps _ plain, List.cons_append,
    readValue_scalar (skipSpace_token spaces token _) opening]
  exact read rest stop

theorem reads_number (depth : Nat) (n : Numeral) : Reads spell l depth (.number n) := by
  have plain : ∀ d ∈ n.text, d ∉ ['<', '>', '&'] := by
    intro d hd mem
    simp only [List.mem_cons, List.not_mem_nil, or_false] at mem
    rcases Numeral.mem_text hd with digit | sign
    · rcases mem with rfl | rfl | rfl <;> exact absurd digit (by decide)
    · rcases mem with rfl | rfl | rfl <;> exact absurd sign (by decide)
  obtain ⟨c, cs, digit, starts⟩ := n.text_starts
  have read (rest : List Char) (stop : Stops rest) :
      readScalar (n.text ++ rest) = some (.number n, rest) := by
    have starts : n.text ++ rest = c :: (cs ++ rest) ∨ n.text ++ rest = '-' :: c :: (cs ++ rest) :=
      starts.imp (fun eq => by rw [eq]; rfl) fun eq => by rw [eq]; rfl
    rw [readScalar_number digit starts, Numeral.read_text n stop]
    rfl
  obtain ⟨d, ds, text, token, _⟩ := write_starts l depth (.number n)
  have text' : n.text = d :: ds := text
  rw [text'] at plain read starts
  refine reads_scalar spelling l text plain token ?_ read
  rcases starts with eq | eq
  · rw [(List.cons.inj eq).1]
    intro mem
    simp only [List.mem_cons, List.not_mem_nil, or_false] at mem
    rcases mem with rfl | rfl | rfl <;> exact absurd digit (by decide)
  · rw [(List.cons.inj eq).1]
    decide

theorem spelled_string (s : String) (rest : List Char) :
    (writeString s).flatMap spell ++ rest =
      '\x22' :: ((s.toList.flatMap escapedChar).flatMap spell ++ '\x22' :: rest) := by
  rw [writeString, spelling.cons (by decide), List.flatMap_append,
    spelling.keeps ['\x22'] (by simp)]
  simp

theorem reads_string (depth : Nat) (s : String) : Reads spell l depth (.string s) := by
  intro fuel blank rest spaces stop enough
  obtain ⟨fuel, rfl⟩ := Nat.exists_eq_add_of_lt enough
  show readValue _ (blank ++ ((writeString s).flatMap spell ++ rest)) = _
  rw [spelled_string spelling,
    readValue_string (skipSpace_token spaces (c := '\x22') rfl _), readString_spelled spelling]
  rfl

theorem spelled_gap (depth : Nat) (cs : List Char) :
    (l.gap depth ++ cs).flatMap spell = l.gap depth ++ cs.flatMap spell := by
  rw [List.flatMap_append, spelling.keeps _ fun c hc => isSpace_plain (gap_blank l depth c hc)]

/-- Further items stand behind a comma and blanks. -/
theorem spelled_items (depth : Nat) (j : Json) (js : List Json) : ∃ blank,
    (∀ c ∈ blank, isSpace c = true) ∧ (writeItems l depth (j :: js)).flatMap spell =
      ',' :: (blank ++ ((write l depth j).flatMap spell ++
        (writeItems l depth js).flatMap spell)) := by
  obtain ⟨blank, eq, spaces⟩ := separator_eq l depth
  refine ⟨blank, spaces, ?_⟩
  rw [writeItems, eq, List.cons_append, spelling.cons (by decide), List.flatMap_append,
    List.flatMap_append, spelling.keeps _ fun c hc => isSpace_plain (spaces c hc)]

theorem spelled_members (depth : Nat) (name : String) (j : Json) (ms : List (String × Json)) :
    ∃ blank, (∀ c ∈ blank, isSpace c = true) ∧
      (writeMembers l depth ((name, j) :: ms)).flatMap spell =
        ',' :: (blank ++ ((writeString name).flatMap spell ++
          ':' :: ' ' :: ((write l depth j).flatMap spell ++
            (writeMembers l depth ms).flatMap spell))) := by
  obtain ⟨blank, eq, spaces⟩ := separator_eq l depth
  refine ⟨blank, spaces, ?_⟩
  rw [writeMembers, eq, List.cons_append, spelling.cons (by decide), List.flatMap_append,
    List.flatMap_append, spelling.cons (by decide), spelling.cons (by decide),
    List.flatMap_append, spelling.keeps _ fun c hc => isSpace_plain (spaces c hc)]

/-- What stands before further items stops there, since they start with a comma. -/
theorem stops_items (depth outer : Nat) (js : List Json) (rest : List Char) :
    Stops ((writeItems l depth js).flatMap spell ++ (l.gap outer ++ ']' :: rest)) := by
  cases js with
  | nil => exact stops_gap l outer rfl (by decide) rest
  | cons j js =>
    obtain ⟨blank, _, eq⟩ := spelled_items spelling l depth j js
    rw [eq]
    exact stops_cons rfl (by decide) _

theorem stops_members (depth outer : Nat) (ms : List (String × Json)) (rest : List Char) :
    Stops ((writeMembers l depth ms).flatMap spell ++ (l.gap outer ++ '\x7d' :: rest)) := by
  cases ms with
  | nil => exact stops_gap l outer rfl (by decide) rest
  | cons m ms =>
    obtain ⟨blank, _, eq⟩ := spelled_members spelling l depth m.1 m.2 ms
    rw [eq]
    exact stops_cons rfl (by decide) _

/-- Items are read up to the closing bracket if each of them is read from its text. -/
theorem readItems_spelled (outer : Nat) {depth : Nat} {j : Json} {js : List Json}
    (first : Reads spell l depth j) (others : ∀ x ∈ js, Reads spell l depth x) :
    ∀ (fuel : Nat) (blank rest : List Char), (∀ c ∈ blank, isSpace c = true) →
      ((write l depth j).flatMap spell).length + ((writeItems l depth js).flatMap spell).length + 1
        < fuel →
      readItems fuel (blank ++ ((write l depth j).flatMap spell ++
        ((writeItems l depth js).flatMap spell ++ (l.gap outer ++ ']' :: rest)))) =
          some (j :: js, rest) := by
  induction js generalizing j with
  | nil =>
    intro fuel blank rest spaces enough
    obtain ⟨fuel, rfl⟩ : ∃ n, fuel = n + 1 := ⟨fuel - 1, by omega⟩
    have stop := stops_items spelling l depth outer [] rest
    rw [readItems, first _ _ _ spaces stop (by omega)]
    simp only [Option.bind_eq_bind, Option.bind_some, writeItems, List.flatMap_nil, List.nil_append]
    rw [skipSpace_token (gap_blank l outer) (c := ']') rfl]
    rfl
  | cons j' js ih =>
    intro fuel blank rest spaces enough
    obtain ⟨fuel, rfl⟩ : ∃ n, fuel = n + 1 := ⟨fuel - 1, by omega⟩
    obtain ⟨first', others'⟩ := List.forall_mem_cons.1 others
    obtain ⟨blank', spaces', eq⟩ := spelled_items spelling l depth j' js
    have stop := stops_items spelling l depth outer (j' :: js) rest
    rw [readItems, first _ _ _ spaces stop (by omega)]
    rw [eq] at enough ⊢
    simp only [List.length_cons, List.length_append] at enough
    have further := ih first' others' fuel blank' rest spaces' (by omega)
    simp only [Option.bind_eq_bind, Option.bind_some, List.cons_append, List.append_assoc]
    rw [skipSpace_cons (c := ',') rfl]
    simp only [further]
    rfl

/-- Members are read up to the closing brace if the value of each is read from its text. -/
theorem readMembers_spelled (outer : Nat) (name : String) {depth : Nat} {j : Json}
    {ms : List (String × Json)} (first : Reads spell l depth j)
    (others : ∀ m ∈ ms, Reads spell l depth m.2) :
    ∀ (fuel : Nat) (blank rest : List Char), (∀ c ∈ blank, isSpace c = true) →
      ((write l depth j).flatMap spell).length +
        ((writeMembers l depth ms).flatMap spell).length + 1 < fuel →
      readMembers fuel (blank ++ ((writeString name).flatMap spell ++
        (':' :: ' ' :: ((write l depth j).flatMap spell ++
          ((writeMembers l depth ms).flatMap spell ++ (l.gap outer ++ '\x7d' :: rest)))))) =
            some ((name, j) :: ms, rest) := by
  induction ms generalizing name j with
  | nil =>
    intro fuel blank rest spaces enough
    obtain ⟨fuel, rfl⟩ : ∃ n, fuel = n + 1 := ⟨fuel - 1, by omega⟩
    have stop := stops_members spelling l depth outer [] rest
    have value := first fuel [' '] _ (List.forall_mem_singleton.2 rfl) stop (by omega)
    rw [List.singleton_append] at value
    rw [spelled_string spelling, readMembers, skipSpace_token spaces (c := '\x22') rfl]
    simp only [readString_spelled spelling, Option.bind_eq_bind, Option.bind_some]
    rw [skipSpace_cons (c := ':') rfl]
    simp only [value, Option.bind_some]
    simp only [writeMembers, List.flatMap_nil, List.nil_append]
    rw [skipSpace_token (gap_blank l outer) (c := '\x7d') rfl]
    rfl
  | cons m ms ih =>
    intro fuel blank rest spaces enough
    obtain ⟨name', j'⟩ := m
    obtain ⟨fuel, rfl⟩ : ∃ n, fuel = n + 1 := ⟨fuel - 1, by omega⟩
    obtain ⟨first', others'⟩ := List.forall_mem_cons.1 others
    obtain ⟨blank', spaces', eq⟩ := spelled_members spelling l depth name' j' ms
    have stop := stops_members spelling l depth outer ((name', j') :: ms) rest
    have value := first fuel [' '] _ (List.forall_mem_singleton.2 rfl) stop (by omega)
    rw [List.singleton_append] at value
    rw [eq] at enough value ⊢
    simp only [List.length_cons, List.length_append] at enough
    have further := ih name' (j := j') first' others' fuel blank' rest spaces' (by omega)
    rw [spelled_string spelling, readMembers, skipSpace_token spaces (c := '\x22') rfl]
    simp only [readString_spelled spelling, Option.bind_eq_bind, Option.bind_some]
    rw [skipSpace_cons (c := ':') rfl]
    simp only [value, Option.bind_some]
    rw [List.cons_append, skipSpace_cons (c := ',') rfl]
    simp only [List.cons_append, List.append_assoc]
    simp only [further]
    rfl

theorem reads_array {depth : Nat} {js : List Json}
    (items : ∀ x ∈ js, Reads spell l (depth + 1) x) : Reads spell l depth (.array js) := by
  intro fuel blank rest spaces stop enough
  obtain ⟨fuel, rfl⟩ : ∃ n, fuel = n + 1 := ⟨fuel - 1, by omega⟩
  cases js with
  | nil =>
    have plain : ['[', ']'].flatMap spell = ['[', ']'] := spelling.keeps _ (by simp)
    rw [write, plain]
    exact readValue_noItems (skipSpace_token spaces (c := '[') rfl _)
  | cons j js =>
    obtain ⟨first, others⟩ := List.forall_mem_cons.1 items
    obtain ⟨c, cs, text, token, item, plain⟩ := write_starts l (depth + 1) j
    have spelled : (write l depth (.array (j :: js))).flatMap spell =
        '[' :: (l.gap (depth + 1) ++ ((write l (depth + 1) j).flatMap spell ++
          ((writeItems l (depth + 1) js).flatMap spell ++ (l.gap depth ++ [']'])))) := by
      rw [write, spelling.cons (by decide), spelled_gap spelling, List.flatMap_append,
        List.flatMap_append, spelled_gap spelling, spelling.keeps [']'] (by simp)]
    rw [spelled] at enough ⊢
    simp only [List.length_cons, List.length_append] at enough
    have read := readItems_spelled spelling l depth first others fuel [] rest
      (fun _ mem => (List.not_mem_nil mem).elim) (by omega)
    rw [text, spelling.cons plain] at read ⊢
    simp only [List.cons_append, List.append_assoc, List.nil_append] at read ⊢
    rw [readValue_items (skipSpace_token spaces (c := '[') rfl _)
      (skipSpace_token (gap_blank l (depth + 1)) token _) item, read]
    rfl

theorem reads_object {depth : Nat} {ms : List (String × Json)}
    (members : ∀ m ∈ ms, Reads spell l (depth + 1) m.2) : Reads spell l depth (.object ms) := by
  intro fuel blank rest spaces stop enough
  obtain ⟨fuel, rfl⟩ : ∃ n, fuel = n + 1 := ⟨fuel - 1, by omega⟩
  rcases ms with _ | ⟨⟨name, j⟩, ms⟩
  · have plain : ['\x7b', '\x7d'].flatMap spell = ['\x7b', '\x7d'] := spelling.keeps _ (by simp)
    rw [write, plain]
    exact readValue_noMembers (skipSpace_token spaces (c := '\x7b') rfl _)
  · obtain ⟨first, others⟩ := List.forall_mem_cons.1 members
    have spelled : (write l depth (.object ((name, j) :: ms))).flatMap spell =
        '\x7b' :: (l.gap (depth + 1) ++ ((writeString name).flatMap spell ++
          ':' :: ' ' :: ((write l (depth + 1) j).flatMap spell ++
            ((writeMembers l (depth + 1) ms).flatMap spell ++ (l.gap depth ++ ['\x7d']))))) := by
      rw [write, spelling.cons (by decide), spelled_gap spelling, List.flatMap_append,
        spelling.cons (by decide), spelling.cons (by decide), List.flatMap_append,
        List.flatMap_append, spelled_gap spelling, spelling.keeps ['\x7d'] (by simp)]
    rw [spelled] at enough ⊢
    simp only [List.length_cons, List.length_append] at enough
    have read := readMembers_spelled spelling l depth name (j := j) first others fuel [] rest
      (fun _ mem => (List.not_mem_nil mem).elim) (by omega)
    simp only [List.cons_append, List.append_assoc, List.nil_append] at read ⊢
    rw [spelled_string spelling] at read ⊢
    rw [readValue_members (skipSpace_token spaces (c := '\x7b') rfl _)
      (skipSpace_token (gap_blank l (depth + 1)) (c := '\x22') rfl _), read]
    rfl

end Spelled

mutual

/-- Every value is read from its text. -/
theorem reads {spell : Char → List Char} (spelling : Spelling spell) (l : Layout) (depth : Nat) :
    ∀ j : Json, Reads spell l depth j
  | .null => reads_scalar spelling l rfl (by simp) rfl (by decide) fun _ _ => rfl
  | .bool true => reads_scalar spelling l rfl (by simp) rfl (by decide) fun _ _ => rfl
  | .bool false => reads_scalar spelling l rfl (by simp) rfl (by decide) fun _ _ => rfl
  | .number n => reads_number spelling l depth n
  | .nan => reads_scalar spelling l rfl (by simp) rfl (by decide) fun _ _ => rfl
  | .infinite true => reads_scalar spelling l rfl (by simp) rfl (by decide) fun _ _ => rfl
  | .infinite false => reads_scalar spelling l rfl (by simp) rfl (by decide) fun _ _ => rfl
  | .string s => reads_string spelling l depth s
  | .array js => reads_array spelling l (reads_items spelling l (depth + 1) js)
  | .object ms => reads_object spelling l (reads_members spelling l (depth + 1) ms)
termination_by structural j => j

theorem reads_items {spell : Char → List Char} (spelling : Spelling spell) (l : Layout)
    (depth : Nat) : ∀ js : List Json, ∀ x ∈ js, Reads spell l depth x
  | [] => fun _ mem => (List.not_mem_nil mem).elim
  | j :: js =>
    List.forall_mem_cons.2 ⟨reads spelling l depth j, reads_items spelling l depth js⟩
termination_by structural js => js

theorem reads_members {spell : Char → List Char} (spelling : Spelling spell) (l : Layout)
    (depth : Nat) : ∀ ms : List (String × Json), ∀ m ∈ ms, Reads spell l depth m.2
  | [] => fun _ mem => (List.not_mem_nil mem).elim
  | (_, j) :: ms =>
    List.forall_mem_cons.2 ⟨reads spelling l depth j, reads_members spelling l depth ms⟩
termination_by structural ms => ms

end

/-- The text of a value is read as that value, in every layout and spelling. -/
theorem parseChars_spelled {spell : Char → List Char} (spelling : Spelling spell) (l : Layout)
    (j : Json) : parseChars ((write l 0 j).flatMap spell) = some j := by
  have read := reads spelling l 0 j (((write l 0 j).flatMap spell).length + 1) [] []
    (fun _ mem => (List.not_mem_nil mem).elim) stops_nil (by omega)
  rw [List.nil_append, List.append_nil] at read
  rw [parseChars, read]
  rfl

theorem parse_render (l : Layout) (j : Json) : parse (render l j) = some j := by
  have same : (write l 0 j).flatMap (fun c => [c]) = write l 0 j := List.flatMap_singleton' _
  have read := parseChars_spelled spelling_plain l j
  rw [same] at read
  rw [parse, render, String.toList_ofList, read]

theorem parseChars_script (l : Layout) (j : Json) :
    parseChars ((write l 0 j).flatMap scriptChar) = some j :=
  parseChars_spelled spelling_script l j

end ChartTree.Json
