import ChartTree.Value.Copy
import ChartTree.Value.Dict

/-!
# Dictionaries under texts

What the operations of a dictionary do to what stands under a text: an insertion, a removal, the
writing of many entries and a copy. A text is found under any key that has it as content, so none
of this depends on which objects the keys are. Operations that can be refused are taken apart by
what their results come from.
-/

namespace ChartTree

/-! ### Results -/

theorem map_eq_ok_iff {ε α β : Type} {x : Except ε α} {f : α → β} {b : β} :
    x.map f = .ok b ↔ ∃ a, x = .ok a ∧ f a = b := by
  cases x with
  | error reason => exact ⟨nofun, nofun⟩
  | ok a =>
    constructor
    · intro eq
      exact ⟨a, rfl, Except.ok.inj eq⟩
    · rintro ⟨_, ⟨⟩, rfl⟩
      rfl

theorem bind_eq_ok_iff {ε α β : Type} {x : Except ε α} {f : α → Except ε β} {b : β} :
    x.bind f = .ok b ↔ ∃ a, x = .ok a ∧ f a = .ok b := by
  cases x with
  | error reason => exact ⟨nofun, nofun⟩
  | ok a =>
    constructor
    · intro eq
      exact ⟨a, rfl, eq⟩
    · rintro ⟨_, ⟨⟩, eq⟩
      exact eq

theorem mapError_eq_ok_iff {ε δ α : Type} {x : Except ε α} {f : ε → δ} {a : α} :
    x.mapError f = .ok a ↔ x = .ok a := by
  cases x with
  | error reason => exact ⟨nofun, nofun⟩
  | ok b =>
    constructor <;>
      · rintro ⟨⟩
        rfl

/-! ### Texts -/

namespace Value

/-- What stands under a text in a value, if the value is a dictionary. -/
def field? (v : Value) (key : String) : Option Value :=
  match v.content with
  | .dict entries => Dict.get? entries (.string key)
  | _ => none

/-- A text, whatever object it is. -/
def IsText (v : Value) : Prop :=
  ∃ s, v.content = .string s

theorem alike_text {s : String} {v : Value} :
    v.alike (.string s) = true ↔ v.content = .string s := by
  obtain ⟨id, c⟩ := v
  cases c <;> cases id <;>
    simp [alike, isIdentical, identity?, same, content, isNull, Content.isNull, sameNumber,
      exactValue?, Content.exactValue?]

theorem content_copied_eq_string {occasion : Option Nat} {v : Value} {s : String} :
    (copied occasion v).content = .string s ↔ v.content = .string s := by
  obtain ⟨id, c⟩ := v
  cases c <;> simp [copied, content]

theorem copied_string (occasion : Option Nat) (s : String) :
    copied occasion (.string s) = .string s := rfl

theorem copied_dict (occasion : Option Nat) (entries : Dict) :
    copied occasion (.dict entries) = .dict (copiedEntries occasion entries) := by
  rw [copied, copyIdentity]
  rfl

/-- What equals a text is one. -/
theorem content_of_same_string {v w : Value} {s : String} (h : v.same w = true)
    (text : w.content = .string s) : v.content = .string s := by
  obtain ⟨id, c⟩ := v
  obtain ⟨id', c'⟩ := w
  have eq : c' = .string s := text
  subst eq
  cases c with
  | string t => simpa [same, content] using h
  | _ => simp [same, content, isNull, Content.isNull, sameNumber, exactValue?,
      Content.exactValue?] at h

theorem content_of_string_same {v w : Value} {s : String} (h : v.same w = true)
    (text : v.content = .string s) : w.content = .string s := by
  obtain ⟨id, c⟩ := v
  obtain ⟨id', c'⟩ := w
  have eq : c = .string s := text
  subst eq
  cases c' <;> simp [same, content] at h
  rw [h]
  rfl

end Value

namespace Dict

theorem exists_of_get? {d : Dict} {key v : Value} (held : get? d key = some v) :
    ∃ e ∈ d, e.2 = v := by
  obtain ⟨e, found, eq⟩ := Option.map_eq_some_iff.1 held
  exact ⟨e, List.mem_of_find?_eq_some found, eq⟩

theorem get?_eq_none_iff {d : Dict} {name : String} :
    get? d (.string name) = none ↔ ∀ e ∈ d, e.1.content ≠ .string name := by
  simp only [get?, Option.map_eq_none_iff, List.find?_eq_none, Value.alike_string, ne_eq]

theorem get?_of_content {e : Value × Value} {d : Dict} {name : String}
    (h : e.1.content = .string name) : get? (e :: d) (.string name) = some e.2 := by
  rw [get?_cons, Value.alike_string.2 h, if_pos rfl]

theorem get?_of_content_ne {e : Value × Value} {d : Dict} {name : String}
    (h : e.1.content ≠ .string name) :
    get? (e :: d) (.string name) = get? d (.string name) := by
  rw [get?_cons, if_neg (mt Value.alike_string.1 h)]

/-! ### Insertion -/

theorem insert_cons_of_content {e : Value × Value} {d : Dict} {name : String} {v : Value}
    (h : e.1.content = .string name) : insert (e :: d) (.string name) v = (e.1, v) :: d := by
  rw [insert, Value.alike_string.2 h, if_pos rfl]

theorem insert_cons_of_content_ne {e : Value × Value} {d : Dict} {name : String} {v : Value}
    (h : e.1.content ≠ .string name) :
    insert (e :: d) (.string name) v = e :: insert d (.string name) v := by
  rw [insert, if_neg (mt Value.alike_string.1 h)]

/-- A new text goes last. -/
theorem insert_of_absent {d : Dict} {name : String} (absent : get? d (.string name) = none)
    (v : Value) : insert d (.string name) v = d ++ [(.string name, v)] := by
  rw [get?_eq_none_iff] at absent
  induction d with
  | nil => rfl
  | cons e d ih =>
    rw [insert_cons_of_content_ne (absent e (List.mem_cons_self ..)),
      ih fun f hf => absent f (List.mem_cons_of_mem _ hf)]
    rfl

theorem insert_insert_self (d : Dict) (name : String) (v w : Value) :
    insert (insert d (.string name) v) (.string name) w = insert d (.string name) w := by
  induction d with
  | nil => exact insert_cons_of_content rfl
  | cons e d ih =>
    by_cases h : e.1.content = .string name
    · rw [insert_cons_of_content h, insert_cons_of_content h]
      exact insert_cons_of_content h
    · rw [insert_cons_of_content_ne h, insert_cons_of_content_ne h, insert_cons_of_content_ne h, ih]

theorem key_of_mem_insert {d : Dict} {key v : Value} {e : Value × Value}
    (h : e ∈ insert d key v) : e.1 = key ∨ ∃ f ∈ d, f.1 = e.1 := by
  induction d with
  | nil => exact .inl (by rw [List.mem_singleton.1 h])
  | cons f d ih =>
    simp only [insert] at h
    split at h
    · rcases List.mem_cons.1 h with rfl | h
      · exact .inr ⟨f, List.mem_cons_self .., rfl⟩
      · exact .inr ⟨e, List.mem_cons_of_mem _ h, rfl⟩
    · rcases List.mem_cons.1 h with rfl | h
      · exact .inr ⟨e, List.mem_cons_self .., rfl⟩
      · rcases ih h with he | ⟨g, hg, he⟩
        · exact .inl he
        · exact .inr ⟨g, List.mem_cons_of_mem _ hg, he⟩

/-- An entry after an insertion was there before, or it has the new value under the text. -/
theorem mem_insert {d : Dict} {name : String} {v : Value} {e : Value × Value}
    (h : e ∈ insert d (.string name) v) :
    e ∈ d ∨ e.1.content = .string name ∧ e.2 = v ∧ (e.1 = .string name ∨ ∃ f ∈ d, f.1 = e.1) := by
  induction d with
  | nil =>
    rw [List.mem_singleton.1 h]
    exact .inr ⟨rfl, rfl, .inl rfl⟩
  | cons f d ih =>
    by_cases same : f.1.content = .string name
    · rw [insert_cons_of_content same] at h
      rcases List.mem_cons.1 h with rfl | h
      · exact .inr ⟨same, rfl, .inr ⟨f, List.mem_cons_self .., rfl⟩⟩
      · exact .inl (List.mem_cons_of_mem _ h)
    · rw [insert_cons_of_content_ne same] at h
      rcases List.mem_cons.1 h with rfl | h
      · exact .inl (List.mem_cons_self ..)
      · rcases ih h with he | ⟨content, value, key⟩
        · exact .inl (List.mem_cons_of_mem _ he)
        · exact .inr ⟨content, value,
            key.imp_right fun ⟨g, hg, eq⟩ => ⟨g, List.mem_cons_of_mem _ hg, eq⟩⟩

/-! ### Removal -/

theorem erase_cons_of_content {e : Value × Value} {d : Dict} {name : String}
    (h : e.1.content = .string name) : erase (e :: d) (.string name) = erase d (.string name) := by
  simp [erase, Value.alike_string.2 h]

theorem erase_cons_of_content_ne {e : Value × Value} {d : Dict} {name : String}
    (h : e.1.content ≠ .string name) :
    erase (e :: d) (.string name) = e :: erase d (.string name) := by
  simp [erase, mt Value.alike_string.1 h]

theorem content_ne_of_ne {name other : String} (differ : name ≠ other) {v : Value}
    (h : v.content = .string name) : v.content ≠ .string other := by
  rw [h]
  simpa using differ

theorem get?_erase_of_ne (d : Dict) {name other : String} (differ : name ≠ other) :
    get? (erase d (.string name)) (.string other) = get? d (.string other) := by
  induction d with
  | nil => rfl
  | cons e d ih =>
    by_cases h : e.1.content = .string name
    · rw [erase_cons_of_content h, get?_of_content_ne (content_ne_of_ne differ h), ih]
    · rw [erase_cons_of_content_ne h, get?_cons, get?_cons, ih]

theorem get?_eraseAll_of_not_mem (d : Dict) {names : List String} {other : String}
    (differ : other ∉ names) :
    get? (eraseAll d names) (.string other) = get? d (.string other) := by
  induction names generalizing d with
  | nil => rfl
  | cons name names ih =>
    rw [List.mem_cons, not_or] at differ
    exact (ih (erase d (.string name)) differ.2).trans (get?_erase_of_ne d (Ne.symm differ.1))

theorem erase_of_absent {d : Dict} {name : String} (absent : get? d (.string name) = none) :
    erase d (.string name) = d := by
  rw [get?_eq_none_iff] at absent
  refine List.filter_eq_self.2 fun e he => ?_
  simp only [Bool.not_eq_true', Bool.eq_false_iff, ne_eq, Value.alike_string]
  exact absent e he

theorem erase_insert_of_ne (d : Dict) {name other : String} (differ : name ≠ other) (v : Value) :
    erase (insert d (.string name) v) (.string other) =
      insert (erase d (.string other)) (.string name) v := by
  induction d with
  | nil => exact erase_cons_of_content_ne (content_ne_of_ne differ rfl)
  | cons e d ih =>
    by_cases h : e.1.content = .string name
    · have kept : e.1.content ≠ .string other := content_ne_of_ne differ h
      rw [insert_cons_of_content h, erase_cons_of_content_ne kept, insert_cons_of_content h]
      exact erase_cons_of_content_ne kept
    · rw [insert_cons_of_content_ne h]
      by_cases gone : e.1.content = .string other
      · rw [erase_cons_of_content gone, erase_cons_of_content gone, ih]
      · rw [erase_cons_of_content_ne gone, erase_cons_of_content_ne gone, ih,
          insert_cons_of_content_ne h]

theorem eraseAll_insert_of_not_mem (d : Dict) {name : String} {others : List String}
    (differ : name ∉ others) (v : Value) :
    eraseAll (insert d (.string name) v) others = insert (eraseAll d others) (.string name) v := by
  induction others generalizing d with
  | nil => rfl
  | cons other others ih =>
    rw [List.mem_cons, not_or] at differ
    have first := erase_insert_of_ne d differ.1 v
    exact (congrArg (eraseAll · others) first).trans (ih (erase d (.string other)) differ.2)

/-- What was written under a new text is taken back by removal of the text. -/
theorem erase_insert_self_of_absent {d : Dict} {name : String}
    (absent : get? d (.string name) = none) (v : Value) :
    erase (insert d (.string name) v) (.string name) = d := by
  have kept := erase_of_absent absent
  simp only [erase] at kept
  rw [insert_of_absent absent, erase, List.filter_append, kept]
  simp [Value.alike_string, Value.content]

theorem mem_of_mem_erase {d : Dict} {key : Value} {e : Value × Value} (h : e ∈ erase d key) :
    e ∈ d :=
  (List.mem_filter.1 h).1

/-! ### Copies -/

theorem get?_copiedEntries (occasion : Option Nat) (d : Dict) (name : String) :
    get? (Value.copiedEntries occasion d) (.string name) =
      (get? d (.string name)).map (Value.copied occasion) := by
  induction d with
  | nil => rfl
  | cons e d ih =>
    obtain ⟨key, v⟩ := e
    by_cases h : key.content = .string name
    · have copy : (Value.copied occasion key).content = .string name :=
        Value.content_copied_eq_string.2 h
      rw [Value.copiedEntries, get?_of_content copy, get?_of_content h, Option.map_some]
    · have copy : (Value.copied occasion key).content ≠ .string name :=
        mt Value.content_copied_eq_string.1 h
      rw [Value.copiedEntries, get?_of_content_ne copy, get?_of_content_ne h, ih]

theorem mem_copiedEntries {occasion : Option Nat} {d : Dict} {e : Value × Value}
    (h : e ∈ Value.copiedEntries occasion d) :
    ∃ f ∈ d, e = (Value.copied occasion f.1, Value.copied occasion f.2) := by
  induction d with
  | nil => simp [Value.copiedEntries] at h
  | cons f d ih =>
    obtain ⟨key, v⟩ := f
    rw [Value.copiedEntries, List.mem_cons] at h
    rcases h with rfl | h
    · exact ⟨(key, v), List.mem_cons_self .., rfl⟩
    · obtain ⟨g, hg, he⟩ := ih h
      exact ⟨g, List.mem_cons_of_mem _ hg, he⟩

theorem key_of_mem_copiedEntries {occasion : Option Nat} {d : Dict} {e : Value × Value}
    (h : e ∈ Value.copiedEntries occasion d) : ∃ f ∈ d, e.1 = Value.copied occasion f.1 := by
  obtain ⟨f, hf, rfl⟩ := mem_copiedEntries h
  exact ⟨f, hf, rfl⟩

/-! ### Entries under texts -/

theorem ofFields_cons (field : String × Value) (fields : List (String × Value)) :
    ofFields (field :: fields) = (.string field.1, field.2) :: ofFields fields := rfl

theorem copiedEntries_ofFields (occasion : Option Nat) (fields : List (String × Value)) :
    Value.copiedEntries occasion (ofFields fields) =
      ofFields (fields.map fun field => (field.1, Value.copied occasion field.2)) := by
  induction fields with
  | nil => rfl
  | cons field fields ih =>
    rw [ofFields_cons, Value.copiedEntries, ih, Value.copied_string]
    rfl

theorem get?_ofFields (fields : List (String × Value)) (name : String) :
    get? (ofFields fields) (.string name) = fields.lookup name := by
  induction fields with
  | nil => rfl
  | cons field fields ih =>
    obtain ⟨other, v⟩ := field
    rw [ofFields_cons, List.lookup_cons]
    by_cases h : name = other
    · subst h
      rw [get?_of_content rfl, beq_self_eq_true]
    · have unlike : (Value.string other).content ≠ .string name := by
        simpa [Value.content] using Ne.symm h
      rw [get?_of_content_ne unlike, ih, beq_eq_false_iff_ne.2 h]

/-- Entries under texts are found under values that are texts, and under no others. -/
theorem get?_ofFields_value (fields : List (String × Value)) (key : Value) :
    get? (ofFields fields) key = match key.content with
      | .string s => fields.lookup s
      | _ => none := by
  induction fields with
  | nil => cases key.content <;> rfl
  | cons field fields ih =>
    obtain ⟨other, v⟩ := field
    rw [ofFields_cons, get?_cons, ih]
    by_cases h : key.content = .string other
    · rw [if_pos (Value.alike_text.2 h), h]
      simp
    · rw [if_neg (mt Value.alike_text.1 h)]
      split
      · rename_i s eq
        have differ : s ≠ other := fun same => h (same ▸ eq)
        rw [List.lookup_cons, beq_eq_false_iff_ne.2 differ]
      · rfl

theorem get?_merge_of_not_mem (d : Dict) {fields : List (String × Value)} {name : String}
    (other : name ∉ fields.map Prod.fst) :
    get? (merge d (ofFields fields)) (.string name) = get? d (.string name) := by
  induction fields generalizing d with
  | nil => rfl
  | cons field fields ih =>
    rw [List.map_cons, List.mem_cons, not_or] at other
    exact (ih (insert d (.string field.1) field.2) other.2).trans
      (get?_insert_of_ne d (Ne.symm other.1) field.2)

/-- Writing entries under different texts leaves the written value under each of them and what was
there under any other. -/
theorem get?_merge_ofFields (d : Dict) {fields : List (String × Value)}
    (distinct : (fields.map Prod.fst).Nodup) (name : String) :
    get? (merge d (ofFields fields)) (.string name) =
      (fields.lookup name).or (get? d (.string name)) := by
  induction fields generalizing d with
  | nil => rfl
  | cons field fields ih =>
    obtain ⟨other, v⟩ := field
    rw [List.map_cons, List.nodup_cons] at distinct
    have step : merge d (ofFields ((other, v) :: fields)) =
        merge (insert d (.string other) v) (ofFields fields) := rfl
    rw [step, List.lookup_cons]
    by_cases h : name = other
    · subst h
      rw [get?_merge_of_not_mem _ distinct.1, get?_insert_self, beq_self_eq_true, Option.some_or]
    · rw [ih _ distinct.2, get?_insert_of_ne d (Ne.symm h), beq_eq_false_iff_ne.2 h]

end Dict

theorem Value.field?_copied (occasion : Option Nat) (v : Value) (key : String) :
    (copied occasion v).field? key = (v.field? key).map (copied occasion) := by
  obtain ⟨id, c⟩ := v
  cases c with
  | dict d =>
    rw [copied]
    exact Dict.get?_copiedEntries occasion d key
  | _ => rfl

end ChartTree
