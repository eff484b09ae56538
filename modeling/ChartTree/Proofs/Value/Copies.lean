import ChartTree.Proofs.Value.Objects

/-!
# Copies of copies, and release

A copy that was made on no occasion has lost all identities but those of what is its own copy, and
so it does not matter whether it was made of the original or of another copy. A copy that was made
on an occasion comes to the same when its identities are released. What is written in a copy under
a text, once released, is what would have been written in the released one.
-/

namespace ChartTree

/-! ### Copies of copies -/

namespace Value

variable (occasion : Option Nat)

mutual

theorem isOwnCopy_copied : ∀ v : Value, isOwnCopy (copied occasion v) = isOwnCopy v
  | ⟨_, .tuple items⟩ => by rw [copied, isOwnCopy, isOwnCopy, areOwnCopies_copiedItems items]
  | ⟨_, .list items⟩ => by rw [copied, isOwnCopy, isOwnCopy] <;> simp
  | ⟨_, .dict entries⟩ => by rw [copied, isOwnCopy, isOwnCopy] <;> simp
  | ⟨_, .reference url values options⟩ => by rw [copied, isOwnCopy, isOwnCopy] <;> simp
  | ⟨_, .null⟩ | ⟨_, .bool _⟩ | ⟨_, .int _⟩ | ⟨_, .float _⟩ | ⟨_, .decimal _⟩ | ⟨_, .string _⟩
  | ⟨_, .bytes _⟩ | ⟨_, .date _⟩ | ⟨_, .time _⟩ | ⟨_, .datetime _⟩ | ⟨_, .duration _⟩
  | ⟨_, .uuid _⟩ | ⟨_, .node _⟩ => rfl
termination_by structural v => v

theorem areOwnCopies_copiedItems :
    ∀ vs : List Value, areOwnCopies (copiedItems occasion vs) = areOwnCopies vs
  | [] => rfl
  | v :: vs => by
    rw [copiedItems, areOwnCopies, areOwnCopies, isOwnCopy_copied v, areOwnCopies_copiedItems vs]
termination_by structural vs => vs

end

theorem identity?_copied (v : Value) : (copied occasion v).identity? = copyIdentity occasion v := by
  obtain ⟨id, content⟩ := v
  cases content <;> rw [copied] <;> first | rfl | simp

/-- Copied on no occasion, only what is its own copy keeps its identity. -/
theorem copyIdentity_none (v : Value) :
    copyIdentity none v = if v.isOwnCopy then v.identity? else none := by
  rw [copyIdentity]
  cases v.identity? <;> rfl

/-- The copy of a copy has lost no more identities than the copy of the original. -/
theorem copyIdentity_copied (v : Value) :
    copyIdentity none (copied occasion v) = copyIdentity none v := by
  rw [copyIdentity_none, copyIdentity_none, isOwnCopy_copied, identity?_copied, copyIdentity]
  cases v.isOwnCopy <;> rfl

mutual

theorem copied_copied : ∀ v : Value, copied none (copied occasion v) = copied none v
  | ⟨id, .list items⟩ => by
    have same := copyIdentity_copied occasion ⟨id, .list items⟩
    rw [copied] at same ⊢
    rw [copied, copied, same, copiedItems_copiedItems items]
  | ⟨id, .tuple items⟩ => by
    have same := copyIdentity_copied occasion ⟨id, .tuple items⟩
    rw [copied] at same ⊢
    rw [copied, copied, same, copiedItems_copiedItems items]
  | ⟨id, .dict entries⟩ => by
    have same := copyIdentity_copied occasion ⟨id, .dict entries⟩
    rw [copied] at same ⊢
    rw [copied, copied, same, copiedEntries_copiedEntries entries]
  | ⟨id, .reference url values options⟩ => by
    have same := copyIdentity_copied occasion ⟨id, .reference url values options⟩
    rw [copied] at same ⊢
    rw [copied, copied, same, copied_copied url, copied_copied values, copied_copied options]
  | ⟨_, .null⟩ | ⟨_, .bool _⟩ | ⟨_, .int _⟩ | ⟨_, .float _⟩ | ⟨_, .decimal _⟩ | ⟨_, .string _⟩
  | ⟨_, .bytes _⟩ => rfl
  | ⟨id, .date d⟩ => congrArg (mk · (.date d)) (copyIdentity_copied occasion ⟨id, .date d⟩)
  | ⟨id, .time t⟩ => congrArg (mk · (.time t)) (copyIdentity_copied occasion ⟨id, .time t⟩)
  | ⟨id, .datetime d⟩ =>
    congrArg (mk · (.datetime d)) (copyIdentity_copied occasion ⟨id, .datetime d⟩)
  | ⟨id, .duration d⟩ =>
    congrArg (mk · (.duration d)) (copyIdentity_copied occasion ⟨id, .duration d⟩)
  | ⟨id, .uuid u⟩ => congrArg (mk · (.uuid u)) (copyIdentity_copied occasion ⟨id, .uuid u⟩)
  | ⟨id, .node kind⟩ => congrArg (mk · (.node kind)) (copyIdentity_copied occasion ⟨id, .node kind⟩)
termination_by structural v => v

theorem copiedItems_copiedItems :
    ∀ vs : List Value, copiedItems none (copiedItems occasion vs) = copiedItems none vs
  | [] => rfl
  | v :: vs => by
    rw [copiedItems, copiedItems, copiedItems, copied_copied v, copiedItems_copiedItems vs]
termination_by structural vs => vs

theorem copiedEntries_copiedEntries : ∀ es : List (Value × Value),
    copiedEntries none (copiedEntries occasion es) = copiedEntries none es
  | [] => rfl
  | (key, value) :: es => by
    rw [copiedEntries, copiedEntries, copiedEntries, copied_copied key, copied_copied value,
      copiedEntries_copiedEntries es]
termination_by structural es => es

end

end Value

/-! ### Release -/

namespace Value

theorem releasedItems_eq_map (occasion : Nat) (vs : List Value) :
    releasedItems occasion vs = vs.map (released occasion) := by
  induction vs with
  | nil => rfl
  | cons v vs ih => rw [releasedItems, ih, List.map_cons]

theorem releasedEntries_eq_map (occasion : Nat) (es : List (Value × Value)) :
    releasedEntries occasion es =
      es.map fun e => (released occasion e.1, released occasion e.2) := by
  induction es with
  | nil => rfl
  | cons e es ih => rw [releasedEntries, ih, List.map_cons]

theorem released_scalar {id : Option Identity} {content : Content Value}
    (scalar : content.isScalar = true) (occasion : Nat) :
    released occasion ⟨id, content⟩ = ⟨releasedIdentity occasion ⟨id, content⟩, content⟩ := by
  cases content <;> first | rfl | cases scalar

variable {occasion : Option Nat} {k : Nat}

/-- Copies that were made on no occasion, or on the one of the release, lose their identities. -/
theorem releasedIdentity_copied (made : ∀ j ∈ occasion, j = k) (v : Value) :
    releasedIdentity k (copied occasion v) = copyIdentity none v := by
  rw [releasedIdentity, isOwnCopy_copied, identity?_copied, copyIdentity_none, copyIdentity]
  cases v.isOwnCopy with
  | true => rfl
  | false =>
    cases v.identity? with
    | none => rfl
    | some source =>
      cases occasion with
      | none => rfl
      | some j =>
        have same : j = k := made j rfl
        subst same
        simp [Option.filter]

/-- A released copy is a copy that was made on no occasion. -/
theorem released_copied (made : ∀ j ∈ occasion, j = k) (v : Value) :
    released k (copied occasion v) = copied none v := by
  have same := releasedIdentity_copied made
  induction v using induction with
  | list id items ih =>
    have here := same ⟨id, .list items⟩
    rw [copied] at here ⊢
    rw [released, here, copied, copiedItems_eq_map, copiedItems_eq_map, releasedItems_eq_map,
      List.map_map]
    exact congrArg (mk _ <| .list ·) (List.map_congr_left ih)
  | tuple id items ih =>
    have here := same ⟨id, .tuple items⟩
    rw [copied] at here ⊢
    rw [released, here, copied, copiedItems_eq_map, copiedItems_eq_map, releasedItems_eq_map,
      List.map_map]
    exact congrArg (mk _ <| .tuple ·) (List.map_congr_left ih)
  | dict id entries ih =>
    have here := same ⟨id, .dict entries⟩
    rw [copied] at here ⊢
    rw [released, here, copied, copiedEntries_eq_map, copiedEntries_eq_map, releasedEntries_eq_map,
      List.map_map]
    exact congrArg (mk _ <| .dict ·) (List.map_congr_left fun e he =>
      Prod.ext (ih e he).1 (ih e he).2)
  | reference id url values options ihu ihv iho =>
    have here := same ⟨id, .reference url values options⟩
    rw [copied] at here ⊢
    rw [released, here, copied, ihu, ihv, iho]
  | scalar id content scalar =>
    have here := same ⟨id, content⟩
    rw [copied_scalar scalar] at here ⊢
    rw [released_scalar scalar, here, copied_scalar scalar]

theorem released_of_isText {v : Value} (text : v.IsText) (k : Nat) : released k v = v := by
  obtain ⟨s, content⟩ := text
  obtain ⟨id, c⟩ := v
  cases content
  rfl

theorem releasedIdentity_of_none {v : Value} (h : v.identity? = none) (k : Nat) :
    releasedIdentity k v = none := by
  rw [releasedIdentity, h]
  split <;> rfl

theorem released_dict (k : Nat) (entries : Dict) :
    released k (.dict entries) = .dict (releasedEntries k entries) := by
  have none := releasedIdentity_of_none (v := .dict entries) rfl k
  rw [released]
  exact congrArg (mk · (.dict (releasedEntries k entries))) none

theorem released_list (k : Nat) (items : List Value) :
    released k (.list items) = .list (releasedItems k items) := by
  have none := releasedIdentity_of_none (v := .list items) rfl k
  rw [released]
  exact congrArg (mk · (.list (releasedItems k items))) none

theorem identity?_released (v : Value) : (released k v).identity? = releasedIdentity k v := by
  obtain ⟨id, c⟩ := v
  cases c <;> rw [released] <;> first | rfl | simp

theorem content_released_eq_string {v : Value} {s : String} :
    (released k v).content = .string s ↔ v.content = .string s := by
  obtain ⟨id, c⟩ := v
  cases c <;> simp [released, content]

theorem isNull_released (v : Value) : (released k v).isNull = v.isNull := by
  obtain ⟨id, c⟩ := v
  cases c <;> rfl

end Value

namespace Dict

variable {k : Nat}

theorem get?_releasedEntries (d : Dict) (name : String) :
    get? (Value.releasedEntries k d) (.string name) =
      (get? d (.string name)).map (Value.released k) := by
  induction d with
  | nil => rfl
  | cons e d ih =>
    obtain ⟨key, v⟩ := e
    by_cases here : key.content = .string name
    · have after := Value.content_released_eq_string (k := k) |>.2 here
      rw [Value.releasedEntries, get?_of_content after, get?_of_content here, Option.map_some]
    · have after := mt (Value.content_released_eq_string (k := k)).1 here
      rw [Value.releasedEntries, get?_of_content_ne after, get?_of_content_ne here, ih]

/-- Under keys that are texts everything is found as before the release. -/
theorem get?_releasedEntries_of_texts {d : Dict} (texts : ∀ e ∈ d, e.1.IsText) (key : Value) :
    get? (Value.releasedEntries k d) key = (get? d key).map (Value.released k) := by
  induction d with
  | nil => rfl
  | cons e d ih =>
    obtain ⟨text, rest⟩ := List.forall_mem_cons.1 texts
    obtain ⟨name, v⟩ := e
    rw [Value.releasedEntries, Value.released_of_isText text, get?_cons, get?_cons, ih rest]
    split <;> rfl

theorem releasedEntries_insert_of_texts {d : Dict} (texts : ∀ e ∈ d, e.1.IsText) {key : Value}
    (text : key.IsText) (v : Value) : Value.releasedEntries k (insert d key v) =
      insert (Value.releasedEntries k d) key (Value.released k v) := by
  induction d with
  | nil =>
    show [(Value.released k key, Value.released k v)] = [(key, Value.released k v)]
    rw [Value.released_of_isText text]
  | cons e d ih =>
    obtain ⟨here, rest⟩ := List.forall_mem_cons.1 texts
    obtain ⟨name, w⟩ := e
    rw [insert, Value.releasedEntries, Value.released_of_isText here, insert]
    split
    · rw [Value.releasedEntries, Value.released_of_isText here]
    · rw [Value.releasedEntries, Value.released_of_isText here, ih rest]

theorem releasedEntries_insert (d : Dict) (name : String) (v : Value) :
    Value.releasedEntries k (insert d (.string name) v) =
      insert (Value.releasedEntries k d) (.string name) (Value.released k v) := by
  induction d with
  | nil => rfl
  | cons e d ih =>
    obtain ⟨key, w⟩ := e
    by_cases here : key.content = .string name
    · have after := Value.content_released_eq_string (k := k) |>.2 here
      rw [insert_cons_of_content here, Value.releasedEntries, Value.releasedEntries,
        insert_cons_of_content after]
    · have after := mt (Value.content_released_eq_string (k := k)).1 here
      rw [insert_cons_of_content_ne here, Value.releasedEntries, Value.releasedEntries,
        insert_cons_of_content_ne after, ih]

theorem releasedEntries_erase (d : Dict) (name : String) :
    Value.releasedEntries k (erase d (.string name)) =
      erase (Value.releasedEntries k d) (.string name) := by
  induction d with
  | nil => rfl
  | cons e d ih =>
    obtain ⟨key, w⟩ := e
    by_cases here : key.content = .string name
    · have after := Value.content_released_eq_string (k := k) |>.2 here
      rw [erase_cons_of_content here, ih, Value.releasedEntries, erase_cons_of_content after]
    · have after := mt (Value.content_released_eq_string (k := k)).1 here
      rw [erase_cons_of_content_ne here, Value.releasedEntries, Value.releasedEntries,
        erase_cons_of_content_ne after, ih]

end Dict

/-- An entry that is written in a value, once released, is written in the released value. -/
theorem Value.withEntry_released (k : Nat) (v : Value) (name : String) (new : Value) :
    (released k v).withEntry (.string name) (released k new) =
      (v.withEntry (.string name) new).map (released k) := by
  obtain ⟨id, c⟩ := v
  cases c with
  | dict d =>
    have own : releasedIdentity k ⟨id, .dict (Dict.insert d (.string name) new)⟩ =
        releasedIdentity k ⟨id, .dict d⟩ := rfl
    simp only [released]
    show Except.ok _ = Except.ok _
    rw [released, own, Dict.releasedEntries_insert]
  | list items =>
    simp only [released]
    rfl
  | _ => rfl

end ChartTree
