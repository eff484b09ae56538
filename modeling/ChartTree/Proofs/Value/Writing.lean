import ChartTree.Proofs.Value.Objects

/-!
# Writes and the objects of a value

Whatever is read from a sorted value is sorted, and a sorted value with something sorted written
into it, or taken out of it, is sorted. A write goes through objects in which it can change
something, down to a list or a dictionary, and all of these are among what it reports as changed.
-/

namespace ChartTree

variable {P : Rule}

/-! ### Entries -/

namespace Dict

variable {d : Dict}

theorem Sorted.insert (h : d.Sorted P) {key v : Value} (hkey : key.Sorted P) (hv : v.Sorted P) :
    (Dict.insert d key v).Sorted P := by
  induction d with
  | nil => exact List.forall_mem_singleton.2 ⟨hkey, hv⟩
  | cons e d ih =>
    obtain ⟨first, rest⟩ := List.forall_mem_cons.1 h
    rw [Dict.insert]
    split
    · exact List.forall_mem_cons.2 ⟨⟨first.1, hv⟩, rest⟩
    · exact List.forall_mem_cons.2 ⟨first, ih rest⟩

/-- Under a key that is there, the key of the entry stays. -/
theorem Sorted.insert_of_found (h : d.Sorted P) {key v w : Value} (found : Dict.get? d key = some w)
    (hv : v.Sorted P) : (Dict.insert d key v).Sorted P := by
  induction d with
  | nil => cases found
  | cons e d ih =>
    obtain ⟨first, rest⟩ := List.forall_mem_cons.1 h
    rw [get?_cons] at found
    rw [Dict.insert]
    split at found
    · rename_i alike
      rw [if_pos alike]
      exact List.forall_mem_cons.2 ⟨⟨first.1, hv⟩, rest⟩
    · rename_i other
      rw [if_neg other]
      exact List.forall_mem_cons.2 ⟨first, ih rest found⟩

theorem Sorted.erase (h : d.Sorted P) (key : Value) : (Dict.erase d key).Sorted P :=
  fun e he => h e (mem_of_mem_erase he)

theorem Sorted.merge {entries : Dict} (h : d.Sorted P) (hentries : entries.Sorted P) :
    (Dict.merge d entries).Sorted P := by
  induction entries generalizing d with
  | nil => exact h
  | cons e entries ih =>
    obtain ⟨first, rest⟩ := List.forall_mem_cons.1 hentries
    exact ih (h.insert first.1 first.2) rest

theorem sorted_ofFields {fields : List (String × Value)} (h : ∀ f ∈ fields, f.2.Sorted P) :
    (Dict.ofFields fields).Sorted P :=
  List.forall_mem_map.2 fun f hf => ⟨Value.sorted_string f.1, h f hf⟩

theorem Sorted.get? (h : d.Sorted P) {key v : Value} (found : Dict.get? d key = some v) :
    v.Sorted P := by
  obtain ⟨e, he, rfl⟩ := Option.map_eq_some_iff.1 found
  exact (h e (List.mem_of_find?_eq_some he)).2

theorem get?_insert_of_isSome {key v w : Value} (found : Dict.get? d key = some w) :
    Dict.get? (Dict.insert d key v) key = some v := by
  induction d with
  | nil => cases found
  | cons e d ih =>
    rw [get?_cons] at found
    rw [Dict.insert]
    split at found
    · rename_i alike
      rw [if_pos alike, get?_cons, if_pos alike]
    · rename_i other
      rw [if_neg other, get?_cons, if_neg other]
      exact ih found

end Dict

namespace Value

/-! ### Parts -/

theorem sorted_characters (s : String) : ∀ v ∈ characters s, v.Sorted P ∧ v.changes = false := by
  intro v hv
  obtain ⟨c, _, rfl⟩ := List.mem_map.1 hv
  exact ⟨sorted_string _, rfl⟩

theorem sorted_byteNumbers (bytes : List UInt8) :
    ∀ v ∈ byteNumbers bytes, v.Sorted P ∧ v.changes = false := by
  intro v hv
  obtain ⟨b, _, rfl⟩ := List.mem_map.1 hv
  exact ⟨fun _ none => (nomatch none), rfl⟩

theorem Sorted.itemsOf {v : Value} (h : v.Sorted P) {items : List Value}
    (given : v.itemsOf = .ok items) : ∀ w ∈ items, w.Sorted P := by
  obtain ⟨id, content⟩ := v
  cases content <;> cases given
  case list => exact (sorted_list.1 h).2
  case tuple => exact (sorted_tuple.1 h).2
  case dict entries =>
    exact List.forall_mem_map.2 fun e he => ((sorted_dict.1 h).2 e he).1
  case string s => exact fun w hw => (sorted_characters s w hw).1
  case bytes bytes => exact fun w hw => (sorted_byteNumbers bytes w hw).1

theorem Within.itemsOf {v : Value} (h : v.Within P) {items : List Value}
    (given : v.itemsOf = .ok items) : ∀ w ∈ items, w.Within P := by
  intro w hw i hi
  obtain ⟨id, content⟩ := v
  cases content <;> cases given
  case list => exact h i (List.mem_append_right _ (mem_idsOfItems.2 ⟨w, hw, hi⟩))
  case tuple => exact h i (List.mem_append_right _ (mem_idsOfItems.2 ⟨w, hw, hi⟩))
  case dict entries =>
    obtain ⟨e, he, rfl⟩ := List.mem_map.1 hw
    exact h i (List.mem_append_right _ (mem_idsOfEntries.2 ⟨e, he, .inl hi⟩))
  case string s =>
    obtain ⟨c, _, rfl⟩ := List.mem_map.1 hw
    exact (List.not_mem_nil hi).elim
  case bytes bytes =>
    obtain ⟨b, _, rfl⟩ := List.mem_map.1 hw
    exact (List.not_mem_nil hi).elim

theorem position_ok {kind : SequenceKind} {beyond : Misuse} {length : Nat} {key : Value}
    {place : Nat} (h : position kind beyond length key = .ok place) :
    position? length key = some place := by
  rw [position] at h
  split at h
  · cases h
  · split at h
    · cases h
    · cases h
    · rename_i found
      cases h
      exact found

theorem itemAt_ok_iff {kind : SequenceKind} {items : List Value} {key w : Value} :
    itemAt kind items key = .ok w ↔ ∃ place,
      position kind (.beyond kind) items.length key = .ok place ∧ items[place]? = some w := by
  rw [itemAt]
  cases position kind (.beyond kind) items.length key with
  | error reason => simp [bind, Except.bind]
  | ok place =>
    simp only [bind, Except.bind, Except.ok.injEq, exists_eq_left']
    cases items[place]? with
    | none => exact ⟨fun h => (nomatch h), fun h => (nomatch h)⟩
    | some v => exact ⟨fun h => congrArg some (Except.ok.inj h), fun h =>
        congrArg Except.ok (Option.some.inj h)⟩

theorem lookUp?_ok_iff {d : Dict} {key : Value} {found : Option Value} :
    Dict.lookUp? d key = .ok found ↔ key.lookable = .ok () ∧ Dict.get? d key = found := by
  rw [Dict.lookUp?]
  cases key.lookable with
  | error reason =>
    constructor
    · intro h
      cases h
    · rintro ⟨⟨⟩, _⟩
  | ok _ =>
    constructor
    · intro h
      cases h
      exact ⟨rfl, rfl⟩
    · rintro ⟨_, rfl⟩
      rfl

theorem entryAt_dict {id : Option Identity} {d : Dict} {key w : Value} :
    entryAt ⟨id, .dict d⟩ key = .ok w ↔ key.lookable = .ok () ∧ Dict.get? d key = some w := by
  rw [← lookUp?_ok_iff]
  simp only [entryAt, content]
  cases Dict.lookUp? d key with
  | error reason => simp [bind, Except.bind]
  | ok found =>
    cases found with
    | none => simp [bind, Except.bind]
    | some v => exact ⟨fun h => congrArg (Except.ok ∘ some) (Except.ok.inj h),
        fun h => congrArg Except.ok (Option.some.inj (Except.ok.inj h))⟩

theorem itemAt_set {kind : SequenceKind} {items : List Value} {key w : Value}
    (found : itemAt kind items key = .ok w) (part : Value) : ∃ place,
      position? items.length key = some place ∧ w ∈ items ∧
        itemAt kind (items.set place part) key = .ok part ∧ part ∈ items.set place part := by
  obtain ⟨place, position, here⟩ := itemAt_ok_iff.1 found
  obtain ⟨lt, _⟩ := List.getElem?_eq_some_iff.1 here
  have new : (items.set place part)[place]? = some part := by
    rw [List.getElem?_set_self lt]
  refine ⟨place, position_ok position, List.mem_of_getElem? here, itemAt_ok_iff.2 ⟨place, ?_, new⟩,
    List.mem_of_getElem? new⟩
  rw [List.length_set]
  exact position

theorem Sorted.entryAt {v key w : Value} (h : v.Sorted P) (found : v.entryAt key = .ok w) :
    w.Sorted P := by
  obtain ⟨id, content⟩ := v
  cases content <;> try cases found
  case dict d => exact (sorted_dict.1 h).2.get? (entryAt_dict.1 found).2
  case list items =>
    obtain ⟨_, _, mem, _⟩ := itemAt_set found .null
    exact (sorted_list.1 h).2 w mem
  case tuple items =>
    obtain ⟨_, _, mem, _⟩ := itemAt_set found .null
    exact (sorted_tuple.1 h).2 w mem
  case string s =>
    obtain ⟨_, _, mem, _⟩ := itemAt_set found .null
    exact (sorted_characters s w mem).1
  case bytes bytes =>
    obtain ⟨_, _, mem, _⟩ := itemAt_set found .null
    exact (sorted_byteNumbers bytes w mem).1

theorem Sorted.partAt {v part : Value} (h : v.Sorted P) {path : List Value}
    (leads : v.partAt path = .ok part) : part.Sorted P := by
  induction path generalizing v with
  | nil =>
    cases leads
    exact h
  | cons key path ih =>
    rw [Value.partAt, List.foldlM_cons] at leads
    obtain ⟨w, found, leads⟩ := bind_eq_ok_iff.1 leads
    exact ih (h.entryAt found) leads

theorem sorted_set {items : List Value} {place : Nat} {part : Value}
    (h : ∀ w ∈ items, w.Sorted P) (hpart : part.Sorted P) :
    ∀ w ∈ items.set place part, w.Sorted P := by
  intro w hw
  rcases List.mem_or_eq_of_mem_set hw with old | rfl
  · exact h w old
  · exact hpart

/-- A value with a part changed that a write can change is sorted, the part is found in it, and a
write can change something in it as before. -/
theorem Sorted.withPart {v key w part : Value} (h : v.Sorted P) (found : v.entryAt key = .ok w)
    (change : w.changes = true) (hpart : part.Sorted P) (change' : part.changes = true) :
    v.changes = true ∧ (withPart v key part).Sorted P ∧ (Value.withPart v key part).changes = true ∧
      (Value.withPart v key part).entryAt key = .ok part := by
  obtain ⟨id, content⟩ := v
  cases content <;> try cases found
  case dict d =>
    obtain ⟨lookable, here⟩ := entryAt_dict.1 found
    obtain ⟨own, entries⟩ := sorted_dict.1 h
    exact ⟨rfl, sorted_dict.2 ⟨own, entries.insert_of_found here hpart⟩, rfl,
      entryAt_dict.2 ⟨lookable, Dict.get?_insert_of_isSome here⟩⟩
  case list items =>
    obtain ⟨place, position, mem, there, _⟩ := itemAt_set found part
    obtain ⟨own, parts⟩ := sorted_list.1 h
    rw [Value.withPart, position]
    exact ⟨rfl, sorted_list.2 ⟨own, sorted_set parts hpart⟩, rfl, there⟩
  case tuple items =>
    obtain ⟨place, position, mem, there, among⟩ := itemAt_set found part
    obtain ⟨own, parts⟩ := sorted_tuple.1 h
    have before : someChange items = true := someChange_eq_true.2 ⟨w, mem, change⟩
    have after : someChange (items.set place part) = true :=
      someChange_eq_true.2 ⟨part, among, change'⟩
    rw [Value.withPart, position]
    refine ⟨before, sorted_tuple.2 ⟨?_, sorted_set parts hpart⟩, after, there⟩
    rw [after]
    rwa [before] at own
  case string s =>
    obtain ⟨_, _, mem, _⟩ := itemAt_set found .null
    cases change.symm.trans (sorted_characters (P := P) s w mem).2
  case bytes bytes =>
    obtain ⟨_, _, mem, _⟩ := itemAt_set found .null
    cases change.symm.trans (sorted_byteNumbers (P := P) bytes w mem).2

/-! ### Changes -/

/-- A change of sorted values in which a write can change something to such values. -/
def Writes (P : Rule) (change : Value → Except Misuse Value) : Prop :=
  ∀ v w, v.Sorted P → change v = .ok w → v.changes = true ∧ w.Sorted P ∧ w.changes = true

theorem writes_withEntry {key new : Value} (hkey : key.Sorted P) (hnew : new.Sorted P) :
    Writes P fun v => withEntry v key new := by
  intro v w h done
  obtain ⟨id, content⟩ := v
  cases content
  case dict d =>
    obtain ⟨own, entries⟩ := sorted_dict.1 h
    obtain ⟨_, _, done⟩ := bind_eq_ok_iff.1 done
    cases done
    exact ⟨rfl, sorted_dict.2 ⟨own, entries.insert hkey hnew⟩, rfl⟩
  case list items =>
    obtain ⟨own, parts⟩ := sorted_list.1 h
    obtain ⟨place, _, done⟩ := bind_eq_ok_iff.1 done
    cases done
    exact ⟨rfl, sorted_list.2 ⟨own, sorted_set parts hnew⟩, rfl⟩
  all_goals
    simp only [withEntry] at done
    split at done <;> cases done

theorem writes_withoutEntry (key : Value) : Writes P fun v => withoutEntry v key := by
  intro v w h done
  obtain ⟨id, content⟩ := v
  cases content
  case dict d =>
    obtain ⟨own, entries⟩ := sorted_dict.1 h
    obtain ⟨there, _, done⟩ := bind_eq_ok_iff.1 done
    cases there with
    | none => cases done
    | some v =>
      cases done
      exact ⟨rfl, sorted_dict.2 ⟨own, entries.erase key⟩, rfl⟩
  case list items =>
    obtain ⟨own, parts⟩ := sorted_list.1 h
    obtain ⟨place, _, done⟩ := bind_eq_ok_iff.1 done
    cases done
    exact ⟨rfl, sorted_list.2 ⟨own, fun w hw => parts w (List.mem_of_mem_eraseIdx hw)⟩, rfl⟩
  all_goals
    simp only [withoutEntry] at done
    split at done
    · cases done
    · split at done <;> cases done

theorem Sorted.withoutName {v w : Value} (h : v.Sorted P) {name : String}
    (done : v.withoutName name = .ok w) : w.Sorted P := by
  obtain ⟨id, content⟩ := v
  cases content <;> cases done
  case dict d =>
    obtain ⟨own, entries⟩ := sorted_dict.1 h
    exact sorted_dict.2 ⟨own, entries.erase _⟩

/-- A change of what a path leads to goes through objects in which a write can change something, and
these are what it has changed. -/
theorem Sorted.changeAt {change : Value → Except Misuse Value} (path : List Value) {v w : Value}
    (h : v.Sorted P) (writes : ∀ part part', v.partAt path = .ok part → part.Sorted P →
      change part = .ok part' → part.changes = true ∧ part'.Sorted P ∧ part'.changes = true)
    (done : changeAt change path v = .ok w) :
    (v.changes = true ∧ w.Sorted P ∧ w.changes = true) ∧
      ∀ object ∈ objectsAlong path w, object.Sorted P ∧ object.changes = true := by
  induction path generalizing v w with
  | nil =>
    have changed := writes v w rfl h done
    exact ⟨changed, List.forall_mem_singleton.2 changed.2⟩
  | cons key path ih =>
    rw [Value.changeAt] at done
    obtain ⟨part, found, done⟩ := bind_eq_ok_iff.1 done
    obtain ⟨part', changed, done⟩ := bind_eq_ok_iff.1 done
    cases done
    have writes' (u u' : Value) (leads : part.partAt path = .ok u) :=
      writes u u' (by rw [Value.partAt, List.foldlM_cons, found]; exact leads)
    obtain ⟨⟨change, sorted, change'⟩, along⟩ := ih (h.entryAt found) writes' changed
    obtain ⟨here, whole, here', there⟩ := h.withPart found change sorted change'
    rw [objectsAlong, there]
    exact ⟨⟨here, whole, here'⟩, List.forall_mem_cons.2 ⟨⟨whole, here'⟩, along⟩⟩

theorem Writes.changeAt {change : Value → Except Misuse Value} (writes : Writes P change)
    (path : List Value) {v w : Value} (h : v.Sorted P) (done : changeAt change path v = .ok w) :
    (v.changes = true ∧ w.Sorted P ∧ w.changes = true) ∧
      ∀ object ∈ objectsAlong path w, object.Sorted P ∧ object.changes = true :=
  h.changeAt path (fun part part' _ => writes part part') done

theorem objectsAlong_dropLast (path : List Value) (v : Value) :
    objectsAlong path.dropLast v ⊆ objectsAlong path v := by
  induction path generalizing v with
  | nil => exact List.Subset.refl _
  | cons key path ih =>
    have here : v ∈ objectsAlong (key :: path) v := by
      rw [objectsAlong]
      split <;> exact List.mem_cons_self ..
    cases path with
    | nil => exact List.forall_mem_singleton.2 here
    | cons next path =>
      rw [List.dropLast_cons_cons, objectsAlong, objectsAlong]
      split
      · exact List.cons_subset_cons v (ih _)
      · exact List.Subset.refl _

/-- What a change at the end of a path leaves behind, and all objects that it has changed. -/
structure Changed (P : Rule) (v : Value) (objects : List Value) : Prop where
  sorted : v.Sorted P
  objects : ∀ object ∈ objects, object.Sorted P ∧ object.changes = true

theorem changedAt_ok {path : List Value} {change : Value → Except Misuse Value} {v : Value}
    {r : Value × List Value} (done : changedAt path change v = .ok r) :
    change v = .ok r.1 ∧ r.2 = objectsAlong path.dropLast r.1 := by
  rw [changedAt] at done
  obtain ⟨w, changed, done⟩ := map_eq_ok_iff.1 done
  cases done
  exact ⟨changed, rfl⟩

variable {path : List Value} {v : Value} {r : Value × List Value}

theorem Sorted.written (h : v.Sorted P) (nonempty : path ≠ []) (hpath : ∀ key ∈ path, key.Sorted P)
    {new : Value} (hnew : new.Sorted P) (done : changedAt path (writeAt path new) v = .ok r) :
    Changed P r.1 r.2 := by
  obtain ⟨changed, objects⟩ := changedAt_ok done
  have last := List.getLast?_eq_some_getLast nonempty
  rw [writeAt, last] at changed
  have writes := writes_withEntry (hpath _ (List.getLast_mem nonempty)) hnew
  obtain ⟨⟨_, sorted, _⟩, along⟩ := writes.changeAt path.dropLast h changed
  exact ⟨sorted, objects ▸ along⟩

theorem Sorted.removed (h : v.Sorted P) (nonempty : path ≠ [])
    (done : changedAt path (removeAt path) v = .ok r) : Changed P r.1 r.2 := by
  obtain ⟨changed, objects⟩ := changedAt_ok done
  have last := List.getLast?_eq_some_getLast nonempty
  rw [removeAt, last] at changed
  have writes := writes_withoutEntry (P := P) (path.getLast nonempty)
  obtain ⟨⟨_, sorted, _⟩, along⟩ := writes.changeAt path.dropLast h changed
  exact ⟨sorted, objects ▸ along⟩

theorem changes_of_isCollection (collection : v.isCollection = true) : v.changes = true := by
  obtain ⟨id, c⟩ := v
  cases c <;> first | rfl | cases collection

theorem Sorted.named (h : v.Sorted P) (changes : v.changes = true) {id : Identity}
    (fits : P id true) : (named id v).changes = true ∧ (Value.named id v).Sorted P := by
  refine ⟨by obtain ⟨_, c⟩ := v; cases c <;> exact changes, ?_⟩
  have own : ∀ i ∈ some id, P i true := fun i same => Option.some.inj same ▸ fits
  obtain ⟨_, c⟩ := v
  cases c with
  | list items => exact sorted_list.2 ⟨own, (sorted_list.1 h).2⟩
  | dict entries => exact sorted_dict.2 ⟨own, (sorted_dict.1 h).2⟩
  | tuple items =>
    have some_changes : someChange items = true := changes
    exact sorted_tuple.2 ⟨some_changes ▸ own, (sorted_tuple.1 h).2⟩
  | _ => cases changes

/-- What an object of a sorted value is called does not matter, as long as the rule sorts the name
like the object. -/
theorem Sorted.namedAt (h : v.Sorted P) {part : Value} (leads : v.partAt path = .ok part)
    (changes : part.changes = true) {id : Identity} (fits : P id true)
    (done : changedAt path (namedAt path id) v = .ok r) : Changed P r.1 r.2 := by
  obtain ⟨changed, objects⟩ := changedAt_ok done
  have writes (u u' : Value) (here : v.partAt path = .ok u) (sorted : u.Sorted P)
      (naming : (.ok (u.named id) : Except Misuse Value) = .ok u') :
      u.changes = true ∧ u'.Sorted P ∧ u'.changes = true := by
    cases leads.symm.trans here
    cases naming
    obtain ⟨changes', sorted'⟩ := sorted.named changes fits
    exact ⟨changes, sorted', changes'⟩
  obtain ⟨⟨_, sorted, _⟩, along⟩ := h.changeAt path writes changed
  exact ⟨sorted, objects ▸ fun object mem => along object (objectsAlong_dropLast path r.1 mem)⟩

/-! ### Renewals -/

theorem Sorted.field? {v w : Value} (h : v.Sorted P) {name : String}
    (held : v.field? name = some w) : w.Sorted P := by
  obtain ⟨id, c⟩ := v
  cases c with
  | dict entries => exact (sorted_dict.1 h).2.get? held
  | _ => cases held

theorem Within.field? {v w : Value} (h : v.Within P) {name : String}
    (held : v.field? name = some w) : w.Within P := by
  obtain ⟨id, c⟩ := v
  cases c with
  | dict entries =>
    obtain ⟨e, he, rfl⟩ := Option.map_eq_some_iff.1 held
    exact ((within_dict.1 h).2 e (List.mem_of_find?_eq_some he)).2
  | _ => cases held

theorem withEntryOf_cases (source : Value) (name : String) (id : Option Identity)
    (entries : Dict) :
    (∃ v, source.field? name = some v ∧ withEntryOf source name ⟨id, .dict entries⟩ =
        ⟨id, .dict (Dict.insert entries (.string name) v)⟩) ∨
      withEntryOf source name ⟨id, .dict entries⟩ =
        ⟨id, .dict (Dict.erase entries (.string name))⟩ ∨
      withEntryOf source name ⟨id, .dict entries⟩ = ⟨id, .dict entries⟩ := by
  obtain ⟨id', c⟩ := source
  cases c with
  | dict others =>
    rw [withEntryOf]
    simp only [content]
    cases held : Dict.get? others (.string name) with
    | none => exact .inr (.inl rfl)
    | some v => exact .inl ⟨v, held, rfl⟩
  | _ => exact .inr (.inr rfl)

section Changing

variable (decides : P.Decides) {object : Identity}

include decides

/-- What has the identity of a changing object is one itself. -/
theorem Sorted.changes_of_mem (changing : P object true) {w : Value} (h : w.Sorted P)
    (same : object ∈ w.identity?) : w.changes = true :=
  decides object _ _ (h.identity object same) changing

/-- The content of an object is put wherever the object stands. -/
theorem Sorted.changing_content {v : Value} (h : v.Sorted P) (changes : v.changes = true)
    (same : object ∈ v.identity?) : Changing P object fun _ => v := by
  have changing : P object true := changes ▸ h.identity object same
  exact ⟨changing, fun w here sorted =>
    ⟨changes.trans (sorted.changes_of_mem decides changing here).symm, h⟩⟩

omit decides in
/-- An entry of a dictionary is brought wherever the dictionary stands. -/
theorem Sorted.changing_entry {source : Value} (h : source.Sorted P)
    (changes : source.changes = true) (same : object ∈ source.identity?) (name : String) :
    Changing P object (withEntryOf source name) := by
  refine ⟨changes ▸ h.identity object same, fun w _ sorted => ?_⟩
  obtain ⟨id, c⟩ := w
  cases c with
  | dict entries =>
    obtain ⟨own, parts⟩ := sorted_dict.1 sorted
    rcases withEntryOf_cases source name id entries with ⟨v, held, eq⟩ | eq | eq
    · rw [eq]
      exact ⟨rfl, sorted_dict.2 ⟨own, parts.insert (sorted_string name) (h.field? held)⟩⟩
    · rw [eq]
      exact ⟨rfl, sorted_dict.2 ⟨own, parts.erase _⟩⟩
    · rw [eq]
      exact ⟨rfl, sorted⟩
  | _ => exact ⟨rfl, sorted⟩

/-- An object is called otherwise wherever it stands. -/
theorem changing_named (changing : P object true) {id : Identity} (fits : P id true) :
    Changing P object (named id) := by
  refine ⟨changing, fun w here sorted => ?_⟩
  have changes := sorted.changes_of_mem decides changing here
  obtain ⟨changes', sorted'⟩ := sorted.named changes fits
  exact ⟨changes'.trans changes.symm, sorted'⟩

end Changing

theorem Within.holding_entry {source : Value} (h : source.Within P) (name : String) :
    Holding P (withEntryOf source name) := by
  intro w within
  obtain ⟨id, c⟩ := w
  cases c with
  | dict entries =>
    obtain ⟨own, parts⟩ := within_dict.1 within
    rcases withEntryOf_cases source name id entries with ⟨v, held, eq⟩ | eq | eq
    · rw [eq]
      refine within_dict.2 ⟨own, fun e he => ?_⟩
      rcases Dict.mem_insert he with old | ⟨_, rfl, new | ⟨f, hf, eq⟩⟩
      · exact parts e old
      · exact ⟨new ▸ (sorted_string name).within, h.field? held⟩
      · exact ⟨eq ▸ (parts f hf).1, h.field? held⟩
    · rw [eq]
      exact within_dict.2 ⟨own, fun e he => parts e (Dict.mem_of_mem_erase he)⟩
    · rw [eq]
      exact within
  | _ => exact within

theorem holding_named {id : Identity} (fits : P.holds id) : Holding P (named id) :=
  fun _ within => within.rename fun _ same => Option.some.inj same ▸ fits

end Value

/-! ### Entries that a value stands for -/

namespace Dict

theorem Sorted.withPair {d e : Dict} (h : d.Sorted P) {item : Value} (hitem : item.Sorted P)
    {place : Nat} (done : Dict.withPair d item place = .ok e) : e.Sorted P := by
  rw [Dict.withPair] at done
  split at done
  · rename_i key value parts
    have both := hitem.itemsOf parts
    obtain ⟨_, _, done⟩ := bind_eq_ok_iff.1 done
    cases done
    exact h.insert (both key (by simp)) (both value (by simp))
  · cases done
  · cases done

theorem Sorted.withPairs {items : List (Value × Nat)} (hitems : ∀ p ∈ items, p.1.Sorted P)
    {d e : Dict} (h : d.Sorted P)
    (done : items.foldlM (fun d (item, place) => Dict.withPair d item place) d = .ok e) :
    e.Sorted P := by
  induction items generalizing d with
  | nil =>
    cases done
    exact h
  | cons p items ih =>
    obtain ⟨item, place⟩ := p
    obtain ⟨first, rest⟩ := List.forall_mem_cons.1 hitems
    rw [List.foldlM_cons] at done
    obtain ⟨d', paired, done⟩ := bind_eq_ok_iff.1 done
    exact ih rest (h.withPair first paired) done

/-- The entries that a sorted value stands for are sorted. -/
theorem Sorted.ofValue {v : Value} (h : v.Sorted P) {d : Dict} (done : Dict.ofValue v = .ok d) :
    d.Sorted P := by
  have empty : Dict.Sorted P [] := List.forall_mem_nil _
  rw [Dict.ofValue] at done
  split at done
  · rename_i entries content
    obtain ⟨id, _⟩ := v
    cases content
    cases done
    exact (Value.sorted_dict.1 h).2
  · rename_i other
    rw [Dict.updated] at done
    split at done
    · rename_i entries content
      exact absurd content (other entries)
    · obtain ⟨items, given, done⟩ := bind_eq_ok_iff.1 done
      refine empty.withPairs (fun (w, i) mem => ?_) done
      exact h.itemsOf given w (List.fst_mem_of_mem_zipIdx mem)

end Dict

end ChartTree
