import ChartTree.Data.Slot
import ChartTree.Proofs.Value.Fields

/-!
# Objects in a value

A value is made of objects. Those that a write can change are the lists and dictionaries that it
can come to, through other lists, dictionaries and tuples. Two values share no such object if every
object of the one is sorted differently by a common rule; and a rule that sorts the objects of a
value still sorts them after a write, a renewal or a copy.
-/

namespace ChartTree

/-- A rule sorts the objects that a path may come to: those in which a write can change something,
and the others. It says too which objects may stand where no path leads, all of these among them. -/
structure Rule where
  sorts : Identity → Bool → Prop
  holds : Identity → Prop
  holds_of_sorts : ∀ i b, sorts i b → holds i

namespace Rule

instance : CoeFun Rule fun _ => Identity → Bool → Prop :=
  ⟨sorts⟩

/-- What one rule sorts or lets stand, another one sorts in the same way or lets stand as well. -/
structure Implies (P P' : Rule) : Prop where
  sorts : ∀ i b, P i b → P' i b
  holds : ∀ i, P.holds i → P'.holds i

/-- A rule sorts an object in one way only. -/
def Decides (P : Rule) : Prop :=
  ∀ i b b', P i b → P i b' → b = b'

/-- The rule that lets no objects stand but those that it sorts. -/
def strict (P : Rule) : Rule where
  sorts := P.sorts
  holds i := ∃ b, P i b
  holds_of_sorts _ b h := ⟨b, h⟩

end Rule

namespace Value

mutual

/-- The identities of all objects in a value. -/
def ids : Value → List Identity
  | ⟨id, .list items⟩ => id.toList ++ idsOfItems items
  | ⟨id, .tuple items⟩ => id.toList ++ idsOfItems items
  | ⟨id, .dict entries⟩ => id.toList ++ idsOfEntries entries
  | ⟨id, .reference url values options⟩ => id.toList ++ (ids url ++ (ids values ++ ids options))
  | v => v.identity?.toList
termination_by structural v => v

def idsOfItems : List Value → List Identity
  | [] => []
  | v :: vs => ids v ++ idsOfItems vs
termination_by structural vs => vs

def idsOfEntries : List (Value × Value) → List Identity
  | [] => []
  | (key, value) :: es => ids key ++ (ids value ++ idsOfEntries es)
termination_by structural es => es

end

mutual

/-- Whether a write can change something in a value: lists, dictionaries, and tuples of these. -/
def changes : Value → Bool
  | ⟨_, .list _⟩ | ⟨_, .dict _⟩ => true
  | ⟨_, .tuple items⟩ => someChange items
  | _ => false
termination_by structural v => v

def someChange : List Value → Bool
  | [] => false
  | v :: vs => changes v || someChange vs
termination_by structural vs => vs

end

mutual

/-- The objects of a value are sorted by a rule: those in which a write can change something, and
all others. A write does not come to what a data reference holds. -/
def Sorted (P : Rule) : Value → Prop
  | ⟨id, .list items⟩ => (∀ i ∈ id, P i true) ∧ AllSorted P items
  | ⟨id, .tuple items⟩ => (∀ i ∈ id, P i (someChange items)) ∧ AllSorted P items
  | ⟨id, .dict entries⟩ => (∀ i ∈ id, P i true) ∧ EntriesSorted P entries
  | ⟨id, .reference url values options⟩ =>
    ∀ i ∈ ids ⟨id, .reference url values options⟩, P i false
  | v => ∀ i ∈ v.identity?, P i false
termination_by structural v => v

def AllSorted (P : Rule) : List Value → Prop
  | [] => True
  | v :: vs => Sorted P v ∧ AllSorted P vs
termination_by structural vs => vs

def EntriesSorted (P : Rule) : List (Value × Value) → Prop
  | [] => True
  | (key, value) :: es => (Sorted P key ∧ Sorted P value) ∧ EntriesSorted P es
termination_by structural es => es

end

/-- No object of a value is one in which a write can change something. -/
def Sealed (P : Rule) (v : Value) : Prop :=
  ∀ i ∈ v.ids, P i false

/-- The objects of a value may stand where no path leads. -/
def Within (P : Rule) (v : Value) : Prop :=
  ∀ i ∈ v.ids, P.holds i

end Value

/-- The keys and values of a dictionary are sorted by a rule. -/
def Dict.Sorted (P : Rule) (d : Dict) : Prop :=
  ∀ e ∈ d, e.1.Sorted P ∧ e.2.Sorted P

namespace Value

variable {P P' : Rule}

theorem mem_idsOfItems {vs : List Value} {i : Identity} :
    i ∈ idsOfItems vs ↔ ∃ v ∈ vs, i ∈ v.ids := by
  induction vs with
  | nil => simp [idsOfItems]
  | cons v vs ih => simp [idsOfItems, ih]

theorem mem_idsOfEntries {es : List (Value × Value)} {i : Identity} :
    i ∈ idsOfEntries es ↔ ∃ e ∈ es, i ∈ e.1.ids ∨ i ∈ e.2.ids := by
  induction es with
  | nil => simp [idsOfEntries]
  | cons e es ih => simp [idsOfEntries, ih, or_assoc]

theorem mem_ids_reference {id : Option Identity} {url values options : Value} {i : Identity} :
    i ∈ ids ⟨id, .reference url values options⟩ ↔
      i ∈ id ∨ i ∈ url.ids ∨ i ∈ values.ids ∨ i ∈ options.ids := by
  rw [ids, List.mem_append, Option.mem_toList, List.mem_append, List.mem_append, Option.mem_def]

theorem someChange_eq_true {vs : List Value} :
    someChange vs = true ↔ ∃ v ∈ vs, v.changes = true := by
  induction vs with
  | nil => simp [someChange]
  | cons v vs ih => simp [someChange, ih]

theorem someChange_eq_false {vs : List Value} :
    someChange vs = false ↔ ∀ v ∈ vs, v.changes = false := by
  induction vs with
  | nil => simp [someChange]
  | cons v vs ih => simp [someChange, ih]

theorem someChange_map {f : Value → Value} {vs : List Value}
    (same : ∀ v ∈ vs, (f v).changes = v.changes) : someChange (vs.map f) = someChange vs := by
  induction vs with
  | nil => rfl
  | cons v vs ih =>
    obtain ⟨first, rest⟩ := List.forall_mem_cons.1 same
    rw [List.map_cons, someChange, someChange, first, ih rest]

theorem allSorted_iff {vs : List Value} : AllSorted P vs ↔ ∀ v ∈ vs, v.Sorted P := by
  induction vs with
  | nil => simp [AllSorted]
  | cons v vs ih => simp [AllSorted, ih]

theorem entriesSorted_iff {d : Dict} : EntriesSorted P d ↔ d.Sorted P := by
  induction d with
  | nil => simp [EntriesSorted, Dict.Sorted]
  | cons e d ih => simp [EntriesSorted, Dict.Sorted, ih]

theorem sorted_list {id : Option Identity} {items : List Value} :
    Sorted P ⟨id, .list items⟩ ↔ (∀ i ∈ id, P i true) ∧ ∀ v ∈ items, v.Sorted P := by
  rw [Sorted, allSorted_iff]

theorem sorted_tuple {id : Option Identity} {items : List Value} :
    Sorted P ⟨id, .tuple items⟩ ↔
      (∀ i ∈ id, P i (someChange items)) ∧ ∀ v ∈ items, v.Sorted P := by
  rw [Sorted, allSorted_iff]

theorem sorted_dict {id : Option Identity} {entries : Dict} :
    Sorted P ⟨id, .dict entries⟩ ↔ (∀ i ∈ id, P i true) ∧ entries.Sorted P := by
  rw [Sorted, entriesSorted_iff]

theorem sorted_string (s : String) : Sorted P (.string s) :=
  fun _ none => (nomatch none)

theorem sorted_newDict {entries : Dict} (h : entries.Sorted P) : Sorted P (.dict entries) :=
  sorted_dict.2 ⟨fun _ none => (nomatch none), h⟩

theorem sorted_newList {items : List Value} (h : ∀ v ∈ items, v.Sorted P) :
    Sorted P (.list items) :=
  sorted_list.2 ⟨fun _ none => (nomatch none), h⟩

theorem Sealed.within {v : Value} (h : v.Sealed P) : v.Within P :=
  fun i hi => P.holds_of_sorts i false (h i hi)

theorem Within.imp {v : Value} (h : v.Within P) (implies : ∀ i, P.holds i → P'.holds i) :
    v.Within P' :=
  fun i hi => implies i (h i hi)

theorem mem_ids_self (v : Value) {i : Identity} (own : v.identity? = some i) : i ∈ v.ids := by
  obtain ⟨id, content⟩ := v
  cases own
  cases content <;> exact List.mem_cons_self ..

theorem within_null : Within P .null :=
  fun _ mem => (List.not_mem_nil mem).elim

theorem within_list {id : Option Identity} {items : List Value} :
    Within P ⟨id, .list items⟩ ↔ (∀ i ∈ id, P.holds i) ∧ ∀ v ∈ items, v.Within P := by
  simp only [Within, ids, List.mem_append, Option.mem_toList, mem_idsOfItems]
  exact ⟨fun h => ⟨fun i hi => h i (.inl hi), fun v hv i hi => h i (.inr ⟨v, hv, hi⟩)⟩,
    fun h i hi => hi.elim (h.1 i) fun ⟨v, hv, hi⟩ => h.2 v hv i hi⟩

theorem within_tuple {id : Option Identity} {items : List Value} :
    Within P ⟨id, .tuple items⟩ ↔ (∀ i ∈ id, P.holds i) ∧ ∀ v ∈ items, v.Within P :=
  within_list

theorem within_dict {id : Option Identity} {entries : Dict} :
    Within P ⟨id, .dict entries⟩ ↔
      (∀ i ∈ id, P.holds i) ∧ ∀ e ∈ entries, e.1.Within P ∧ e.2.Within P := by
  simp only [Within, ids, List.mem_append, Option.mem_toList, mem_idsOfEntries]
  exact ⟨fun h => ⟨fun i hi => h i (.inl hi), fun e he =>
      ⟨fun i hi => h i (.inr ⟨e, he, .inl hi⟩), fun i hi => h i (.inr ⟨e, he, .inr hi⟩)⟩⟩,
    fun h i hi => hi.elim (h.1 i) fun ⟨e, he, hi⟩ => hi.elim ((h.2 e he).1 i) ((h.2 e he).2 i)⟩

theorem within_reference {id : Option Identity} {url values options : Value} :
    Within P ⟨id, .reference url values options⟩ ↔
      (∀ i ∈ id, P.holds i) ∧ url.Within P ∧ values.Within P ∧ options.Within P := by
  simp only [Within, mem_ids_reference]
  exact ⟨fun h => ⟨fun i hi => h i (.inl hi), fun i hi => h i (.inr (.inl hi)),
      fun i hi => h i (.inr (.inr (.inl hi))), fun i hi => h i (.inr (.inr (.inr hi)))⟩,
    fun h i hi => hi.elim (h.1 i) fun hi => hi.elim (h.2.1 i) fun hi =>
      hi.elim (h.2.2.1 i) (h.2.2.2 i)⟩

theorem within_newList {items : List Value} (h : ∀ v ∈ items, v.Within P) :
    Within P (.list items) :=
  within_list.2 ⟨fun _ none => (nomatch none), h⟩

/-- Under another identity a value has the same objects otherwise. -/
theorem Within.rename {v : Value} (h : v.Within P) {id : Option Identity}
    (own : ∀ i ∈ id, P.holds i) : Within P ⟨id, v.content⟩ := by
  obtain ⟨_, content⟩ := v
  cases content with
  | list items => exact within_list.2 ⟨own, (within_list.1 h).2⟩
  | tuple items => exact within_tuple.2 ⟨own, (within_tuple.1 h).2⟩
  | dict entries => exact within_dict.2 ⟨own, (within_dict.1 h).2⟩
  | reference url values options => exact within_reference.2 ⟨own, (within_reference.1 h).2⟩
  | _ => exact fun i hi => own i (Option.mem_toList.1 hi)

/-- The object that a value is, is sorted by whether a write can change something in it. -/
theorem Sorted.identity {v : Value} (h : v.Sorted P) : ∀ i ∈ v.identity?, P i v.changes := by
  obtain ⟨id, content⟩ := v
  cases content with
  | list items => exact (sorted_list.1 h).1
  | tuple items => exact (sorted_tuple.1 h).1
  | dict entries => exact (sorted_dict.1 h).1
  | reference url values options =>
    intro i hi
    cases hi
    exact h i (List.mem_cons_self ..)
  | _ => exact h

/-! ### Induction over values -/

end Value

/-- Whether a value of a content has no parts. -/
def Content.isScalar {α : Type} : Content α → Bool
  | .list _ | .tuple _ | .dict _ | .reference .. => false
  | _ => true

namespace Value

/-- A property holds of all values if it goes from the parts of a value to the value. -/
theorem induction {motive : Value → Prop}
    (list : ∀ id items, (∀ v ∈ items, motive v) → motive ⟨id, .list items⟩)
    (tuple : ∀ id items, (∀ v ∈ items, motive v) → motive ⟨id, .tuple items⟩)
    (dict : ∀ id entries, (∀ e ∈ entries, motive e.1 ∧ motive e.2) → motive ⟨id, .dict entries⟩)
    (reference : ∀ id url values options, motive url → motive values → motive options →
      motive ⟨id, .reference url values options⟩)
    (scalar : ∀ id content, content.isScalar = true → motive ⟨id, content⟩) (v : Value) :
    motive v := by
  obtain ⟨id, content⟩ := v
  cases content with
  | list items =>
    exact list id items fun w mem => induction list tuple dict reference scalar w
  | tuple items =>
    exact tuple id items fun w mem => induction list tuple dict reference scalar w
  | dict entries =>
    exact dict id entries fun (key, w) mem => ⟨induction list tuple dict reference scalar key,
      induction list tuple dict reference scalar w⟩
  | reference url values options =>
    exact reference id url values options (induction list tuple dict reference scalar url)
      (induction list tuple dict reference scalar values)
      (induction list tuple dict reference scalar options)
  | _ => exact scalar id _ rfl
termination_by v
decreasing_by
  all_goals first
    | (have smaller := List.sizeOf_lt_of_mem mem; simp at smaller ⊢; omega)
    | (simp; omega)

section Scalar

variable {id : Option Identity} {content : Content Value} (scalar : content.isScalar = true)

include scalar

theorem ids_scalar : ids ⟨id, content⟩ = id.toList := by
  cases content <;> first | rfl | cases scalar

theorem changes_scalar : changes ⟨id, content⟩ = false := by
  cases content <;> first | rfl | cases scalar

theorem sorted_scalar : Sorted P ⟨id, content⟩ ↔ ∀ i ∈ id, P i false := by
  cases content <;> first | exact Iff.rfl | cases scalar

theorem renewed_scalar (object : Identity) (change : Value → Value) :
    renewed object change ⟨id, content⟩ = replaced object change ⟨id, content⟩ := by
  cases content <;> first | rfl | cases scalar

theorem copied_scalar (occasion : Option Nat) :
    copied occasion ⟨id, content⟩ = ⟨copyIdentity occasion ⟨id, content⟩, content⟩ := by
  cases content <;> first | rfl | cases scalar

end Scalar

theorem Sorted.within {v : Value} (h : v.Sorted P) : v.Within P := by
  induction v using induction with
  | list id items ih =>
    obtain ⟨here, parts⟩ := sorted_list.1 h
    intro i hi
    rw [ids, List.mem_append, Option.mem_toList, mem_idsOfItems] at hi
    rcases hi with own | ⟨w, hw, hi⟩
    · exact P.holds_of_sorts i true (here i own)
    · exact ih w hw (parts w hw) i hi
  | tuple id items ih =>
    obtain ⟨here, parts⟩ := sorted_tuple.1 h
    intro i hi
    rw [ids, List.mem_append, Option.mem_toList, mem_idsOfItems] at hi
    rcases hi with own | ⟨w, hw, hi⟩
    · exact P.holds_of_sorts i _ (here i own)
    · exact ih w hw (parts w hw) i hi
  | dict id entries ih =>
    obtain ⟨here, parts⟩ := sorted_dict.1 h
    intro i hi
    rw [ids, List.mem_append, Option.mem_toList, mem_idsOfEntries] at hi
    rcases hi with own | ⟨e, he, hi | hi⟩
    · exact P.holds_of_sorts i true (here i own)
    · exact (ih e he).1 (parts e he).1 i hi
    · exact (ih e he).2 (parts e he).2 i hi
  | reference id url values options =>
    exact Sealed.within h
  | scalar id content scalar =>
    intro i hi
    rw [ids_scalar scalar, Option.mem_toList] at hi
    exact P.holds_of_sorts i false ((sorted_scalar scalar).1 h i hi)

theorem Sorted.imp {v : Value} (h : v.Sorted P) (implies : ∀ i b, P i b → P' i b) :
    v.Sorted P' := by
  induction v using induction with
  | list id items ih =>
    obtain ⟨here, parts⟩ := sorted_list.1 h
    exact sorted_list.2 ⟨fun i hi => implies i _ (here i hi), fun w hw => ih w hw (parts w hw)⟩
  | tuple id items ih =>
    obtain ⟨here, parts⟩ := sorted_tuple.1 h
    exact sorted_tuple.2 ⟨fun i hi => implies i _ (here i hi), fun w hw => ih w hw (parts w hw)⟩
  | dict id entries ih =>
    obtain ⟨here, parts⟩ := sorted_dict.1 h
    exact sorted_dict.2 ⟨fun i hi => implies i _ (here i hi), fun e he =>
      ⟨(ih e he).1 (parts e he).1, (ih e he).2 (parts e he).2⟩⟩
  | reference id url values options => exact fun i hi => implies i _ (h i hi)
  | scalar id content scalar =>
    exact (sorted_scalar scalar).2 fun i hi => implies i _ ((sorted_scalar scalar).1 h i hi)

/-- A value in which a write can change nothing has only objects of the one sort. -/
theorem Sorted.of_unchanging {v : Value} (h : v.Sorted P) (unchanging : v.changes = false)
    (implies : ∀ i, P i false → P' i false) : v.Sorted P' := by
  induction v using induction with
  | list id items => cases unchanging
  | dict id entries => cases unchanging
  | tuple id items ih =>
    have items_unchanging : someChange items = false := unchanging
    obtain ⟨here, parts⟩ := sorted_tuple.1 h
    refine sorted_tuple.2 ⟨fun i hi => ?_, fun w hw =>
      ih w hw (parts w hw) (someChange_eq_false.1 items_unchanging w hw)⟩
    have own := here i hi
    rw [items_unchanging] at own ⊢
    exact implies i own
  | reference id url values options => exact fun i hi => implies i (h i hi)
  | scalar id content scalar =>
    exact (sorted_scalar scalar).2 fun i hi => implies i ((sorted_scalar scalar).1 h i hi)

/-! ### Renewal -/

theorem replaced_of_ne {object : Identity} {change : Value → Value} {v : Value}
    (other : object ∉ v.identity?) : replaced object change v = v :=
  if_neg other

theorem renewedItems_eq_map (object : Identity) (change : Value → Value) (vs : List Value) :
    renewedItems object change vs = vs.map (renewed object change) := by
  induction vs with
  | nil => rfl
  | cons v vs ih => rw [renewedItems, ih, List.map_cons]

theorem renewedEntries_eq_map (object : Identity) (change : Value → Value)
    (es : List (Value × Value)) : renewedEntries object change es =
      es.map fun e => (renewed object change e.1, renewed object change e.2) := by
  induction es with
  | nil => rfl
  | cons e es ih => rw [renewedEntries, ih, List.map_cons]

/-- A change of an object that is not in a value leaves the value as it is. -/
theorem renewed_of_not_mem {object : Identity} {change : Value → Value} {v : Value}
    (other : object ∉ v.ids) : renewed object change v = v := by
  induction v using induction with
  | list id items ih | tuple id items ih =>
    have parts : ∀ w ∈ items, renewed object change w = w := fun w hw => ih w hw fun mem =>
      other (List.mem_append_right _ (mem_idsOfItems.2 ⟨w, hw, mem⟩))
    rw [renewed, renewedItems_eq_map, (List.map_congr_left parts).trans (List.map_id' items)]
    exact replaced_of_ne fun own => other (List.mem_append_left _ (Option.mem_toList.2 own))
  | dict id entries ih =>
    have parts : ∀ e ∈ entries, (renewed object change e.1, renewed object change e.2) = e :=
      fun e he => by
        have among (mem : object ∈ e.1.ids ∨ object ∈ e.2.ids) : object ∈ ids ⟨id, .dict entries⟩ :=
          List.mem_append_right _ (mem_idsOfEntries.2 ⟨e, he, mem⟩)
        rw [(ih e he).1 fun mem => other (among (.inl mem)),
          (ih e he).2 fun mem => other (among (.inr mem))]
    rw [renewed, renewedEntries_eq_map, (List.map_congr_left parts).trans (List.map_id' entries)]
    exact replaced_of_ne fun own => other (List.mem_append_left _ (Option.mem_toList.2 own))
  | reference id url values options ihu ihv iho =>
    rw [renewed, ihu fun mem => other (mem_ids_reference.2 (.inr (.inl mem))),
      ihv fun mem => other (mem_ids_reference.2 (.inr (.inr (.inl mem)))),
      iho fun mem => other (mem_ids_reference.2 (.inr (.inr (.inr mem))))]
    exact replaced_of_ne fun own => other (mem_ids_reference.2 (.inl own))
  | scalar id content scalar =>
    rw [renewed_scalar scalar]
    exact replaced_of_ne fun own =>
      other (by rw [ids_scalar scalar]; exact Option.mem_toList.2 own)

/-- A change of an object in which a write can change something, after which it still is such an
object, with sorted parts. -/
structure Changing (P : Rule) (object : Identity) (change : Value → Value) :
    Prop where
  changing : P object true
  keeps : ∀ w : Value, object ∈ w.identity? → w.Sorted P →
    (change w).changes = w.changes ∧ (change w).Sorted P

/-- After a change a value still has only objects that may stand where no path leads. -/
def Holding (P : Rule) (change : Value → Value) : Prop :=
  ∀ w : Value, w.Within P → (change w).Within P

/-- An object that a rule does not sort is nowhere in what the rule sorts. -/
theorem Sorted.renewed_of_unsorted {object : Identity} {change : Value → Value} {v : Value}
    (h : v.Sorted P) (unsorted : ∀ b, ¬P object b) : renewed object change v = v := by
  have strictly : v.Sorted P.strict := h.imp fun _ _ => id
  exact renewed_of_not_mem fun mem => (strictly.within object mem).elim unsorted

section Renewed

variable {object : Identity} {change : Value → Value} (decides : P.Decides)
  (changing : Changing P object change)

include decides changing

/-- What a write has changed is nowhere among what a write cannot change. -/
theorem Sealed.renewed {v : Value} (h : v.Sealed P) : renewed object change v = v := by
  refine renewed_of_not_mem fun mem => ?_
  cases decides object _ _ changing.changing (h object mem)

/-- A value stays sorted when an object is changed wherever it stands. -/
theorem Sorted.renewed {v : Value} (h : v.Sorted P) :
    (renewed object change v).changes = v.changes ∧ (Value.renewed object change v).Sorted P := by
  have replaced {w : Value} (h : w.Sorted P) :
      (replaced object change w).changes = w.changes ∧
        (Value.replaced object change w).Sorted P := by
    rw [Value.replaced]
    split
    · exact changing.keeps w ‹_› h
    · exact ⟨rfl, h⟩
  induction v using induction with
  | list id items ih =>
    obtain ⟨here, parts⟩ := sorted_list.1 h
    rw [Value.renewed, renewedItems_eq_map]
    have new : Sorted P ⟨id, .list (items.map (Value.renewed object change))⟩ :=
      sorted_list.2 ⟨here, List.forall_mem_map.2 fun w hw => (ih w hw (parts w hw)).2⟩
    exact replaced new
  | tuple id items ih =>
    obtain ⟨here, parts⟩ := sorted_tuple.1 h
    have same : someChange (items.map (Value.renewed object change)) = someChange items :=
      someChange_map fun w hw => (ih w hw (parts w hw)).1
    rw [Value.renewed, renewedItems_eq_map]
    have new : Sorted P ⟨id, .tuple (items.map (Value.renewed object change))⟩ :=
      sorted_tuple.2 ⟨same ▸ here, List.forall_mem_map.2 fun w hw => (ih w hw (parts w hw)).2⟩
    obtain ⟨changes, sorted⟩ := replaced new
    exact ⟨changes.trans same, sorted⟩
  | dict id entries ih =>
    obtain ⟨here, parts⟩ := sorted_dict.1 h
    rw [Value.renewed, renewedEntries_eq_map]
    have new : Sorted P ⟨id, .dict (entries.map fun e =>
        (Value.renewed object change e.1, Value.renewed object change e.2))⟩ :=
      sorted_dict.2 ⟨here, List.forall_mem_map.2 fun e he =>
        ⟨((ih e he).1 (parts e he).1).2, ((ih e he).2 (parts e he).2).2⟩⟩
    exact replaced new
  | reference id url values options =>
    have same : Value.renewed object change ⟨id, .reference url values options⟩ = _ :=
      Sealed.renewed decides changing h
    rw [same]
    exact ⟨rfl, h⟩
  | scalar id content scalar =>
    rw [renewed_scalar scalar]
    exact replaced h

omit decides changing in
theorem Within.renewed (holding : Holding P change) {v : Value} (h : v.Within P) :
    (Value.renewed object change v).Within P := by
  have replaced {w : Value} (h : w.Within P) : (Value.replaced object change w).Within P := by
    rw [Value.replaced]
    split
    · exact holding w h
    · exact h
  induction v using induction with
  | list id items ih =>
    obtain ⟨here, parts⟩ := within_list.1 h
    rw [Value.renewed, renewedItems_eq_map]
    exact replaced (within_list.2 ⟨here, List.forall_mem_map.2 fun w hw => ih w hw (parts w hw)⟩)
  | tuple id items ih =>
    obtain ⟨here, parts⟩ := within_tuple.1 h
    rw [Value.renewed, renewedItems_eq_map]
    exact replaced (within_tuple.2 ⟨here, List.forall_mem_map.2 fun w hw => ih w hw (parts w hw)⟩)
  | dict id entries ih =>
    obtain ⟨here, parts⟩ := within_dict.1 h
    rw [Value.renewed, renewedEntries_eq_map]
    exact replaced (within_dict.2 ⟨here, List.forall_mem_map.2 fun e he =>
      ⟨(ih e he).1 (parts e he).1, (ih e he).2 (parts e he).2⟩⟩)
  | reference id url values options ihu ihv iho =>
    obtain ⟨here, hu, hv, ho⟩ := within_reference.1 h
    rw [Value.renewed]
    exact replaced (within_reference.2 ⟨here, ihu hu, ihv hv, iho ho⟩)
  | scalar id content scalar =>
    rw [renewed_scalar scalar]
    exact replaced h

end Renewed

/-! ### Copies -/

theorem areOwnCopies_eq_true {vs : List Value} :
    areOwnCopies vs = true ↔ ∀ v ∈ vs, v.isOwnCopy = true := by
  induction vs with
  | nil => simp [areOwnCopies]
  | cons v vs ih => simp [areOwnCopies, ih]

theorem unchanging_of_isOwnCopy {v : Value} (own : v.isOwnCopy = true) : v.changes = false := by
  induction v using induction with
  | list id items => cases own
  | tuple id items ih =>
    have items_own : areOwnCopies items = true := own
    exact someChange_eq_false.2 fun w hw => ih w hw (areOwnCopies_eq_true.1 items_own w hw)
  | dict id entries => cases own
  | reference id url values options => cases own
  | scalar id content scalar => exact changes_scalar scalar

theorem copiedItems_eq_map (occasion : Option Nat) (vs : List Value) :
    copiedItems occasion vs = vs.map (copied occasion) := by
  induction vs with
  | nil => rfl
  | cons v vs ih => rw [copiedItems, ih, List.map_cons]

theorem copiedEntries_eq_map (occasion : Option Nat) (es : List (Value × Value)) :
    copiedEntries occasion es = es.map fun e => (copied occasion e.1, copied occasion e.2) := by
  induction es with
  | nil => rfl
  | cons e es ih => rw [copiedEntries, ih, List.map_cons]

theorem mem_copyIdentity {occasion : Option Nat} {v : Value} {j : Identity}
    (h : j ∈ copyIdentity occasion v) :
    v.isOwnCopy = true ∧ j ∈ v.identity? ∨
      ∃ i ∈ v.identity?, ∃ k, occasion = some k ∧ j = .copy i k := by
  rw [copyIdentity] at h
  split at h
  · exact .inl ⟨‹_›, h⟩
  · obtain ⟨i, hi, made⟩ := Option.bind_eq_some_iff.1 h
    obtain ⟨k, hk, rfl⟩ := Option.map_eq_some_iff.1 made
    exact .inr ⟨i, hi, k, hk, rfl⟩

/-- The objects of a copy are objects of the value and copies of these. -/
theorem mem_ids_copied {occasion : Option Nat} {v : Value} {j : Identity}
    (h : j ∈ (copied occasion v).ids) :
    j ∈ v.ids ∨ ∃ i ∈ v.ids, ∃ k, occasion = some k ∧ j = .copy i k := by
  -- Either holds of what is in the value if it holds of what is in a part of it.
  have part {w : Value} {us : List Identity} (sub : ∀ i ∈ w.ids, i ∈ us)
      (h : j ∈ w.ids ∨ ∃ i ∈ w.ids, ∃ k, occasion = some k ∧ j = .copy i k) :
      j ∈ us ∨ ∃ i ∈ us, ∃ k, occasion = some k ∧ j = .copy i k :=
    h.imp (sub j) fun ⟨i, hi, k, made⟩ => ⟨i, sub i hi, k, made⟩
  have own {w : Value} {us : List Identity} (h : j ∈ copyIdentity occasion w)
      (sub : ∀ i ∈ w.identity?, i ∈ us) :
      j ∈ us ∨ ∃ i ∈ us, ∃ k, occasion = some k ∧ j = .copy i k :=
    (mem_copyIdentity h).imp (fun h => sub j h.2) fun ⟨i, hi, k, made⟩ => ⟨i, sub i hi, k, made⟩
  induction v using induction with
  | list id items ih | tuple id items ih =>
    rw [copied, copiedItems_eq_map, ids, List.mem_append, Option.mem_toList, mem_idsOfItems] at h
    rcases h with here | ⟨_, mem, hj⟩
    · exact own here fun i hi => List.mem_append_left _ (Option.mem_toList.2 hi)
    · obtain ⟨w, hw, rfl⟩ := List.mem_map.1 mem
      exact part (fun i hi => List.mem_append_right _ (mem_idsOfItems.2 ⟨w, hw, hi⟩))
        (ih w hw hj)
  | dict id entries ih =>
    rw [copied, copiedEntries_eq_map, ids, List.mem_append, Option.mem_toList,
      mem_idsOfEntries] at h
    rcases h with here | ⟨_, mem, hj⟩
    · exact own here fun i hi => List.mem_append_left _ (Option.mem_toList.2 hi)
    · obtain ⟨e, he, rfl⟩ := List.mem_map.1 mem
      have among : ∀ i, i ∈ e.1.ids ∨ i ∈ e.2.ids → i ∈ ids ⟨id, .dict entries⟩ :=
        fun i hi => List.mem_append_right _ (mem_idsOfEntries.2 ⟨e, he, hi⟩)
      rcases hj with hj | hj
      · exact part (fun i hi => among i (.inl hi)) ((ih e he).1 hj)
      · exact part (fun i hi => among i (.inr hi)) ((ih e he).2 hj)
  | reference id url values options ihu ihv iho =>
    rw [copied, mem_ids_reference] at h
    rcases h with here | hj | hj | hj
    · exact own here fun i hi => mem_ids_reference.2 (.inl hi)
    · exact part (fun i hi => mem_ids_reference.2 (.inr (.inl hi))) (ihu hj)
    · exact part (fun i hi => mem_ids_reference.2 (.inr (.inr (.inl hi)))) (ihv hj)
    · exact part (fun i hi => mem_ids_reference.2 (.inr (.inr (.inr hi)))) (iho hj)
  | scalar id content scalar =>
    rw [copied_scalar scalar, ids_scalar scalar, Option.mem_toList] at h
    exact own h fun i hi => by rw [ids_scalar scalar]; exact Option.mem_toList.2 hi

/-- The copy of a sorted value is sorted by a rule that sorts the copies of objects like them, and
what lasts like itself. -/
theorem Sorted.copied {v : Value} (h : v.Sorted P) {k : Nat}
    (implies : ∀ i, P i false → P' i false) (fresh : ∀ i b, P i b → P' (.copy i k) b) :
    (copied (some k) v).changes = v.changes ∧ (Value.copied (some k) v).Sorted P' := by
  have identity {w : Value} (h : w.Sorted P) : ∀ j ∈ copyIdentity (some k) w, P' j w.changes := by
    intro j hj
    rcases mem_copyIdentity hj with ⟨own, here⟩ | ⟨i, hi, k', eq, rfl⟩
    · have sorted := h.identity j here
      rw [unchanging_of_isOwnCopy own] at sorted ⊢
      exact implies j sorted
    · cases eq
      exact fresh i _ (h.identity i hi)
  induction v using induction with
  | list id items ih =>
    obtain ⟨_, parts⟩ := sorted_list.1 h
    rw [Value.copied, copiedItems_eq_map]
    exact ⟨rfl, sorted_list.2 ⟨identity h,
      List.forall_mem_map.2 fun w hw => (ih w hw (parts w hw)).2⟩⟩
  | tuple id items ih =>
    obtain ⟨_, parts⟩ := sorted_tuple.1 h
    -- Whether a tuple can change depends on its parts, of which each is like its copy in that.
    have same : someChange (items.map (Value.copied (some k))) = someChange items :=
      someChange_map fun w hw => (ih w hw (parts w hw)).1
    rw [Value.copied, copiedItems_eq_map]
    refine ⟨same, sorted_tuple.2 ⟨?_, List.forall_mem_map.2 fun w hw =>
      (ih w hw (parts w hw)).2⟩⟩
    rw [same]
    exact identity h
  | dict id entries ih =>
    obtain ⟨_, parts⟩ := sorted_dict.1 h
    rw [Value.copied, copiedEntries_eq_map]
    exact ⟨rfl, sorted_dict.2 ⟨identity h, List.forall_mem_map.2 fun e he =>
      ⟨((ih e he).1 (parts e he).1).2, ((ih e he).2 (parts e he).2).2⟩⟩⟩
  | reference id url values options =>
    refine ⟨by rw [Value.copied]; rfl, ?_⟩
    have sealed' : ∀ j ∈ (Value.copied (some k) ⟨id, .reference url values options⟩).ids,
        P' j false := by
      intro j hj
      rcases mem_ids_copied hj with here | ⟨i, hi, k', eq, rfl⟩
      · exact implies j (h j here)
      · cases eq
        exact fresh i false (h i hi)
    rw [Value.copied] at sealed' ⊢
    exact sealed'
  | scalar id content scalar =>
    rw [copied_scalar scalar]
    refine ⟨(changes_scalar scalar).trans (changes_scalar scalar).symm,
      (sorted_scalar scalar).2 ?_⟩
    have sorted := identity h
    rwa [changes_scalar scalar] at sorted

theorem Within.selfCopy {v w : Value} (h : v.Within P) (copy : v.selfCopy = .ok w) :
    w.Within P := by
  obtain ⟨id, content⟩ := v
  cases content <;> cases copy
  case list items => exact fun i hi => h i (List.mem_append_right _ hi)
  case dict entries => exact fun i hi => h i (List.mem_append_right _ hi)
  case node kind => exact fun i hi => (List.not_mem_nil hi).elim
  case reference url values options =>
    intro j hj
    rcases mem_ids_reference.1 hj with none | hj | hj | hj
    · cases none
    · exact h j (mem_ids_reference.2 (.inr (.inl hj)))
    · exact h j (mem_ids_reference.2 (.inr (.inr (.inl hj))))
    · rcases mem_ids_copied hj with here | ⟨_, _, _, eq, _⟩
      · exact h j (mem_ids_reference.2 (.inr (.inr (.inr here))))
      · cases eq

end Value

end ChartTree
