import ChartTree.Chart.Render

/-!
# Values that have no JSON form

Which values are refused as JSON and why is told from their spots alone: the values and keys that
one comes to in reading a value depth first, each key before its value. The first spot with a fault
gives the error. How the text is laid out has no part in it, but for the name of a type in the
message that refuses a key.
-/

namespace ChartTree

/-- What one comes to in reading a value: a key of a dictionary, or a value. -/
inductive Spot where
  | key (v : Value)
  | value (v : Value)

/-- What is wrong with a spot for itself, whatever stands in it or after it. -/
def Spot.fault? : Spot → Option EncodeError
  | .key v => match v.content with
    | .string _ | .int _ | .float _ | .bool _ | .null => none
    | _ => some (.badKey v)
  | .value v => match v.content with
    | .bytes _ | .node _ | .reference .. => some (.noForm v.typeName)
    | .time t =>
      if t.isAware then some (.refused "JSON can't represent timezone-aware times.") else none
    | _ => none

namespace Value

mutual

/-- The spots of a value, depth first and in order. -/
def spots : Value → List Spot
  | ⟨id, .list items⟩ => .value ⟨id, .list items⟩ :: spotsOfItems items
  | ⟨id, .tuple items⟩ => .value ⟨id, .tuple items⟩ :: spotsOfItems items
  | ⟨id, .dict entries⟩ => .value ⟨id, .dict entries⟩ :: spotsOfEntries entries
  | v => [.value v]
termination_by structural v => v

def spotsOfItems : List Value → List Spot
  | [] => []
  | v :: vs => spots v ++ spotsOfItems vs
termination_by structural vs => vs

/-- The spots of entries, each key before its value. -/
def spotsOfEntries : List (Value × Value) → List Spot
  | [] => []
  | (key, v) :: es => .key key :: (spots v ++ spotsOfEntries es)
termination_by structural es => es

end

/-- No spot of a value has a fault. -/
def Encodable (v : Value) : Prop :=
  ∀ p ∈ v.spots, p.fault? = none

end Value

/-! ### Errors -/

/-- The error that a computation ends with, if it does. -/
def refusal? {ε α : Type} : Except ε α → Option ε
  | .error e => some e
  | .ok _ => none

theorem refusal?_eq_some_iff {ε α : Type} {x : Except ε α} {e : ε} :
    refusal? x = some e ↔ x = .error e := by
  cases x <;> simp [refusal?]

theorem refusal?_eq_none_iff {ε α : Type} {x : Except ε α} :
    refusal? x = none ↔ ∃ a, x = .ok a := by
  cases x <;> simp [refusal?]

theorem refusal?_map {ε α β : Type} (f : α → β) (x : Except ε α) :
    refusal? (x.map f) = refusal? x := by
  cases x <;> rfl

/-- A computation ends with the error of its first part, or else with that of its second. -/
theorem refusal?_bind {ε α β : Type} {x : Except ε α} {f : α → Except ε β} {later : Option ε}
    (next : ∀ a, refusal? (f a) = later) : refusal? (x >>= f) = (refusal? x).or later := by
  cases x with
  | error e => rfl
  | ok a => exact next a

/-- A second part that cannot end with an error changes nothing about that of the first. -/
theorem refusal?_bind_of_none {ε α β : Type} {x : Except ε α} {f : α → Except ε β}
    (next : ∀ a, refusal? (f a) = none) : refusal? (x >>= f) = refusal? x := by
  rw [refusal?_bind next, Option.or_none]

/-! ### The first fault -/

theorem refusal?_form_text {fw : Framework} {v : Value}
    (encoded : ∃ s, fw.encoded v.content = .text s) : refusal? (fw.form v) = none := by
  obtain ⟨s, encoded⟩ := encoded
  rw [Framework.form, encoded]
  rfl

theorem refusal?_form_refusal {fw : Framework} {v : Value} {message : String}
    (encoded : fw.encoded v.content = .refusal message) :
    refusal? (fw.form v) = some (.refused message) := by
  rw [Framework.form, encoded]
  rfl

theorem refusal?_form_left {fw : Framework} {v : Value} (left : fw.encoded v.content = .left) :
    refusal? (fw.form v) = some (.noForm v.typeName) := by
  rw [Framework.form, left]
  rfl

namespace Value

variable {fw : Framework}

theorem refusal?_keyText (key : Value) : refusal? key.keyText = (Spot.key key).fault? := by
  obtain ⟨_, c⟩ := key
  cases c <;> rfl

theorem refusal?_form_time (documented : fw.Documented) (id : Option Identity) (t : Time) :
    refusal? (fw.form ⟨id, .time t⟩) = (Spot.value ⟨id, .time t⟩).fault? := by
  cases aware : t.isAware with
  | true =>
    have fault : (Spot.value ⟨id, .time t⟩).fault? = some (.refused _) := if_pos aware
    rw [fault]
    exact refusal?_form_refusal (documented.awareTime t aware)
  | false =>
    have fault : (Spot.value ⟨id, .time t⟩).fault? = none := if_neg (by simp [aware])
    rw [fault]
    exact refusal?_form_text (documented.naiveTime t aware)

mutual

/-- A value is refused for the first fault in it. -/
theorem refusal?_encode (documented : fw.Documented) :
    ∀ v : Value, refusal? (v.encode fw) = v.spots.findSome? Spot.fault?
  | ⟨_, .list items⟩ => by
    rw [encode, refusal?_map, refusal?_encodeItems documented items]
    rfl
  | ⟨_, .tuple items⟩ => by
    rw [encode, refusal?_map, refusal?_encodeItems documented items]
    rfl
  | ⟨_, .dict entries⟩ => by
    rw [encode, refusal?_map, refusal?_encodeEntries documented entries]
    rfl
  | ⟨id, .time t⟩ => by
    have spots : spots ⟨id, .time t⟩ = [.value ⟨id, .time t⟩] := rfl
    rw [spots, List.findSome?_singleton]
    exact refusal?_form_time documented id t
  | ⟨id, .date d⟩ => refusal?_form_text (v := ⟨id, .date d⟩) (documented.date d)
  | ⟨id, .datetime d⟩ => refusal?_form_text (v := ⟨id, .datetime d⟩) (documented.datetime d)
  | ⟨id, .duration d⟩ => refusal?_form_text (v := ⟨id, .duration d⟩) (documented.duration d)
  | ⟨id, .decimal d⟩ => refusal?_form_text (v := ⟨id, .decimal d⟩) (documented.decimal d)
  | ⟨id, .uuid u⟩ => refusal?_form_text (v := ⟨id, .uuid u⟩) (documented.uuid u)
  | ⟨id, .bytes b⟩ => refusal?_form_left (v := ⟨id, .bytes b⟩) (documented.bytes b)
  | ⟨id, .node kind⟩ => refusal?_form_left (v := ⟨id, .node kind⟩) (documented.node kind)
  | ⟨id, .reference url values options⟩ =>
    refusal?_form_left (v := ⟨id, .reference url values options⟩)
      (documented.reference url values options)
  | ⟨_, .null⟩ | ⟨_, .bool _⟩ | ⟨_, .int _⟩ | ⟨_, .float _⟩ | ⟨_, .string _⟩ => rfl
termination_by structural v => v

theorem refusal?_encodeItems (documented : fw.Documented) :
    ∀ vs : List Value, refusal? (encodeItems fw vs) = (spotsOfItems vs).findSome? Spot.fault?
  | [] => rfl
  | v :: vs => by
    rw [encodeItems, spotsOfItems, List.findSome?_append, ← refusal?_encode documented v,
      ← refusal?_encodeItems documented vs]
    exact refusal?_bind fun j => refusal?_bind_of_none fun _ => rfl
termination_by structural vs => vs

theorem refusal?_encodeEntries (documented : fw.Documented) : ∀ es : List (Value × Value),
    refusal? (encodeEntries fw es) = (spotsOfEntries es).findSome? Spot.fault?
  | [] => rfl
  | (key, v) :: es => by
    have spots : (spotsOfEntries ((key, v) :: es)).findSome? Spot.fault? =
        (Spot.key key).fault?.or (((spots v).findSome? Spot.fault?).or
          ((spotsOfEntries es).findSome? Spot.fault?)) := by
      rw [spotsOfEntries, ← List.findSome?_append, List.findSome?_cons]
      cases (Spot.key key).fault? <;> rfl
    rw [encodeEntries, spots, ← refusal?_keyText, ← refusal?_encode documented v,
      ← refusal?_encodeEntries documented es]
    exact refusal?_bind fun name => refusal?_bind fun j => refusal?_bind_of_none fun _ => rfl
termination_by structural es => es

end

/-! ### Values without faults -/

theorem mem_spotsOfItems {vs : List Value} {p : Spot} :
    p ∈ spotsOfItems vs ↔ ∃ v ∈ vs, p ∈ v.spots := by
  induction vs with
  | nil => simp [spotsOfItems]
  | cons v vs ih => simp [spotsOfItems, ih]

theorem mem_spotsOfEntries {es : List (Value × Value)} {p : Spot} :
    p ∈ spotsOfEntries es ↔ ∃ e ∈ es, p = .key e.1 ∨ p ∈ e.2.spots := by
  induction es with
  | nil => simp [spotsOfEntries]
  | cons e es ih => simp [spotsOfEntries, ih, or_assoc]

/-- A value can be the key of a member. -/
def NamesMember (key : Value) : Prop :=
  (Spot.key key).fault? = none

variable {id : Option Identity}

theorem encodable_items {items : List Value} :
    (∀ p ∈ spotsOfItems items, p.fault? = none) ↔ ∀ v ∈ items, v.Encodable := by
  simp only [mem_spotsOfItems]
  exact ⟨fun h v mem p hp => h p ⟨v, mem, hp⟩, fun h p ⟨v, mem, hp⟩ => h v mem p hp⟩

theorem encodable_list {items : List Value} :
    Encodable ⟨id, .list items⟩ ↔ ∀ v ∈ items, v.Encodable := by
  rw [Encodable, spots, List.forall_mem_cons, encodable_items]
  exact and_iff_right rfl

theorem encodable_tuple {items : List Value} :
    Encodable ⟨id, .tuple items⟩ ↔ ∀ v ∈ items, v.Encodable := by
  rw [Encodable, spots, List.forall_mem_cons, encodable_items]
  exact and_iff_right rfl

theorem encodable_dict {entries : Dict} :
    Encodable ⟨id, .dict entries⟩ ↔ ∀ e ∈ entries, e.1.NamesMember ∧ e.2.Encodable := by
  rw [Encodable, spots, List.forall_mem_cons]
  simp only [mem_spotsOfEntries]
  constructor
  · rintro ⟨_, inside⟩ e mem
    exact ⟨inside _ ⟨e, mem, .inl rfl⟩, fun p hp => inside p ⟨e, mem, .inr hp⟩⟩
  · refine fun h => ⟨rfl, ?_⟩
    rintro p ⟨e, mem, rfl | hp⟩
    · exact (h e mem).1
    · exact (h e mem).2 p hp

theorem encodable_string (s : String) : Encodable ⟨id, .string s⟩ := by
  intro p mem
  cases List.mem_singleton.1 mem
  rfl

theorem namesMember_string (s : String) : NamesMember ⟨id, .string s⟩ := rfl

/-! ### Texts of values -/

/-- The first spot of a value that has a fault has this one. -/
def FirstFault (v : Value) (e : EncodeError) : Prop :=
  ∃ before p after, v.spots = before ++ p :: after ∧ p.fault? = some e ∧
    ∀ q ∈ before, q.fault? = none

theorem firstFault_iff (documented : fw.Documented) {v : Value} {e : EncodeError} :
    v.FirstFault e ↔ v.encode fw = .error e := by
  rw [← refusal?_eq_some_iff, refusal?_encode documented, List.findSome?_eq_some_iff, FirstFault]

theorem encodable_iff (documented : fw.Documented) {v : Value} :
    v.Encodable ↔ ∃ j, v.encode fw = .ok j := by
  rw [← refusal?_eq_none_iff, refusal?_encode documented, List.findSome?_eq_none_iff, Encodable]

theorem Encodable.toJson (documented : fw.Documented) {v : Value} (h : v.Encodable)
    (l : Json.Layout) : ∃ text, v.toJson fw l = .ok text := by
  obtain ⟨j, encoded⟩ := (encodable_iff documented).1 h
  exact ⟨_, by rw [Value.toJson, encoded]; rfl⟩

theorem Encodable.toScript (documented : fw.Documented) {v : Value} (h : v.Encodable)
    (id : ElementId) : ∃ text, v.toScript fw id = .ok text := by
  obtain ⟨j, encoded⟩ := (encodable_iff documented).1 h
  exact ⟨_, by rw [Value.toScript, encoded]; rfl⟩

theorem error_map_iff {α β : Type} {x : Except EncodeError α} {f : α → β} {e : EncodeError} :
    x.map f = .error e ↔ x = .error e := by
  rw [← refusal?_eq_some_iff, refusal?_map, refusal?_eq_some_iff]

/-- A value is refused for the first fault among its spots and for nothing else, however it is laid
out. -/
structure RefusedByFirstFault (fw : Framework) (v : Value) : Prop where
  json : ∀ indent e, v.toJson fw (.ofIndent indent) = .error e ↔ v.FirstFault e
  script : ∀ id e, v.toScript fw id = .error e ↔ v.FirstFault e
  accepted : ∀ indent, (∃ text, v.toJson fw (.ofIndent indent) = .ok text) ↔ v.Encodable

theorem refusedByFirstFault (documented : fw.Documented) (v : Value) :
    v.RefusedByFirstFault fw where
  json indent e := by rw [toJson, error_map_iff, firstFault_iff documented]
  script id e := by rw [toScript, error_map_iff, firstFault_iff documented]
  accepted indent := by
    refine ⟨fun ⟨text, written⟩ => ?_, fun h => h.toJson documented _⟩
    rw [encodable_iff documented, ← refusal?_eq_none_iff,
      ← refusal?_map (Json.render (.ofIndent indent))]
    exact refusal?_eq_none_iff.2 ⟨text, written⟩

/-- Whether a value is of a type that is named with its family when it is named in full. -/
def hasFamily (v : Value) : Bool :=
  match v.content with
  | .date _ | .time _ | .datetime _ | .duration _ | .decimal _ => true
  | _ => false

theorem fullTypeName_of_no_family {v : Value} (none : v.hasFamily = false) :
    v.fullTypeName = v.typeName := by
  obtain ⟨_, c⟩ := v
  cases c <;> first
    | rfl
    | exact (Bool.false_ne_true none.symm).elim

end Value

/-- A refusal has one message in line and one over several lines, whatever the indentation; and the
two are the same unless a key is refused whose type has a family. -/
theorem EncodeError.message_ofIndent {e : EncodeError} {i j : Option Int}
    (alike : (i = none ↔ j = none) ∨ ∀ key, e = .badKey key → key.hasFamily = false) :
    e.message (.ofIndent i) = e.message (.ofIndent j) := by
  cases e with
  | noForm typeName => exact Eq.refl ("Object of type " ++ typeName ++ " is not JSON serializable")
  | refused message => exact Eq.refl message
  | badKey key =>
    have named : key.keyTypeName (.ofIndent i) = key.keyTypeName (.ofIndent j) := by
      cases i with
      | none =>
        cases j with
        | none => rfl
        | some n =>
          have names := alike.resolve_left fun layouts => nomatch layouts.1 rfl
          exact Value.fullTypeName_of_no_family (names key rfl)
      | some m =>
        cases j with
        | none =>
          have names := alike.resolve_left fun layouts => nomatch layouts.2 rfl
          exact (Value.fullTypeName_of_no_family (names key rfl)).symm
        | some n => rfl
    exact congrArg (fun name => "keys must be str, int, float, bool or None, not " ++ name) named

end ChartTree
