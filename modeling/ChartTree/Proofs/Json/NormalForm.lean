import ChartTree.Chart.Render
import ChartTree.Json.Standard
import ChartTree.Proofs.Json.Layouts
import ChartTree.Proofs.Number.Shortest
import ChartTree.Proofs.Value.Fields
import ChartTree.Session

/-!
# Normal forms of documents

What a JSON text says about the value that it was written from. The normal form of a value is
given by a relation that does not speak of writing: scalars are themselves, a binary64 number is the
shortest decimal of it, tuples are arrays, dictionaries are ordered members, and values of
calendars, decimal numbers and identifiers are the texts that the framework gives them. A value
without infinities and not-a-numbers has at most one normal form, and its text in any layout is a
text of that form.
-/

namespace ChartTree

/-! ### Normal forms -/

def Binary64.isFinite : Binary64 → Bool
  | .finite .. => true
  | _ => false

namespace Json

mutual

/-- Whether a value is one of the standard format, which has no infinities and no
not-a-number. -/
def isStandard : Json → Bool
  | .nan => false
  | .infinite _ => false
  | .array items => allStandard items
  | .object members => membersStandard members
  | _ => true
termination_by structural j => j

def allStandard : List Json → Bool
  | [] => true
  | j :: js => j.isStandard && allStandard js
termination_by structural js => js

def membersStandard : List (String × Json) → Bool
  | [] => true
  | (_, j) :: ms => j.isStandard && membersStandard ms
termination_by structural ms => ms

end

end Json

namespace Value

mutual

/-- Whether every binary64 number in a value, keys included, is finite. -/
def hasFiniteNumbers : Value → Bool
  | ⟨_, .float x⟩ => x.isFinite
  | ⟨_, .list items⟩ => allFinite items
  | ⟨_, .tuple items⟩ => allFinite items
  | ⟨_, .dict entries⟩ => entriesFinite entries
  | _ => true
termination_by structural v => v

def allFinite : List Value → Bool
  | [] => true
  | v :: vs => v.hasFiniteNumbers && allFinite vs
termination_by structural vs => vs

def entriesFinite : List (Value × Value) → Bool
  | [] => true
  | (key, v) :: es => key.hasFiniteNumbers && (v.hasFiniteNumbers && entriesFinite es)
termination_by structural es => es

end

/-- The name of a member that stands for an entry under a key. -/
inductive KeyName : Value → String → Prop where
  | string (id : Option Identity) (s : String) : KeyName ⟨id, .string s⟩ s
  | null (id : Option Identity) : KeyName ⟨id, .null⟩ "null"
  | true (id : Option Identity) : KeyName ⟨id, .bool true⟩ "true"
  | false (id : Option Identity) : KeyName ⟨id, .bool false⟩ "false"
  | int (id : Option Identity) (n : Int) : KeyName ⟨id, .int n⟩ (toString n)
  | float (id : Option Identity) {x : Binary64} {n : Numeral}
      (text : Numeral.read x.text.toList = some (n, [])) (shortest : x.IsShortest n) :
      KeyName ⟨id, .float x⟩ x.text

mutual

/-- A JSON value is the normal form of a value, in a framework. -/
inductive NormalForm (fw : Framework) : Value → Json → Prop where
  | null (id : Option Identity) : NormalForm fw ⟨id, .null⟩ .null
  | bool (id : Option Identity) (b : Bool) : NormalForm fw ⟨id, .bool b⟩ (.bool b)
  | int (id : Option Identity) {n : Int} {m : Numeral} (value : m.toInt? = some n)
      (sign : m.negative = decide (n < 0)) : NormalForm fw ⟨id, .int n⟩ (.number m)
  /-- A binary64 number is the numeral that its text writes, and that is its shortest decimal. -/
  | float (id : Option Identity) {x : Binary64} {n : Numeral}
      (text : Numeral.read x.text.toList = some (n, [])) (shortest : x.IsShortest n) :
      NormalForm fw ⟨id, .float x⟩ (.number n)
  | string (id : Option Identity) (s : String) : NormalForm fw ⟨id, .string s⟩ (.string s)
  | list (id : Option Identity) {items : List Value} {js : List Json}
      (forms : NormalForms fw items js) : NormalForm fw ⟨id, .list items⟩ (.array js)
  | tuple (id : Option Identity) {items : List Value} {js : List Json}
      (forms : NormalForms fw items js) : NormalForm fw ⟨id, .tuple items⟩ (.array js)
  | dict (id : Option Identity) {entries : List (Value × Value)} {ms : List (String × Json)}
      (forms : NormalMembers fw entries ms) : NormalForm fw ⟨id, .dict entries⟩ (.object ms)
  | date (id : Option Identity) {d : Date} {s : String} (text : fw.encoded (.date d) = .text s) :
      NormalForm fw ⟨id, .date d⟩ (.string s)
  /-- A time of day has a normal form only if it does not say how far it is from universal time. -/
  | time (id : Option Identity) {t : Time} {s : String} (naive : t.offset = none)
      (text : fw.encoded (.time t) = .text s) : NormalForm fw ⟨id, .time t⟩ (.string s)
  | datetime (id : Option Identity) {d : DateTime} {s : String}
      (text : fw.encoded (.datetime d) = .text s) : NormalForm fw ⟨id, .datetime d⟩ (.string s)
  | duration (id : Option Identity) {d : Duration} {s : String}
      (text : fw.encoded (.duration d) = .text s) : NormalForm fw ⟨id, .duration d⟩ (.string s)
  | decimal (id : Option Identity) {d : Decimal} {s : String}
      (text : fw.encoded (.decimal d) = .text s) : NormalForm fw ⟨id, .decimal d⟩ (.string s)
  | uuid (id : Option Identity) {u : Uuid} {s : String} (text : fw.encoded (.uuid u) = .text s) :
      NormalForm fw ⟨id, .uuid u⟩ (.string s)

/-- JSON values are the normal forms of values, one by one. -/
inductive NormalForms (fw : Framework) : List Value → List Json → Prop where
  | nil : NormalForms fw [] []
  | cons {v : Value} {j : Json} {vs : List Value} {js : List Json} (first : NormalForm fw v j)
      (rest : NormalForms fw vs js) : NormalForms fw (v :: vs) (j :: js)

/-- Members are the normal forms of entries, one by one and in their order. -/
inductive NormalMembers (fw : Framework) :
    List (Value × Value) → List (String × Json) → Prop where
  | nil : NormalMembers fw [] []
  | cons {key v : Value} {name : String} {j : Json} {es : List (Value × Value)}
      {ms : List (String × Json)} (named : KeyName key name) (first : NormalForm fw v j)
      (rest : NormalMembers fw es ms) : NormalMembers fw ((key, v) :: es) ((name, j) :: ms)

end

/-! ### Normal forms are what is written -/

/-- The text of a finite number is read as the numeral that is written for it. -/
theorem read_text_finite (negative : Bool) {m : Nat} {e : Int}
    (canonical : Binary64.isCanonical m e = true) (inRange : e ≤ Binary64.maxExponent) :
    Numeral.read (Binary64.finite negative m e canonical inRange).text.toList =
      some (Binary64.numeral negative m e, []) := by
  have read := (Binary64.numeral negative m e).read_text Numeral.stops_nil
  rw [List.append_nil] at read
  rw [Binary64.text, String.toList_ofList, read]

/-- The text of an integer is its decimal one. -/
theorem ofList_signed (n : Int) : String.ofList (Text.signed n) = toString n := by
  cases n with
  | ofNat n => rfl
  | negSucc n =>
    have written : toString (Int.negSucc n) = "-" ++ String.ofList (Text.decimal (n + 1)) := rfl
    have negative : Text.signed (Int.negSucc n) = "-".toList ++ Text.decimal (n + 1) :=
      if_pos (Int.negSucc_lt_zero n)
    rw [written, negative, String.ofList_append, String.ofList_toList]

theorem keyText_eq_ok_iff {key : Value} (finite : key.hasFiniteNumbers = true) {name : String} :
    key.keyText = .ok name ↔ KeyName key name := by
  obtain ⟨id, content⟩ := key
  constructor
  · intro ok
    cases content
    case null => cases ok; exact .null id
    case bool b =>
      cases b with
      | false => cases ok; exact .false id
      | true => cases ok; exact .true id
    case int n =>
      cases ok
      rw [ofList_signed]
      exact .int id n
    case string s => cases ok; exact .string id _
    case float x =>
      cases x with
      | finite _ _ _ canonical inRange =>
        cases ok
        exact .float id (read_text_finite _ canonical inRange)
          (Binary64.isShortest_numeral _ canonical inRange)
      | infinite => cases finite
      | nan => cases finite
    all_goals cases ok
  · intro named
    cases named with
    | float id _ _ =>
      rename_i x _ _ _
      cases x with
      | finite => rfl
      | infinite => cases finite
      | nan => cases finite
    | int id n => exact congrArg Except.ok (ofList_signed n)
    | _ => rfl

/-- A numeral without point and exponent is told from the integer that it writes and its sign. -/
theorem eq_ofInt {m : Numeral} {n : Int} (value : m.toInt? = some n)
    (sign : m.negative = decide (n < 0)) : m = .ofInt n := by
  obtain ⟨negative, whole, fraction, exponent⟩ := m
  rw [Numeral.toInt?] at value
  dsimp only at value sign
  split at value
  · rename_i plain
    obtain ⟨none, none'⟩ := Bool.and_eq_true_iff.1 plain
    have whole : whole = n.natAbs := by
      have value := Option.some.inj value
      split at value <;> omega
    rw [Numeral.ofInt, whole, sign, List.isEmpty_iff.1 none, Option.isNone_iff_eq_none.1 none']
  · cases value

variable {fw : Framework}

/-- A value that is written as its only normal form. -/
theorem iff_of_form {v : Value} {k : Json} (written : v.encode fw = .ok k)
    (form : NormalForm fw v k) (only : ∀ j, NormalForm fw v j → j = k) (j : Json) :
    v.encode fw = .ok j ↔ NormalForm fw v j := by
  rw [written]
  constructor
  · intro eq
    rwa [← Except.ok.inj eq]
  · intro other
    rw [only j other]

/-- What a framework gives a text is written as that text. -/
theorem form_eq_ok_iff {v : Value} {j : Json} :
    fw.form v = .ok j ↔ ∃ s, fw.encoded v.content = .text s ∧ j = .string s := by
  rw [Framework.form]
  cases fw.encoded v.content with
  | text s =>
    constructor
    · rintro ⟨⟩
      exact ⟨s, rfl, rfl⟩
    · rintro ⟨_, ⟨⟩, rfl⟩
      rfl
  | refusal message => exact ⟨nofun, nofun⟩
  | left => exact ⟨nofun, nofun⟩

/-- What a framework may give a text has such texts for its normal forms. -/
theorem iff_of_text {v : Value} {j : Json}
    (form : ∀ s, fw.encoded v.content = .text s → NormalForm fw v (.string s))
    (only : NormalForm fw v j → ∃ s, fw.encoded v.content = .text s ∧ j = .string s) :
    fw.form v = .ok j ↔ NormalForm fw v j := by
  rw [form_eq_ok_iff]
  refine ⟨?_, only⟩
  rintro ⟨s, text, rfl⟩
  exact form s text

/-- What a framework leaves to the writer has no form. -/
theorem iff_of_left {v : Value} {j : Json} (left : fw.encoded v.content = .left)
    (none : ¬NormalForm fw v j) : fw.form v = .ok j ↔ NormalForm fw v j := by
  rw [form_eq_ok_iff, left]
  exact ⟨nofun, fun form => absurd form none⟩

mutual

/-- What is written for a value is its normal form. -/
theorem encode_eq_ok_iff (documented : fw.Documented) : ∀ (v : Value) (j : Json),
    v.hasFiniteNumbers = true → (v.encode fw = .ok j ↔ NormalForm fw v j)
  | ⟨id, .null⟩, j, _ => iff_of_form rfl (.null id) (by rintro _ ⟨⟩; rfl) j
  | ⟨id, .bool b⟩, j, _ => iff_of_form rfl (.bool id b) (by rintro _ ⟨⟩; rfl) j
  | ⟨id, .int n⟩, j, _ => by
    refine iff_of_form rfl (.int id (Numeral.toInt?_ofInt n) rfl) (fun j form => ?_) j
    cases form with
    | int _ value sign => rw [eq_ofInt value sign]
  | ⟨id, .float (.finite negative m e canonical inRange)⟩, j, _ => by
    -- The digits that are written read back as this number, and they are its shortest decimal.
    have read := read_text_finite negative canonical inRange
    have shortest := Binary64.isShortest_numeral negative canonical inRange
    refine iff_of_form rfl (.float id read shortest) (fun j form => ?_) j
    cases form with
    | float _ text _ =>
      rw [read] at text
      cases text
      rfl
  | ⟨_, .float (.infinite _)⟩, _, finite => nomatch finite
  | ⟨_, .float .nan⟩, _, finite => nomatch finite
  | ⟨id, .string s⟩, j, _ => iff_of_form rfl (.string id s) (by rintro _ ⟨⟩; rfl) j
  | ⟨id, .list items⟩, j, finite => by
    rw [encode, map_eq_ok_iff]
    constructor
    · rintro ⟨js, ok, rfl⟩
      exact .list id ((encodeItems_eq_ok_iff documented items js finite).1 ok)
    · rintro ⟨⟩
      exact ⟨_, (encodeItems_eq_ok_iff documented items _ finite).2 ‹_›, rfl⟩
  | ⟨id, .tuple items⟩, j, finite => by
    rw [encode, map_eq_ok_iff]
    constructor
    · rintro ⟨js, ok, rfl⟩
      exact .tuple id ((encodeItems_eq_ok_iff documented items js finite).1 ok)
    · rintro ⟨⟩
      exact ⟨_, (encodeItems_eq_ok_iff documented items _ finite).2 ‹_›, rfl⟩
  | ⟨id, .dict entries⟩, j, finite => by
    rw [encode, map_eq_ok_iff]
    constructor
    · rintro ⟨ms, ok, rfl⟩
      exact .dict id ((encodeEntries_eq_ok_iff documented entries ms finite).1 ok)
    · rintro ⟨⟩
      exact ⟨_, (encodeEntries_eq_ok_iff documented entries _ finite).2 ‹_›, rfl⟩
  | ⟨id, .date d⟩, _, _ =>
    iff_of_text (fun _ text => .date id text) (by rintro ⟨⟩; exact ⟨_, ‹_›, rfl⟩)
  | ⟨id, .datetime d⟩, _, _ =>
    iff_of_text (fun _ text => .datetime id text) (by rintro ⟨⟩; exact ⟨_, ‹_›, rfl⟩)
  | ⟨id, .time t⟩, _, _ => by
    refine iff_of_text (fun s text => ?_) (by rintro ⟨⟩; exact ⟨_, ‹_›, rfl⟩)
    cases aware : t.isAware with
    | false => exact .time id (by simpa [Time.isAware] using aware) text
    | true => cases (documented.awareTime t aware).symm.trans text
  | ⟨id, .duration d⟩, _, _ =>
    iff_of_text (fun _ text => .duration id text) (by rintro ⟨⟩; exact ⟨_, ‹_›, rfl⟩)
  | ⟨id, .decimal d⟩, _, _ =>
    iff_of_text (fun _ text => .decimal id text) (by rintro ⟨⟩; exact ⟨_, ‹_›, rfl⟩)
  | ⟨id, .uuid u⟩, _, _ =>
    iff_of_text (fun _ text => .uuid id text) (by rintro ⟨⟩; exact ⟨_, ‹_›, rfl⟩)
  | ⟨_, .bytes b⟩, _, _ => iff_of_left (documented.bytes b) nofun
  | ⟨_, .node kind⟩, _, _ => iff_of_left (documented.node kind) nofun
  | ⟨_, .reference url values options⟩, _, _ =>
    iff_of_left (documented.reference url values options) nofun
termination_by structural v => v

theorem encodeItems_eq_ok_iff (documented : fw.Documented) : ∀ (vs : List Value) (js : List Json),
    allFinite vs = true → (encodeItems fw vs = .ok js ↔ NormalForms fw vs js)
  | [], js, _ => by
    constructor
    · rintro ⟨⟩
      exact .nil
    · rintro ⟨⟩
      rfl
  | v :: vs, js, finite => by
    rw [allFinite, Bool.and_eq_true] at finite
    constructor
    · intro ok
      obtain ⟨j, first, ok⟩ := bind_eq_ok_iff.1 ok
      obtain ⟨js, rest, ok⟩ := bind_eq_ok_iff.1 ok
      cases ok
      exact .cons ((encode_eq_ok_iff documented v j finite.1).1 first)
        ((encodeItems_eq_ok_iff documented vs js finite.2).1 rest)
    · intro forms
      cases forms with
      | cons first rest =>
        rw [encodeItems, (encode_eq_ok_iff documented v _ finite.1).2 first,
          (encodeItems_eq_ok_iff documented vs _ finite.2).2 rest]
        rfl
termination_by structural vs => vs

theorem encodeEntries_eq_ok_iff (documented : fw.Documented) :
    ∀ (es : List (Value × Value)) (ms : List (String × Json)), entriesFinite es = true →
      (encodeEntries fw es = .ok ms ↔ NormalMembers fw es ms)
  | [], ms, _ => by
    constructor
    · rintro ⟨⟩
      exact .nil
    · rintro ⟨⟩
      rfl
  | (key, v) :: es, ms, finite => by
    rw [entriesFinite, Bool.and_eq_true, Bool.and_eq_true] at finite
    constructor
    · intro ok
      obtain ⟨name, named, ok⟩ := bind_eq_ok_iff.1 ok
      obtain ⟨j, first, ok⟩ := bind_eq_ok_iff.1 ok
      obtain ⟨ms, rest, ok⟩ := bind_eq_ok_iff.1 ok
      cases ok
      exact .cons ((keyText_eq_ok_iff finite.1).1 named)
        ((encode_eq_ok_iff documented v j finite.2.1).1 first)
        ((encodeEntries_eq_ok_iff documented es ms finite.2.2).1 rest)
    · intro forms
      cases forms with
      | cons named first rest =>
        rw [encodeEntries, (keyText_eq_ok_iff finite.1).2 named,
          (encode_eq_ok_iff documented v _ finite.2.1).2 first,
          (encodeEntries_eq_ok_iff documented es _ finite.2.2).2 rest]
        rfl
termination_by structural es => es

end

mutual

theorem NormalForm.isStandard : ∀ {v : Value} {j : Json}, NormalForm fw v j → j.isStandard = true
  | _, _, .null _ | _, _, .bool _ _ | _, _, .int _ _ _ | _, _, .float _ _ _
  | _, _, .string _ _ => rfl
  | _, _, .list _ forms => by rw [Json.isStandard]; exact forms.allStandard
  | _, _, .tuple _ forms => by rw [Json.isStandard]; exact forms.allStandard
  | _, _, .dict _ forms => by rw [Json.isStandard]; exact forms.membersStandard
  | _, _, .date _ _ | _, _, .time _ _ _ | _, _, .datetime _ _ | _, _, .duration _ _
  | _, _, .decimal _ _ | _, _, .uuid _ _ => rfl

theorem NormalForms.allStandard : ∀ {vs : List Value} {js : List Json},
    NormalForms fw vs js → Json.allStandard js = true
  | _, _, .nil => rfl
  | _, _, .cons first rest => by
    rw [Json.allStandard, first.isStandard, rest.allStandard]
    rfl

theorem NormalMembers.membersStandard : ∀ {es : List (Value × Value)}
    {ms : List (String × Json)}, NormalMembers fw es ms → Json.membersStandard ms = true
  | _, _, .nil => rfl
  | _, _, .cons _ first rest => by
    rw [Json.membersStandard, first.isStandard, rest.membersStandard]
    rfl

end

/-! ### Documents -/

end Value

theorem Chart.compiled_eq_ok (c : Chart) {v : Value} (h : c.compiled = .ok v) :
    ∃ document, c.compile = .ok document ∧ v = document.toValue := by
  rw [compiled] at h
  split at h
  · rename_i document compile
    exact ⟨document, compile, (Except.ok.inj h).symm⟩
  · cases h

end ChartTree
