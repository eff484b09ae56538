import ChartTree.Value.Equality

/-!
# Dictionaries

Look-up and change in a dictionary. An entry is found under any key that agrees with its own.
Writing to a key that is present changes the value in its place and keeps the key; a new key goes
last.
-/

namespace ChartTree.Dict

def get? (d : Dict) (key : Value) : Option Value :=
  (d.find? fun e => key.alike e.1).map (·.2)

/-- The dictionary with a value written under a key. -/
def insert (d : Dict) (key value : Value) : Dict :=
  match d with
  | [] => [(key, value)]
  | e :: rest => if key.alike e.1 then (e.1, value) :: rest else e :: insert rest key value

/-- The dictionary without the entry under a key. -/
def erase (d : Dict) (key : Value) : Dict :=
  d.filter fun e => !key.alike e.1

/-- The dictionary without the entries under any of the keys. -/
def eraseAll (d : Dict) (keys : List String) : Dict :=
  keys.foldl (fun d key => Dict.erase d (.string key)) d

/-- The dictionary with every entry of another one written in order. -/
def merge (d entries : Dict) : Dict :=
  entries.foldl (fun d e => Dict.insert d e.1 e.2) d

def keys (d : Dict) : List Value :=
  d.map (·.1)

def hasKey (d : Dict) (key : Value) : Bool :=
  (Dict.get? d key).isSome

/-- The dictionary of entries under texts. -/
def ofFields (fields : List (String × Value)) : Dict :=
  fields.map fun (name, value) => (.string name, value)

theorem get?_cons (e : Value × Value) (d : Dict) (key : Value) :
    get? (e :: d) key = if key.alike e.1 then some e.2 else get? d key := by
  by_cases h : key.alike e.1 = true <;> simp [get?, h]

theorem get?_insert_self (d : Dict) (name : String) (value : Value) :
    get? (insert d (.string name) value) (.string name) = some value := by
  induction d with
  | nil => simp [insert, get?_cons, Value.alike_string, Value.content]
  | cons e d ih =>
    by_cases h : (Value.string name).alike e.1 = true
    · simp [insert, get?_cons, h]
    · simp [insert, get?_cons, h, ih]

theorem get?_insert_of_ne (d : Dict) {name other : String} (differ : name ≠ other) (value : Value) :
    get? (insert d (.string name) value) (.string other) = get? d (.string other) := by
  have unlike : ∀ v : Value, v.content = .string name → (Value.string other).alike v = false := by
    intro v content
    rw [Bool.eq_false_iff, ne_eq, Value.alike_string, content]
    simpa using differ
  induction d with
  | nil => simp [insert, get?_cons, unlike (.string name) rfl]
  | cons e d ih =>
    by_cases h : (Value.string name).alike e.1 = true
    · simp [insert, h, get?_cons, unlike e.1 (Value.alike_string.1 h)]
    · simp [insert, get?_cons, h, ih]

theorem get?_erase_self (d : Dict) (name : String) :
    get? (erase d (.string name)) (.string name) = none := by
  induction d with
  | nil => rfl
  | cons e d ih =>
    by_cases h : (Value.string name).alike e.1 = true
    · simpa [erase, h] using ih
    · simpa [erase, h, get?_cons] using ih

end ChartTree.Dict
