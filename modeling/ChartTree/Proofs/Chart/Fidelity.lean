import ChartTree.Proofs.Chart.Datasets
import ChartTree.Proofs.Chart.Ending

/-!
# Documents mirror charts

The document of a chart mirrors the chart node by node. Every object has the properties of its node
in their order, copied and so apart from identities the same, then what compiling writes under keys
that no property has, and at the very end of the root the dataset table. Only the root has those
properties that mean something on a root alone.
-/

namespace ChartTree

/-! ### Copies apart from identities -/

namespace Value

mutual

/-- A value without the identities of the objects in it. -/
def bare : Value → Value
  | ⟨_, .list items⟩ => .list (bareItems items)
  | ⟨_, .tuple items⟩ => .tuple (bareItems items)
  | ⟨_, .dict entries⟩ => .dict (bareEntries entries)
  | ⟨_, .reference url values options⟩ =>
    ⟨none, .reference (bare url) (bare values) (bare options)⟩
  | v => ⟨none, v.content⟩
termination_by structural v => v

def bareItems : List Value → List Value
  | [] => []
  | v :: vs => bare v :: bareItems vs
termination_by structural vs => vs

def bareEntries : List (Value × Value) → List (Value × Value)
  | [] => []
  | (key, value) :: rest => (bare key, bare value) :: bareEntries rest
termination_by structural es => es

end

variable (occasion : Option Nat)

mutual

/-- A copy is the same value but for the identities of the objects in it. -/
theorem bare_copied : ∀ v : Value, bare (copied occasion v) = bare v
  | ⟨_, .list items⟩ => by rw [copied, bare, bare, bareItems_copiedItems items]
  | ⟨_, .tuple items⟩ => by rw [copied, bare, bare, bareItems_copiedItems items]
  | ⟨_, .dict entries⟩ => by rw [copied, bare, bare, bareEntries_copiedEntries entries]
  | ⟨_, .reference url values options⟩ => by
    rw [copied, bare, bare, bare_copied url, bare_copied values, bare_copied options]
  | ⟨_, .null⟩ | ⟨_, .bool _⟩ | ⟨_, .int _⟩ | ⟨_, .float _⟩ | ⟨_, .decimal _⟩ | ⟨_, .string _⟩
  | ⟨_, .bytes _⟩ | ⟨_, .date _⟩ | ⟨_, .time _⟩ | ⟨_, .datetime _⟩ | ⟨_, .duration _⟩
  | ⟨_, .uuid _⟩ | ⟨_, .node _⟩ => rfl
termination_by structural v => v

theorem bareItems_copiedItems :
    ∀ vs : List Value, bareItems (copiedItems occasion vs) = bareItems vs
  | [] => rfl
  | v :: vs => by rw [copiedItems, bareItems, bareItems, bare_copied v, bareItems_copiedItems vs]
termination_by structural vs => vs

theorem bareEntries_copiedEntries :
    ∀ es : List (Value × Value), bareEntries (copiedEntries occasion es) = bareEntries es
  | [] => rfl
  | (key, value) :: es => by
    rw [copiedEntries, bareEntries, bareEntries, bare_copied key, bare_copied value,
      bareEntries_copiedEntries es]
termination_by structural es => es

end

end Value

namespace Dict

variable (occasion : Option Nat)

theorem erase_copiedEntries (d : Dict) (name : String) :
    erase (Value.copiedEntries occasion d) (.string name) =
      Value.copiedEntries occasion (erase d (.string name)) := by
  induction d with
  | nil => rfl
  | cons e d ih =>
    rw [Value.copiedEntries]
    by_cases same : e.1.content = .string name
    · rw [erase_cons_of_content same]
      exact (erase_cons_of_content (Value.content_copied_eq_string.2 same)).trans ih
    · rw [erase_cons_of_content_ne same]
      exact (erase_cons_of_content_ne (mt Value.content_copied_eq_string.1 same)).trans
        (congrArg _ ih)

theorem eraseAll_copiedEntries (d : Dict) (names : List String) :
    eraseAll (Value.copiedEntries occasion d) names =
      Value.copiedEntries occasion (eraseAll d names) := by
  induction names generalizing d with
  | nil => rfl
  | cons name names ih =>
    exact (congrArg (eraseAll · names) (erase_copiedEntries occasion d name)).trans (ih _)

end Dict

/-! ### Properties in a document -/

/-- A node brings its properties into a document as they are and in their order: all of them into
the root, and into other objects those that not only a root has. None of them stands under a key
that compiling writes. -/
def Node.Kept (n : Node) : Prop :=
  ∃ id entries, n.properties = ⟨id, .dict entries⟩ ∧
    (∀ e ∈ entries, ∃ name, e.1 = .string name ∧ name ∉ generatedKeys) ∧
    ∀ isRoot, Value.bareEntries (n.ownEntries isRoot) =
      Value.bareEntries (if isRoot then entries else Dict.eraseAll entries rootOnlyKeys)

theorem Node.Regular.kept {n : Node} (h : n.Regular) : n.Kept := by
  obtain ⟨id, entries, eq, under⟩ := h.spec.properties
  have copies : n.entries = Value.copiedEntries none entries := Node.entriesOn_eq eq none
  have apart : ∀ name ∈ propertyKeys, name ∉ generatedKeys := by decide
  refine ⟨id, entries, eq, fun e he => ?_, fun isRoot => ?_⟩
  · obtain ⟨name, mem, key⟩ := under e he
    exact ⟨name, key, apart name mem⟩
  · -- Taking the keys of a root away before or after copying comes to the same.
    have own : n.ownEntries isRoot = Value.copiedEntries none
        (if isRoot then entries else Dict.eraseAll entries rootOnlyKeys) := by
      rw [Node.ownEntries_eq, copies, Dict.eraseAll_copiedEntries]
      cases isRoot <;> rfl
    rw [own, Value.bareEntries_copiedEntries]

namespace Chart

/-- The dataset table that ends the root of a document. -/
def tableEntry (c : Chart) (d : Document) : Dict :=
  if c.blobs = [] then [] else [(.string "datasets", d.tableValue)]

end Chart

end ChartTree
