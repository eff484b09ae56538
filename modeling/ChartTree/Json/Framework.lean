import ChartTree.Json.Script
import ChartTree.Value.Display

/-!
# The framework of a page

What rendering leaves to the web framework around it: the forms of values that JSON itself has none
for, texts in markup, and the script element that holds a JSON text. The framework is a parameter of
rendering. Nothing is known of it but what its documentation says.
-/

namespace ChartTree

/-- What an encoder makes of a value that JSON has no form for. -/
inductive Encoded where
  | text (s : String)
  | refusal (message : String)
  /-- The value is left to the writer of JSON, which refuses it. -/
  | left
deriving DecidableEq, Repr

/-- The identifier that an element of a page is given: a value, or a text that is marked as safe
markup. -/
inductive ElementId where
  | value (v : Value)
  | markup (s : String)

namespace ElementId

/-- Whether there is an identifier at all. -/
def truthy : ElementId → Bool
  | .value v => v.truthy
  | .markup s => s != ""

/-- The identifier in markup, where texts are escaped unless they are marked as safe. -/
def inMarkup (escape : String → String) : ElementId → String
  | .value v => escape v.text
  | .markup s => s

/-- The attribute of an identifier, if there is one. -/
def idAttribute (escape : String → String) (id : ElementId) : List Char :=
  if id.truthy then " id=\"".toList ++ ((id.inMarkup escape).toList ++ ['\x22']) else []

end ElementId

/-- What rendering uses of a web framework. -/
structure Framework where
  /-- The form of a value that JSON has none for. -/
  encoded : Content Value → Encoded
  /-- A text in markup. -/
  escape : String → String
  /-- The script element of a JSON text. -/
  jsonScript : String → ElementId → String

/-- What the documentation of a framework says. -/
structure Framework.Documented (fw : Framework) : Prop where
  date : ∀ d, ∃ s, fw.encoded (.date d) = .text s
  datetime : ∀ d, ∃ s, fw.encoded (.datetime d) = .text s
  naiveTime : ∀ t, t.isAware = false → ∃ s, fw.encoded (.time t) = .text s
  awareTime : ∀ t, t.isAware = true →
    fw.encoded (.time t) = .refusal "JSON can't represent timezone-aware times."
  duration : ∀ d, ∃ s, fw.encoded (.duration d) = .text s
  decimal : ∀ d, ∃ s, fw.encoded (.decimal d) = .text s
  uuid : ∀ u, ∃ s, fw.encoded (.uuid u) = .text s
  bytes : ∀ b, fw.encoded (.bytes b) = .left
  node : ∀ kind, fw.encoded (.node kind) = .left
  reference : ∀ url values options, fw.encoded (.reference url values options) = .left
  escape : ∀ s, (fw.escape s).toList = s.toList.flatMap Json.attributeChar
  jsonScript : ∀ text id, (fw.jsonScript text id).toList = "<script".toList ++
    (id.idAttribute fw.escape ++ (" type=\"application/json\">".toList ++
      (text.toList.flatMap Json.scriptChar ++ "</script>".toList)))

end ChartTree
