import ChartTree.Chart.Compile
import ChartTree.Json.Encode

/-!
# Rendering

Documents as JSON text and as script elements of a page, in a web framework, and charts as the
rendering of the documents that they compile to.
-/

namespace ChartTree

/-- Why a chart cannot be rendered. -/
inductive RenderError where
  | compile (reason : CompileError)
  | encode (reason : EncodeError)

def RenderError.message (l : Json.Layout) : RenderError → String
  | .compile reason => reason.message
  | .encode reason => reason.message l

namespace Value

def toJson (fw : Framework) (v : Value) (l : Json.Layout) : Except EncodeError String :=
  (v.encode fw).map (Json.render l)

def toScript (fw : Framework) (v : Value) (id : ElementId) : Except EncodeError String :=
  (v.encode fw).map fun j => fw.jsonScript (Json.render .inline j) id

end Value

namespace Chart

/-- The value of the document of a chart. -/
def compiled (c : Chart) : Except RenderError Value :=
  match c.compile with
  | .ok document => .ok document.toValue
  | .error reason => .error (.compile reason)

def toJson (fw : Framework) (c : Chart) (l : Json.Layout) : Except RenderError String := do
  let v ← c.compiled
  (v.toJson fw l).mapError .encode

def toScript (fw : Framework) (c : Chart) (id : ElementId) : Except RenderError String := do
  let v ← c.compiled
  (v.toScript fw id).mapError .encode

end Chart

end ChartTree
