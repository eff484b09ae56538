import ChartTree.Data.Shared
import ChartTree.Text.Digits

/-!
# Dataset registry

Inline collections in the order in which they are first met. A collection is named by its place,
so a name once given stays and a later collection takes the next number.
-/

namespace ChartTree

/-- What every dataset name starts with. -/
def datasetStem : String := "ds_"

def datasetName (place : Nat) : String :=
  datasetStem ++ String.ofList (Text.decimal place)

/-- The inline collections met so far, each once. -/
structure Registry where
  /-- The collections in the order of their names. -/
  blobs : List Shared

namespace Registry

def empty : Registry :=
  ⟨[]⟩

def size (r : Registry) : Nat :=
  r.blobs.length

/-- The place of a collection, if it was met. -/
def place? (r : Registry) (blob : Shared) : Option Nat :=
  r.blobs.findIdx? fun held => held.same blob

/-- The name of a collection, which is taken in at the end if it was not met before. -/
def nameFor (r : Registry) (blob : Shared) : String × Registry :=
  match r.place? blob with
  | some place => (datasetName place, r)
  | none => (datasetName r.size, ⟨r.blobs ++ [blob]⟩)

/-- The collections under their names. -/
def table (r : Registry) : List (String × Shared) :=
  r.blobs.zipIdx.map fun (blob, place) => (datasetName place, blob)

end Registry

end ChartTree
