import ChartTree.Node.Call
import ChartTree.Node.Write

/-!
# Entries that calls change

A setter changes dictionaries where they stand: the properties of a node, the definitions and the
repeated axes among them, the channels of the axes. Whoever else holds one of these sees the
change. So of every call it is told which entries of which dictionaries it writes or takes away.
-/

namespace ChartTree

namespace Call

/-- Where a call writes or takes away: a place of a node and the keys from there on. -/
def paths (k : Kind) : Call → List (Place × List String)
  | .data .. | .inner _ => []
  | .mark .. => [(.properties, ["mark"])]
  | .encode channel .. => match Edit.channelArg channel with
    | .ok c => [(.properties, [k.channelsKey, c.storedName])]
    | .error _ => []
  | .bindAxis axis .. => [(.properties, ["repeat", axis.name]), (.repeatChannels, [axis.name])]
  | .transform _ => [(.properties, ["transform"])]
  | .projection .. => [(.properties, ["projection"])]
  | .property p _ => [(.properties, [p.key])]

/-- Where a call may have written or taken away before it is refused: the repeated fields of an axis
whose channel cannot be changed. -/
def pathsRefused (n : Node) : Call → List (Place × List String)
  | .bindAxis axis .. => match n.repeatChannels.content with
    | .dict _ => []
    | _ => [(.properties, ["repeat", axis.name])]
  | _ => []

end Call

namespace Node

/-- The dictionaries that paths lead through in a node, each with its key. -/
def entriesAlong (n : Node) (paths : List (Place × List String)) : List (Value × String) :=
  paths.flatMap fun (place, names) => match Edit.valueAt n place with
    | .ok v => v.entriesAlong names
    | .error _ => []

end Node

end ChartTree
