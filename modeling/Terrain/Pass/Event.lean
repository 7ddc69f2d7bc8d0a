import Terrain.Error

/-! Reports of passes, and the events that tell an observer of a pass as it goes. -/
namespace Terrain

/-- What a pass has done. -/
structure Report where
  /-- The nodes that compiled, in the order in which they did. -/
  calculated : List NodeId := []
  /-- The failures of nodes, and at the end the dependencies left open where the pass stalled. -/
  failures : List GraphError := []
  /-- The nodes left without values, in the order of their ids. -/
  stalled : List NodeId := []

/-- Whether every node of the pass compiled. -/
def Report.isComplete (r : Report) : Bool := r.failures.isEmpty && r.stalled.isEmpty

inductive Event
  /-- A pass starts over every node, or over what the seeds reach. -/
  | passStarted (full : Bool) (seeds : List NodeId)
  | nodeCalculated (node : NodeId) (kind : String)
  /-- A node fails for the first time in a pass. -/
  | compileFailed (node : NodeId) (error : GraphError)
  /-- No node that is left can compile. -/
  | stalled (nodes : List NodeId)
  | passFinished (report : Report)

inductive EventKind
  | passStarted
  | nodeCalculated
  | compileFailed
  | stalled
  | passFinished
  deriving DecidableEq

def Event.kind : Event → EventKind
  | passStarted _ _ => .passStarted
  | nodeCalculated _ _ => .nodeCalculated
  | compileFailed _ _ => .compileFailed
  | stalled _ => .stalled
  | passFinished _ => .passFinished

/-- Which kinds of events an observer wants. -/
abbrev Interest := EventKind → Bool

namespace Interest

def none : Interest := fun _ => false

def all : Interest := fun _ => true

def only (kinds : List EventKind) : Interest := kinds.contains

end Interest
end Terrain
