import Terrain.Error
import Terrain.Graph.Kind

/-! Notices: the lines that edits, passes and the collection of outputs write to a log. -/
namespace Terrain

inductive Level
  | debug
  | info
  | warn
  | error
  deriving DecidableEq

def Level.label : Level → String
  | debug => "DEBUG"
  | info => "INFO"
  | warn => "WARN"
  | error => "ERROR"

/-- What there is to notice. -/
inductive Notice
  /-- A new node takes the role of an old one, which is removed. -/
  | roleReplaced (node : NodeId) (role : Role)
  | nodeCalculated (node : NodeId) (kind : String)
  | nodeFailed (node : NodeId) (kind : String) (error : GraphError)
  /-- An input is connected to a node without a value and falls back on its literal. -/
  | literalUsed (input : String) (node : NodeId)
  /-- An input of an operator is connected to a node without a value and is left out. -/
  | inputLeftOut (input : String) (node : NodeId)
  /-- The coin of a layer of grids did not come up. -/
  | layerLeftOut (layer : Nat)
  | axisRefused (node : NodeId) (axis : PortType)
  /-- An output node is connected to a node without a value. -/
  | outputWithoutValue (node : NodeId)
  | passStalled (error : GraphError)
  | passDone (calculated failures stalled : Nat)
  /-- Of the output nodes of one channel the last one is used. -/
  | channelShared (channel : Channel) (node : NodeId)

namespace Notice

def level : Notice → Level
  | roleReplaced .. | nodeCalculated .. | layerLeftOut .. => .debug
  | passDone .. => .info
  | nodeFailed .. | literalUsed .. | inputLeftOut .. | axisRefused .. | outputWithoutValue ..
  | channelShared .. => .warn
  | passStalled .. => .error

def text : Notice → String
  | roleReplaced node role =>
    "replacing singleton node node=" ++ toString node ++ " role=" ++ role.label
  | nodeCalculated node kind => "node calculated node=" ++ toString node ++ " kind=" ++ kind
  | nodeFailed node kind error =>
    "Node " ++ toString node ++ " (" ++ kind ++ ") failed to compile: " ++ error.message
  | literalUsed input node =>
    "Input '" ++ input ++ "' of node " ++ toString node ++
      " has no upstream value; using its literal."
  | inputLeftOut input node =>
    "Input '" ++ input ++ "' of operator " ++ toString node ++
      " has no upstream value; it contributes nothing."
  | layerLeftOut layer => "operator layer excluded by apply chance layer=" ++ toString layer
  | axisRefused node axis =>
    "Select " ++ toString node ++ " has a " ++ axis.name ++
      " axis; only numeric axes are supported."
  | outputWithoutValue node =>
    "Output node " ++ toString node ++ " is connected to an upstream without a value."
  | passStalled error => error.message
  | passDone calculated failures stalled =>
    "Recalculated " ++ toString calculated ++ " node(s); " ++ toString failures ++
      " failure(s), " ++ toString stalled ++ " stalled."
  | channelShared channel node =>
    "Several output nodes feed channel " ++ channel.name ++ "; using node " ++ toString node ++ "."

/-- The line of a notice: its level, then its text. -/
def line (n : Notice) : String := n.level.label ++ " " ++ n.text

end Notice
end Terrain
