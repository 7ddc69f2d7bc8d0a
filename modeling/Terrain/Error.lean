import Terrain.Graph.Port

/-! Why an edit is refused, and why a node does not compile. -/
namespace Terrain

/-- Why a node does not compile. -/
inductive CompileFault
  /-- The kind reads an input that the node does not have. -/
  | noInputNamed (name : String)
  /-- A required input is neither connected to a value nor given a literal. -/
  | noValue (input : String)
  /-- The axis of a select node carries tokens. -/
  | axisNotNumeric
  /-- A reason of the host's own. -/
  | stated (reason : String)

def CompileFault.message : CompileFault → String
  | noInputNamed name => "no input named '" ++ name ++ "'"
  | noValue input => "required input '" ++ input ++ "' has no value"
  | axisNotNumeric => "select axis must be a value or value grid"
  | stated reason => reason

/-- Why two ports cannot be connected, whatever their types. -/
inductive ConnectionFault
  | wrongDirection
  | selfFed
  | stated (reason : String)

def ConnectionFault.message : ConnectionFault → String
  | wrongDirection => "connections run from an output to an input"
  | selfFed => "a node cannot feed itself"
  | stated reason => reason

/-- Why the geometry of a map is refused. -/
inductive MapFault
  | noCells
  | spanNotPositive
  | stated (reason : String)

def MapFault.message : MapFault → String
  | noCells => "width and height must be > 0"
  | spanNotPositive => "full_size must be finite and > 0"
  | stated reason => reason

/-- An error of the library. Edits fail with one and leave the graph as it was; failures to
compile and unsatisfiable dependencies are reported by passes. -/
inductive GraphError
  | incompatibleType (port : PortRef) (expected found : PortType)
  | incompatibleLiteral (port : PortRef)
  | arityViolation (node : NodeId) (least : Nat)
  | compileFailure (node : NodeId) (fault : CompileFault)
  | unsatisfiableDependency (nodes : List NodeId)
  | notDynamic (node : NodeId)
  | signatureChange (node : NodeId)
  | unknownNode (node : NodeId)
  | unknownPort (port : PortRef)
  | noPortNamed (node : NodeId) (name : String)
  | invalidConnection (source target : PortRef) (fault : ConnectionFault)
  | singletonViolation (role : String) (graph : String)
  | invalidMap (fault : MapFault)
  | other (text : String)

def NodeId.listLabel (ids : List NodeId) : String :=
  "[" ++ ", ".intercalate (ids.map fun id => "NodeId(" ++ toString id.index ++ ")") ++ "]"

def GraphError.message : GraphError → String
  | incompatibleType port expected found =>
    "incompatible type at port " ++ toString port ++ ": expected " ++ toString expected ++
      ", found " ++ toString found
  | incompatibleLiteral port => "literal does not match the type of port " ++ toString port
  | arityViolation node least =>
    "node " ++ toString node ++ " must keep at least " ++ toString least ++ " dynamic ports"
  | compileFailure node fault =>
    "node " ++ toString node ++ " failed to compile: " ++ fault.message
  | unsatisfiableDependency nodes =>
    "unsatisfiable dependencies for nodes " ++ NodeId.listLabel nodes
  | notDynamic node => "node " ++ toString node ++ " has no dynamic ports"
  | signatureChange node => "edit would change the port signature of node " ++ toString node
  | unknownNode node => "unknown node " ++ toString node
  | unknownPort port => "unknown port " ++ toString port
  | noPortNamed node name =>
    "node " ++ toString node ++ " has no port named '" ++ name ++ "'"
  | invalidConnection source target fault =>
    "invalid connection " ++ toString source ++ " -> " ++ toString target ++ ": " ++ fault.message
  | singletonViolation role graph =>
    "cannot remove the last " ++ role ++ " node of bound graph '" ++ graph ++ "'"
  | invalidMap fault => "invalid configuration: " ++ fault.message
  | other text => text

end Terrain
