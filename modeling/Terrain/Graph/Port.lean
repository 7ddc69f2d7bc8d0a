import Terrain.Signal

/-! The identities of nodes and ports, the types of ports, and ports themselves. -/
namespace Terrain

structure NodeId where
  index : Nat
  deriving DecidableEq, Hashable

/-- A number of a port is taken modulo the number of words. -/
instance wordOfNat : Coe Nat UInt32 := ⟨UInt32.ofNat⟩

/-- A port within its node, by a word. The id stays with the port when ports beside it come and
go. -/
structure PortId where
  word : UInt32
  deriving DecidableEq, Hashable

namespace PortId

def index (id : PortId) : Nat := id.word.toNat

/-- The id of the port that is the next after a number of others. There are only so many words, so
that it has been the id of another where there are more ports. -/
def ofIndex (i : Nat) : PortId := ⟨i⟩

end PortId

structure PortRef where
  node : NodeId
  port : PortId
  deriving DecidableEq

instance : ToString NodeId := ⟨fun id => "#" ++ toString id.index⟩
instance : ToString PortRef := ⟨fun p => toString p.node ++ ":" ++ toString p.port.index⟩

/-- A value that a node holds for an input that is not connected. -/
inductive Literal
  | number (value : Scalar)
  | token (token : Option Token)
  deriving BEq

namespace Literal

def asNumber : Literal → Scalar
  | number v => v
  | token _ => 0

def asToken : Literal → Option Token
  | number _ => none
  | token t => t

/-- A literal read as a value of a sort. -/
def read : (s : Signal) → Literal → s.Carrier
  | .number, l => l.asNumber
  | .token, l => l.asToken

def signal : Literal → Signal
  | number _ => .number
  | token _ => .token

end Literal

/-- The type of a port. Ports connect only when their types are equal. -/
inductive PortType
  | value
  | token (kind : TokenKind)
  | valueGrid
  | tokenGrid (kind : TokenKind)
  deriving DecidableEq

namespace PortType

def isGrid : PortType → Bool
  | valueGrid | tokenGrid _ => true
  | value | token _ => false

/-- The grid over the same values; a grid is its own. -/
def asGrid : PortType → PortType
  | value | valueGrid => valueGrid
  | token k | tokenGrid k => tokenGrid k

def signal : PortType → Signal
  | value | valueGrid => .number
  | token _ | tokenGrid _ => .token

/-- The literal of a fresh input: zero, or no token. -/
def defaultLiteral : PortType → Literal
  | value | valueGrid => .number 0
  | token _ | tokenGrid _ => .token none

/-- Whether a literal can stand in for a connection of this type. -/
def accepts (t : PortType) (l : Literal) : Bool := l.signal = t.signal

def label : PortType → String
  | value => "Value"
  | token k => "Token<" ++ k.label ++ ">"
  | valueGrid => "ValueGrid"
  | tokenGrid k => "TokenGrid<" ++ k.label ++ ">"

def name : PortType → String
  | value => "Value"
  | token k => "Token(" ++ k.name ++ ")"
  | valueGrid => "ValueGrid"
  | tokenGrid k => "TokenGrid(" ++ k.name ++ ")"

end PortType

instance : ToString PortType := ⟨PortType.label⟩

/-- A port of a node. -/
structure Port where
  id : PortId
  name : String
  type : PortType
  /-- Whether the node fails to compile while the input is not connected. -/
  required : Bool
  /-- Whether an input belongs to the list that can grow. -/
  dynamic : Bool
  /-- What an input holds while it is not connected. -/
  literal : Option Literal

/-- A port as the kind of a node declares it. -/
structure PortDecl where
  name : String
  type : PortType
  required : Bool := false
  literal : Option Literal := none

/-- A list of inputs that can grow, as the kind of a node declares it. The ports of the list are
named by the stem and their place. -/
structure DynamicDecl where
  stem : String
  type : PortType
  /-- The length that the list never falls below. -/
  least : Nat

namespace PortDecl

/-- An input with a literal to fall back on. -/
def optional (name : String) (type : PortType) (literal : Literal) : PortDecl :=
  ⟨name, type, false, some literal⟩

/-- An input that has to be connected. -/
def needed (name : String) (type : PortType) : PortDecl := ⟨name, type, true, none⟩

def output (name : String) (type : PortType) : PortDecl := ⟨name, type, false, none⟩

def port (d : PortDecl) (id : PortId) : Port :=
  ⟨id, d.name, d.type, d.required, false, d.literal⟩

end PortDecl

namespace DynamicDecl

/-- The name of the port at a place of the list. -/
def nameAt (d : DynamicDecl) (place : Nat) : String := d.stem ++ toString place

/-- The port that joins the list at a place. -/
def port (d : DynamicDecl) (id : PortId) (place : Nat) : Port :=
  ⟨id, d.nameAt place, d.type, false, true, some d.type.defaultLiteral⟩

/-- Ports with those of the list named anew by their places, from one place on. -/
def rename (d : DynamicDecl) (place : Nat) : List Port → List Port
  | [] => []
  | p :: ports =>
    if p.dynamic then { p with name := d.nameAt place } :: d.rename (place + 1) ports
    else p :: d.rename place ports

end DynamicDecl
end Terrain
