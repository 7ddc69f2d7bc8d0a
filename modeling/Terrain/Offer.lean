import Terrain.Raster
import Terrain.Workspace

/-! What a computed graph offers to the host, channel by channel. -/
namespace Terrain

/-- The value that each channel holds. -/
structure Offer where
  held : Channel → Option PortValue

namespace Offer

def empty : Offer := ⟨fun _ => none⟩

def put (o : Offer) (channel : Channel) (v : PortValue) : Offer :=
  ⟨fun c => if c = channel then some v else o.held c⟩

/-- Takes up what a node offers, if it is an output node with a value. The value that the
channel held gives way to it, of which there is a notice. -/
def take (w : Workspace) (state : Offer × List Notice) (n : Node) : Offer × List Notice :=
  match n.kind, w.compiled.result? n.id with
  | .output channel, some v =>
    let notices :=
      if (state.1.held channel).isSome then [Notice.channelShared channel n.id] else []
    (state.1.put channel v, state.2 ++ notices)
  | _, _ => state

def collect (w : Workspace) : Offer × List Notice := w.graph.nodes.foldl (take w) (empty, [])

def channels (o : Offer) : List Channel := Channel.all.filter fun c => (o.held c).isSome

def isEmpty (o : Offer) : Bool := o.channels.isEmpty

/-- The grid of numbers that a channel holds. -/
def valueGrid? (o : Offer) (c : Channel) : Option ValueGrid :=
  (o.held c).bind (PortValue.grid? .number)

/-- The grid of tokens that a channel holds. -/
def tokenGrid? (o : Offer) (c : Channel) : Option TokenGrid :=
  (o.held c).bind (PortValue.grid? .token)

def bakeGrid {α : Type} (m : HostMap) (grid : Option (Grid α)) :
    Except GraphError (Option (Sampled (Raster α))) := do
  m.validate
  return grid.map (Raster.bake m)

def bakeValues (o : Offer) (c : Channel) (m : HostMap) :
    Except GraphError (Option (Sampled (Raster Scalar))) :=
  bakeGrid m (o.valueGrid? c)

def bakeTokens (o : Offer) (c : Channel) (m : HostMap) :
    Except GraphError (Option (Sampled (Raster (Option Token)))) :=
  bakeGrid m (o.tokenGrid? c)

end Offer
end Terrain
