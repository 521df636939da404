import ClassLift.Body.Node

/-!
# Node stores

A store holds the nodes of one body under their numbers. Nodes are never removed, so a number keeps its meaning; a change
puts another kind under it and keeps its position, and a new node takes the position of a node that is already there.
-/

namespace ClassLift

structure Store where
  nodes : Array Node := #[]
  deriving DecidableEq, Inhabited

namespace Store

def size (store : Store) : Nat := store.nodes.size

def node? (store : Store) (id : NodeId) : Option Node := store.nodes[id]?

def kind? (store : Store) (id : NodeId) : Option Kind := (store.node? id).map Node.kind

def line? (store : Store) (id : NodeId) : Option UInt32 := (store.node? id).bind Node.line

def replace (store : Store) (id : NodeId) (kind : Kind) : Store :=
  ⟨store.nodes.modify id fun node => { node with kind }⟩

def allocate (store : Store) (origin : NodeId) (kind : Kind) : NodeId × Store :=
  match store.node? origin with
  | some node => (store.size, ⟨store.nodes.push { node with kind }⟩)
  | none => (store.size, store)

def negate (store : Store) (id : NodeId) : Store :=
  ⟨store.nodes.modify id fun node => { node with kind := node.kind.negateTest }⟩

def isDupLoadOf (store : Store) (id source : NodeId) : Bool := (store.kind? id).any (Kind.isDupLoadOf source)

def isSlot (store : Store) (id : NodeId) (slot : Slot) : Bool := (store.kind? id).any (Kind.isSlot slot)

end Store

end ClassLift
