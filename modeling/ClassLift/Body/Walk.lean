import ClassLift.Body.Store

/-!
# Traversals

`Store.walk` visits a node and everything below it in pre-order: the node, its operands in order of evaluation, the
statements of its bodies. The visitor runs in any monad, so that it can collect, count or stop early. A path through a store
without cycles has at most as many nodes as the store, which bounds the depth of every traversal.
-/

namespace ClassLift

namespace Store

variable {m : Type → Type} [Monad m]

def walkWithin (store : Store) (visit : NodeId → Node → m PUnit) : Nat → NodeId → m PUnit
  | 0, _ => pure ⟨⟩
  | depth + 1, id =>
      match store.node? id with
      | none => pure ⟨⟩
      | some node => do
          visit id node
          node.kind.children.forM (walkWithin store visit depth)

def walk (store : Store) (visit : NodeId → Node → m PUnit) (root : NodeId) : m PUnit :=
  store.walkWithin visit store.size root

def walkList (store : Store) (visit : NodeId → Node → m PUnit) (roots : List NodeId) : m PUnit :=
  roots.forM (store.walk visit)

def preorderWithin (store : Store) : Nat → NodeId → List NodeId
  | 0, _ => []
  | depth + 1, id =>
      match store.kind? id with
      | none => []
      | some kind => id :: kind.children.flatMap (preorderWithin store depth)

def preorder (store : Store) (root : NodeId) : List NodeId := store.preorderWithin store.size root

def postorderWithin (store : Store) : Nat → NodeId → List NodeId
  | 0, _ => []
  | depth + 1, id =>
      match store.kind? id with
      | none => []
      | some kind => kind.children.flatMap (postorderWithin store depth) ++ [id]

/-- Every node below the roots, after everything below itself. A change in this order finds operands already changed. -/
def postorder (store : Store) (roots : List NodeId) : List NodeId :=
  roots.flatMap (store.postorderWithin store.size)

/-! ## Questions about the nodes below a root -/

def find? (store : Store) (predicate : Node → Bool) (root : NodeId) : Option NodeId :=
  match store.walk (m := Except NodeId) (fun id node => if predicate node then .error id else .ok ⟨⟩) root with
  | .error id => some id
  | .ok _ => none

def any (store : Store) (predicate : Node → Bool) (root : NodeId) : Bool := (store.find? predicate root).isSome

def startOffset (store : Store) (root : NodeId) : Offset :=
  let least (_ : NodeId) (node : Node) : StateM (Option Offset) PUnit :=
    modify fun found => some (found.elim node.offset (min node.offset))
  ((store.walk least root).run none).2.getD 0

def findDupLoad? (store : Store) (source root : NodeId) : Option NodeId :=
  store.find? (fun node => node.kind.isDupLoadOf source) root

def countDupLoads (store : Store) (source : NodeId) (roots : List NodeId) : Nat :=
  let count (_ : NodeId) (node : Node) : StateM Nat PUnit :=
    modify fun found => if node.kind.isDupLoadOf source then found + 1 else found
  ((store.walkList count roots).run 0).2

end Store

end ClassLift
