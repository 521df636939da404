import ClassLift.Body.Walk

/-!
# Shapes shared by several analyses
-/

namespace ClassLift

namespace Store

def isSlotRead (store : Store) (id : NodeId) : Bool :=
  match store.kind? id with
  | some (.read (.slot ..)) => true
  | _ => false

def specialOnThis? (store : Store) (id : NodeId) : Option (PoolIndex × List NodeId) :=
  match store.kind? id with
  | some (.call .special method (some object) arguments) =>
      if store.isSlot object 0 then some (method, arguments) else none
  | _ => none

end Store

end ClassLift
