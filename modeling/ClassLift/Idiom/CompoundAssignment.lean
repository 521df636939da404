import ClassLift.Idiom.Draft

/-!
# Compound assignments

`x = x op y` is `x op= y`, as a statement and as a value. The object or array that `x` belongs to is often held for its two
uses; one of them is gone with the fold, so it goes back to its place.
-/

namespace ClassLift

namespace CompoundAssignment

def operands? (store : Store) (value : NodeId) : Option (BinaryOp × NodeId × NodeId) :=
  match store.kind? value with
  | some (.binary op lhs rhs) => if op.hasCompoundForm then some (op, lhs, rhs) else none
  | _ => none

def step (store : Store) (spot : Spot) : Store × Cursor :=
  match store.kind? spot.current with
  | some (.write place value) =>
      match operands? store value with
      | some (op, lhs, rhs) =>
          if store.readsPlace place lhs then
            (store.replace spot.current (.assign (.compound op) lhs rhs)).inlineHeldBelow spot.keep lhs
          else (store, spot.keep)
      | none => (store, spot.keep)
  | _ => (store, spot.keep)

def foldNode (store : Store) (id : NodeId) : Store :=
  match store.kind? id with
  | some (.assign .plain target value) =>
      match operands? store value with
      | some (op, lhs, rhs) =>
          if store.equal target lhs then store.replace id (.assign (.compound op) target rhs) else store
      | none => store
  | _ => store

def recover (draft : Draft) : Draft :=
  let draft := Id.run (draft.sweep fun store spot => pure (step store spot))
  { draft with store := (draft.store.postorder draft.statements).foldl foldNode draft.store }

end CompoundAssignment

end ClassLift
