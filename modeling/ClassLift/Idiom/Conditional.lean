import ClassLift.Idiom.Draft

/-!
# Conditional expressions

`c ? a : b` is compiled to `if (!c) goto ELSE; push a; goto END; ELSE: push b; END: …`. The first value is left pending, and
the second stands at a known offset of the statement that uses the result. The branch leads to the second value, so the
condition is inverted.
-/

namespace ClassLift

namespace Conditional

def pending? (store : Store) (id : NodeId) : Option (NodeId × Offset) :=
  match store.kind? id with
  | some (.pendingConditional value second) => some (value, second)
  | _ => none

/-- The second value stays where it is in its statement, so it moves to a node of its own and the conditional takes its
place. -/
def fold (store : Store) (branch ifTrue ifFalse : NodeId) (kind : Kind) : Store :=
  let (moved, store) := store.allocate ifFalse kind
  (store.negate branch).replace ifFalse (.conditional branch ifTrue moved)

def step (store : Store) (spot : Spot) : Except MethodError (Store × Cursor) :=
  if !(store.kind? spot.current).any Kind.isBranch then .ok (store, spot.keep)
  else
    match spot.after with
    | pending :: jump :: rest =>
        match pending? store pending with
        | none => .ok (store, spot.keep)
        | some (ifTrue, second) =>
            if !(store.kind? jump).any Kind.isGoto then .ok (store, spot.keep)
            else
              match rest with
              | [] => .error .unconsumedConditional
              | use :: _ =>
                  match store.find? (fun node => node.offset == second) use with
                  | none => .ok (store, spot.keep)
                  | some ifFalse =>
                      match store.kind? ifFalse with
                      | none => .ok (store, spot.keep)
                      | some kind => .ok (fold store spot.current ifTrue ifFalse kind, ⟨spot.before, rest⟩)
    | _ => .ok (store, spot.keep)

def recover (draft : Draft) : Except MethodError Draft := draft.sweep step

end Conditional

end ClassLift
