import ClassLift.Idiom.Draft

/-!
# Constructor calls

`new C(arguments)` is compiled to an allocation, held for two uses, and a constructor call on it:
`dup := new C; dup.<init>(arguments); … dup …`. The allocation and the call become one expression.
-/

namespace ClassLift

namespace Construction

def constructorCall? (pool : Pool) (isObject : NodeId → Bool) : Option Kind → Except PoolError (Option Kind)
  | some (.call .special method (some object) arguments) => do
      if !isObject object then return none
      if (← pool.member method).name != "<init>" then return none
      return some (.construct method arguments)
  | _ => .ok none

def isAllocation (store : Store) (id : NodeId) : Bool :=
  match store.kind? id with
  | some (.allocate _) => true
  | _ => false

/-- Puts a construction in place of a held allocation: in its only use, in the statement itself when it is never used, else
where it is held. -/
def place (store : Store) (spot : Spot) (value : NodeId) (construction : Kind) (rest : List NodeId) : Store × Cursor :=
  match store.dupLoads spot.current (spot.before.reverse ++ spot.current :: rest) with
  | [] => (store.replace spot.current construction, ⟨spot.before, spot.current :: rest⟩)
  | [(_, use)] => (store.replace use construction, ⟨spot.before, rest⟩)
  | _ => (store.replace value construction, ⟨spot.before, spot.current :: rest⟩)

def step (pool : Pool) (store : Store) (spot : Spot) : Except PoolError (Store × Cursor) := do
  match store.kind? spot.current with
  | some (.dupStore value) =>
      if !isAllocation store value then return (store, spot.keep)
      let next :: rest := spot.after | return (store, spot.keep)
      match ← constructorCall? pool (store.isDupLoadOf · spot.current) (store.kind? next) with
      | some construction => return place store spot value construction rest
      | none => return (store, spot.keep)
  | kind =>
      match ← constructorCall? pool (isAllocation store) kind with
      | some construction => return (store.replace spot.current construction, spot.keep)
      | none => return (store, spot.keep)

def recover (pool : Pool) (draft : Draft) : Except PoolError Draft := draft.sweep (step pool)

end Construction

end ClassLift
