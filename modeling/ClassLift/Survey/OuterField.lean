import ClassLift.Body.Pattern
import ClassLift.Diagnostic

/-!
# The field of the enclosing instance

A constructor of an inner class gets the enclosing instance as its first parameter and stores it in a field, unless it leaves
that to another constructor of the class. All constructors have to agree on the field.
-/

namespace ClassLift

inductive OuterStore where
  | assigns (field : PoolIndex)
  | delegates
  | missing
  deriving DecidableEq, Inhabited

namespace OuterStore

/-- Looks for `this.field = parameter` or a call of a constructor of the class itself, whichever comes first. -/
def scan (pool : Pool) (className : String) (store : Store) : List NodeId → Except PoolError OuterStore
  | [] => .ok missing
  | id :: rest =>
      match store.kind? id with
      | some (.write (.field field object) value) =>
          if store.isSlot object 0 && store.isSlot value 1 then .ok (assigns field)
          else scan pool className store rest
      | _ =>
          match store.specialOnThis? id with
          | none => scan pool className store rest
          | some (method, _) => do
              let called ← pool.member method
              if called.name == "<init>" && called.owner == className then return delegates
              scan pool className store rest

def ofConstructor (file : ClassFile) (method : Method) : Except PoolError OuterStore := do
  let some code := method.code | return missing
  scan file.pool (← file.name) code.store code.instructions

/-- The field that every constructor assigns which does not delegate. There is none if two disagree or one assigns
nothing. -/
def agreed : Option PoolIndex → List OuterStore → Option PoolIndex
  | candidate, [] => candidate
  | none, assigns field :: rest => agreed (some field) rest
  | some other, assigns field :: rest => if other = field then agreed (some other) rest else none
  | candidate, delegates :: rest => agreed candidate rest
  | _, missing :: _ => none

end OuterStore

namespace ClassFile

def resolveOuterField? (file : ClassFile) (scans : List OuterStore) : Except PoolError (Option OuterField) := do
  let some reference := OuterStore.agreed none scans | return none
  let stored ← file.pool.member reference
  if stored.owner != (← file.name) then return none
  return (file.findField? stored.name stored.descriptor).map fun field => { reference, field }

def callArguments? (pool : Pool) (owner : String) (store : Store) : List NodeId → Except PoolError (Option Nat)
  | [] => .ok none
  | id :: rest =>
      match store.specialOnThis? id with
      | none => callArguments? pool owner store rest
      | some (method, arguments) => do
          let called ← pool.member method
          if called.name == "<init>" && called.owner == owner then return some arguments.length
          callArguments? pool owner store rest

def superArguments? (file : ClassFile) (method : Method) : Except PoolError (Option Nat) := do
  let some superName ← file.superName | return none
  let some code := method.code | return none
  callArguments? file.pool superName code.store code.instructions

end ClassFile

end ClassLift
