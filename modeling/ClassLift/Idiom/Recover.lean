import ClassLift.Idiom.ArrayLiteral
import ClassLift.Idiom.Assignment
import ClassLift.Idiom.ClassLiteral
import ClassLift.Idiom.CompoundAssignment
import ClassLift.Idiom.Concatenation
import ClassLift.Idiom.Conditional
import ClassLift.Idiom.Construction
import ClassLift.Idiom.Increment
import ClassLift.Idiom.OuterInstance

/-!
# Recovering all idioms of a class

The idioms are recovered one after another; an earlier one is part of later ones. A method in which one of them fails gets its
raw body back and is flagged. Constants that were added to the pool and marks on other members stay.
-/

namespace ClassLift

def Code.recover (home : ClassId) (method : Nat) (code : Code) : OnTable Draft := do
  let draft ← OuterInstance.recover home method ⟨code.store, code.instructions⟩
  let draft ← Construction.recover (← OnTable.pool home) draft
  let draft := Increment.recover code.handlers draft
  let draft ← ClassLiteral.recover home draft
  let draft ← Concatenation.recover home draft
  let draft := Assignment.recover draft
  let draft := ArrayLiteral.recover draft
  let draft := CompoundAssignment.recover draft
  (Conditional.recover draft).mapError Failure.method

namespace ClassTable

def setCode (table : ClassTable) (home : ClassId) (method : Nat) (code : Code) : ClassTable :=
  table.modify home fun file => file.modifyMethod method fun declared => { declared with code := some code }

def flag (table : ClassTable) (home : ClassId) (method : Nat) (error : MethodError) : ClassTable × List Warning :=
  match table.get? home with
  | none => (table, [])
  | some file =>
      let (file, warning) := file.flag method error
      (table.set home file, [warning])

def recoverMethod (table : ClassTable) (home : ClassId) (method : Nat) :
    Except DescriptorError (ClassTable × List Warning) :=
  match (table.get? home).bind (·.methods[method]?) with
  | none => .ok (table, [])
  | some declared =>
      match declared.flagged, declared.code with
      | false, some code =>
          match code.recover home method table with
          | (.ok draft, table) =>
              .ok (table.setCode home method { code with store := draft.store, statements := draft.statements }, [])
          | (.error (.descriptor error), _) => .error error
          | (.error (.method error), table) =>
              .ok ((table.setCode home method { code with statements := code.instructions }).flag home method error)
      | _, _ => .ok (table, [])

def recoverMethods (table : ClassTable) (home : ClassId) : List Nat → Except DescriptorError (ClassTable × List Warning)
  | [] => .ok (table, [])
  | method :: rest => do
      let (table, warnings) ← table.recoverMethod home method
      let (table, more) ← table.recoverMethods home rest
      return (table, warnings ++ more)

def recover (table : ClassTable) (home : ClassId) : Except DescriptorError (ClassTable × List Warning) :=
  table.recoverMethods home (List.range ((table.get? home).elim 0 (·.methods.size)))

end ClassTable

end ClassLift
