import ClassLift.Body.Pattern
import ClassLift.Diagnostic

/-!
# Accessor methods

Nested classes reach private members of each other through static methods `access$0`, `access$100` and so on, which do
nothing but expose one member. Their bodies have a few fixed shapes.
-/

namespace ClassLift

namespace Accessor

def isName (name : String) : Bool :=
  let text := name.toList
  let digits := text.drop "access$".length
  "access$".toList.isPrefixOf text && !digits.isEmpty && digits.all Char.isDigit

/-- The operands read the parameters from `slot` on, each once and in order. -/
def readsParameters (store : Store) : Nat → List NodeId → Bool
  | _, [] => true
  | slot, operand :: rest =>
      match store.kind? operand with
      | some (.read (.slot type index)) => index.toNat == slot && readsParameters store (slot + type.slots) rest
      | _ => false

def ofCall? (store : Store) (parameters : Nat) : Kind → Option Accessor
  | .call kind method object arguments =>
      let operands := object.toList ++ arguments
      if operands.length = parameters ∧ readsParameters store 0 operands then
        some (.call method (kind == .static))
      else none
  | _ => none

def ofReturned? (store : Store) (parameters : Nat) : Kind → Option Accessor
  | .read (.static field) => some (.readStatic field)
  | .read (.field field object) => if store.isSlot object 0 then some (.readField field) else none
  | kind => ofCall? store parameters kind

/-- The store of a parameter, after which the accessor returns nothing or, through `source`, the stored value. -/
def ofWrite? (store : Store) (isParameter : Place → NodeId → Bool) : Kind → Option Accessor
  | .write (.static field) value => if isParameter (.static field) value then some (.writeStatic field) else none
  | .write (.field field object) value =>
      if store.isSlot object 0 && isParameter (.field field object) value then some (.writeField field) else none
  | _ => none

/-- The value written by a setter that returns nothing: the only parameter of a static field, some parameter otherwise. -/
def isWrittenParameter (store : Store) : Place → NodeId → Bool
  | .static _, value => store.isSlot value 0
  | _, value => store.isSlotRead value

def ofBody? (store : Store) (parameters : Nat) (instructions : List NodeId) : Option Accessor :=
  match instructions with
  | [only] =>
      match store.kind? only with
      | some (.ret (some value)) => (store.kind? value).bind (ofReturned? store parameters)
      | _ => none
  | [first, last] =>
      match store.kind? first, store.kind? last with
      | some (.discard value), some (.ret none) => (store.kind? value).bind (ofCall? store parameters)
      | some kind, some (.ret none) =>
          (ofWrite? store (isWrittenParameter store) kind).or (ofCall? store parameters kind)
      | _, _ => none
  | [first, second, last] =>
      match store.kind? first, store.kind? second, store.kind? last with
      | some (.dupStore value), some kind, some (.ret (some returned)) =>
          if store.isSlotRead value && store.isDupLoadOf returned first then
            ofWrite? store (fun _ value => store.isDupLoadOf value first) kind
          else none
      | _, _, _ => none
  | _ => none

end Accessor

def ClassFile.accessorOf? (file : ClassFile) (method : Method) : Except Failure (Option Accessor) := do
  if !method.access.isStatic then return none
  if !Accessor.isName (← file.pool.utf8 method.nameIndex) then return none
  let some code := method.code | return none
  let parameters ← Descriptor.parameters (← file.pool.utf8 method.descriptorIndex)
  return Accessor.ofBody? code.store parameters.length code.instructions

end ClassLift
