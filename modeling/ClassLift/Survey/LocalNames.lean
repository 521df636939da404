import ClassLift.Diagnostic

/-!
# Made-up local variable tables

A method compiled without names gets a table of made-up ones: `this`, then the parameters as `paramInt`, `paramString1`, then
one local variable for each further slot that the body writes, as `localInt` and so on.
-/

namespace ClassLift

namespace LocalNames

def fresh (used : List String) (word descriptor : String) : String :=
  let base := word ++ Descriptor.baseName descriptor
  let candidate (number : Nat) := if number = 0 then base else base ++ toString number
  ((List.range (used.length + 1)).map candidate).find? (!used.contains ·) |>.getD base

def classType (name : String) : String := "L" ++ name ++ ";"

/-- The type of a class constant as a descriptor; array classes are named by their descriptor. -/
def constantType (name : String) : String := if name.toList.head? = some '[' then name else classType name

def storedDescriptor (pool : Pool) (type : ValueType) : Option Kind → String
  | some (.caught 0) => "Ljava/lang/Throwable;"
  | some (.caught index) | some (.cast index _) | some (.allocate index) =>
      ((pool.className index).toOption.map constantType).getD (Descriptor.ofValueType type)
  | some (.construct method _) =>
      ((pool.member method).toOption.map fun called => classType called.owner).getD (Descriptor.ofValueType type)
  | _ => Descriptor.ofValueType type

def written? (pool : Pool) (store : Store) : Kind → Option (Slot × String)
  | .write (.slot type slot) value => some (slot, storedDescriptor pool type (store.kind? value))
  | .bump slot _ => some (slot, "I")
  | _ => none

def firstWrites (writes : List (Slot × String)) : List (Slot × String) :=
  writes.foldl (fun found write => if found.any (·.1 == write.1) then found else found ++ [write]) []

def nodesOf (code : Code) : List Node :=
  (code.instructions.flatMap code.store.preorder).filterMap code.store.node?

def slotsOf (pool : Pool) (code : Code) : List (Slot × String) :=
  (firstWrites ((nodesOf code).filterMap fun node => written? pool code.store node.kind)).mergeSort
    fun one other => one.1 ≤ other.1

def lengthOf (code : Code) : UInt32 := (nodesOf code).foldl (fun length node => max length (node.offset + 1)) 0

def entry (length : UInt32) (slot : Slot) (name descriptor : String) : Interning LocalVariable := do
  let nameIndex ← Pool.internUtf8 name
  let descriptorIndex ← Pool.internUtf8 descriptor
  return { start := 0, length, name := nameIndex, signature := descriptorIndex, slot, isGeneric := false }

def receiver (length : UInt32) (owner : String) : Interning LocalVariable :=
  entry length 0 "this" (classType owner)

/-- Tables the parameters from `slot` on and returns the names used and the slot after them. -/
def parameters (length : UInt32) :
    Slot → List String → List String → Interning (List LocalVariable × List String × Slot)
  | slot, used, [] => return ([], used, slot)
  | slot, used, parameter :: rest => do
      let name := fresh used "param" parameter
      let first ← entry length slot name parameter
      let (others, used, slot) ← parameters length (slot + .ofNat (Descriptor.slots parameter)) (name :: used) rest
      return (first :: others, used, slot)

def locals (length : UInt32) (first : Slot) : List String → List (Slot × String) → Interning (List LocalVariable)
  | _, [] => return []
  | used, (slot, descriptor) :: rest =>
      if slot < first then locals length first used rest
      else do
        let name := fresh used "local" descriptor
        let found ← entry length slot name descriptor
        return found :: (← locals length first (name :: used) rest)

end LocalNames

namespace Method

/-- Compiler-made methods are never shown with their bodies. -/
def needsLocalNames (method : Method) : Bool :=
  !method.access.intersects (Access.synthetic.union Access.bridge) &&
    (method.code.elim method.localVariables Code.localVariables).isNone

def setLocalVariables (method : Method) (entries : List LocalVariable) : Method :=
  match method.code with
  | some code => { method with code := some { code with localVariables := some entries } }
  | none => { method with localVariables := some entries }

end Method

def nameLocals (index : Nat) : OnClass Unit := do
  let file ← get
  let some method := file.methods[index]? | return
  if !method.needsLocalNames then return
  let descriptor ← file.pool.utf8 method.descriptorIndex
  let owner ← file.name
  let length := method.code.elim 0 LocalNames.lengthOf
  let written := method.code.elim [] (LocalNames.slotsOf file.pool)
  let isStatic := method.access.isStatic
  let this ← if isStatic then pure [] else OnClass.interning (List.singleton <$> LocalNames.receiver length owner)
  let types ← Descriptor.parameters descriptor
  let start : Slot := if isStatic then 0 else 1
  let (parameters, used, first) ← OnClass.interning (LocalNames.parameters length start ["this"] types)
  let locals ← OnClass.interning (LocalNames.locals length first used written)
  modify (·.modifyMethod index (·.setLocalVariables (this ++ parameters ++ locals)))

end ClassLift
