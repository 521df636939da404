import ClassLift.Structure.Declaration
import ClassLift.Structure.Region
import ClassLift.Survey.Basic

/-!
# Structuring the methods of a class

After its control flow is structured, a body loses what need not be written: the call of a superclass constructor without
arguments and a final `return`. Last, its local variables are declared. A method that fails is flagged and keeps its statement
list.
-/

namespace ClassLift

def firstLocal (isStatic : Bool) (parameters : List String) : Slot :=
  let receiver := if isStatic then 0 else 1
  let slots := parameters.foldl (fun slots parameter => slots + Descriptor.slots parameter) receiver
  .ofNat (min slots 65535)

namespace ClassFile

def isDefaultSuperCall (pool : Pool) (superName : String) (store : Store) (id : NodeId) : Bool :=
  match store.specialOnThis? id with
  | some (method, []) =>
      match pool.member method with
      | .ok called => called.name == "<init>" && called.owner == superName
      | .error _ => false
  | _ => false

def dropSuperCall (file : ClassFile) (store : Store) (body : List NodeId) : Except PoolError (List NodeId) := do
  let some superName ← file.superName | return body
  return body.eraseP (isDefaultSuperCall file.pool superName store)

def dropFinalReturn (store : Store) (body : List NodeId) : List NodeId :=
  if body.getLast?.any fun id => store.kind? id == some (.ret none) then body.dropLast else body

def trim (config : Config) (file : ClassFile) (method : Method) (store : Store) (body : List NodeId) :
    Except PoolError (List NodeId) := do
  let body ← if config.dropSuperCall && method.isConstructor file.pool then file.dropSuperCall store body else .ok body
  return if config.dropFinalReturn then dropFinalReturn store body else body

/-- Structures a body. The nodes may have changed also when that fails. -/
def structureCode (config : Config) (file : ClassFile) (method : Method) (code : Code) : Except Failure Unit × Code :=
  match file.pool.utf8 method.descriptorIndex with
  | .error error => (.error (.method (.pool error)), code)
  | .ok descriptor =>
      let (result, store) := Region.build code.store code.statements code.handlers code.maxLocals
      let failed (failure : Failure) : Except Failure Unit × Code := (.error failure, { code with store })
      match result with
      | .error error => failed (.method (.structuring error))
      | .ok body =>
          match file.trim config method store body with
          | .error error => failed (.method (.pool error))
          | .ok body =>
              match Descriptor.parameters descriptor with
              | .error error => failed (.descriptor error)
              | .ok parameters =>
                  let first := firstLocal method.access.isStatic parameters
                  (.ok (), { code with store := Declaration.declareLocals store body first, statements := body })

def structureMethod (config : Config) (file : ClassFile) (index : Nat) : Except DescriptorError (ClassFile × List Warning) :=
  match file.methods[index]? with
  | none => .ok (file, [])
  | some method =>
      match method.flagged, method.code with
      | false, some code =>
          let (result, code) := file.structureCode config method code
          let file := file.modifyMethod index fun method => { method with code := some code }
          match result with
          | .ok _ => .ok (file, [])
          | .error (.descriptor error) => .error error
          | .error (.method error) =>
              let (file, warning) := file.flag index error
              .ok (file, [warning])
      | _, _ => .ok (file, [])

def structureMethods (config : Config) (file : ClassFile) : List Nat → Except DescriptorError (ClassFile × List Warning)
  | [] => .ok (file, [])
  | index :: rest => do
      let (file, warnings) ← file.structureMethod config index
      let (file, more) ← file.structureMethods config rest
      return (file, warnings ++ more)

def structureBodies (config : Config) (file : ClassFile) : Except DescriptorError (ClassFile × List Warning) :=
  file.structureMethods config (List.range file.methods.size)

end ClassFile

end ClassLift
