import ClassLift.Body.Equality
import ClassLift.Body.Pattern
import ClassLift.Class.Basic

/-!
# Field initializers

The initial values of fields are compiled into writes: at the start of `<clinit>` for static fields, right after the call of
the superclass constructor in every constructor for the others. They move back into the field declarations as far as the
constructors agree on them. Constructors that call another constructor of the class do not repeat the writes and do not count.
-/

namespace ClassLift

structure InitialWrite where
  field : Nat
  value : NodeId
  deriving DecidableEq, Inhabited

/-- A value depends on more than the object under construction: on parameters, other variables or held values. -/
def Store.dependsOnLocals (store : Store) (value : NodeId) : Bool :=
  let isLocal (node : Node) : Bool :=
    match node.kind with
    | .read (.slot _ slot) => slot != 0
    | .dupLoad _ | .caught _ | .bump .. | .increment .. | .assign .. => true
    | _ => false
  store.any isLocal value

namespace ClassFile

def ownField? (file : ClassFile) (className : String) (index : PoolIndex) : Except PoolError (Option Nat) := do
  let found ← file.pool.member index
  if found.owner != className then return none
  return file.findField? found.name found.descriptor

/-- The writes at the start of a list, each to another field, that can become initial values. `target?` recognizes the write
and `accepts` the field. -/
def initialWrites (file : ClassFile) (className : String) (store : Store) (target? : Kind → Option (PoolIndex × NodeId))
    (accepts : Field → Bool) : List Nat → List NodeId → Except PoolError (List InitialWrite)
  | _, [] => .ok []
  | seen, id :: rest =>
      match (store.kind? id).bind target? with
      | none => .ok []
      | some (index, value) => do
          let some field ← file.ownField? className index | return []
          if !file.fields[field]?.any accepts || seen.contains field || store.dependsOnLocals value then return []
          return ⟨field, value⟩ :: (← initialWrites file className store target? accepts (field :: seen) rest)

def setInitializers (file : ClassFile) (method : Nat) (writes : List InitialWrite) : ClassFile :=
  writes.foldl (fun file write => file.modifyField write.field fun field =>
    { field with initializer := some { method, value := write.value } }) file

def dropStatements (file : ClassFile) (method position count : Nat) : ClassFile :=
  file.modifyMethod method fun declared =>
    { declared with
      code := declared.code.map fun code =>
        { code with statements := code.statements.take position ++ code.statements.drop (position + count) } }

/-! ## Static fields -/

def staticTarget? : Kind → Option (PoolIndex × NodeId)
  | .write (.static field) value => some (field, value)
  | _ => none

/-- A field with a constant value needs no initializer. -/
def acceptsStatic (field : Field) : Bool := field.constantIndex.isNone && field.access.isStatic

def liftStaticInitializers (file : ClassFile) : Except PoolError ClassFile := do
  let some method := file.staticInitializer? | return file
  let className ← file.name
  let some code := file.code? method | return file
  let writes ← file.initialWrites className code.store staticTarget? acceptsStatic [] code.statements
  return (file.setInitializers method writes).dropStatements method 0 writes.length

/-! ## Instance fields -/

def instanceTarget? (store : Store) : Kind → Option (PoolIndex × NodeId)
  | .write (.field field object) value => if store.isSlot object 0 then some (field, value) else none
  | _ => none

def acceptsInstance (field : Field) : Bool := !field.access.isStatic

/-- The position after the call of another constructor, counted from `position`, and the class of that constructor. -/
def constructorCall? (pool : Pool) (store : Store) : Nat → List NodeId → Except PoolError (Option (Nat × String))
  | _, [] => .ok none
  | position, id :: rest =>
      match store.specialOnThis? id with
      | none => constructorCall? pool store (position + 1) rest
      | some (method, _) => do
          let called ← pool.member method
          if called.name == "<init>" then return some (position + 1, called.owner)
          constructorCall? pool store (position + 1) rest

structure Constructor where
  method : Nat
  position : Nat
  writes : List InitialWrite
  store : Store
  deriving DecidableEq, Inhabited

/-- The constructor counts: it is written by hand, readable and has a body. -/
def constructorCode? (file : ClassFile) (method : Nat) : Option Code :=
  file.methods[method]?.bind fun declared =>
    if declared.isConstructor file.pool && !declared.access.isSynthetic && !declared.flagged then declared.code else none

/-- The constructors that run the initial values, unless one of them calls no other constructor. -/
def constructors? (file : ClassFile) (className : String) : List Nat → Except PoolError (Option (List Constructor))
  | [] => .ok (some [])
  | method :: rest =>
      match file.constructorCode? method with
      | none => constructors? file className rest
      | some code => do
          let some (position, owner) ← constructorCall? file.pool code.store 0 code.statements | return none
          if owner == className then return ← constructors? file className rest
          let writes ←
            file.initialWrites className code.store (instanceTarget? code.store) acceptsInstance []
              (code.statements.drop position)
          let others ← constructors? file className rest
          return others.map ({ method, position, writes, store := code.store } :: ·)

def commonWrites (one other : Constructor) : Nat :=
  ((one.writes.zip other.writes).takeWhile fun (x, y) =>
    x.field == y.field && one.store.equalAcross x.value other.store y.value).length

def liftInstanceInitializers (file : ClassFile) : Except PoolError ClassFile := do
  let className ← file.name
  let some constructors ← file.constructors? className (List.range file.methods.size) | return file
  let first :: others := constructors | return file
  let count := others.foldl (fun count other => min count (commonWrites first other)) first.writes.length
  let file := file.setInitializers first.method (first.writes.take count)
  return constructors.foldl (fun file constructor => file.dropStatements constructor.method constructor.position count) file

end ClassFile

end ClassLift
