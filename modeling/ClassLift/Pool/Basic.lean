/-!
# Constant pools

A pool is an append-only table of constants. Slot 0 and the slot after a `long` or a `double` hold nothing, so an index
names a constant only where the slot is filled. `Pool.get` reads a slot; the other readers follow the references between
constants and say which kind they expected where they find another.
-/

namespace ClassLift

abbrev PoolIndex := UInt16

/-- An entry of a pool. Floating-point constants are kept as their bit patterns. -/
inductive Constant where
  | utf8 (text : String)
  | integer (value : Int32)
  | float (bits : UInt32)
  | long (value : Int64)
  | double (bits : UInt64)
  | classInfo (name : PoolIndex)
  | string (text : PoolIndex)
  | fieldRef (owner nameAndType : PoolIndex)
  | methodRef (owner nameAndType : PoolIndex)
  | interfaceMethodRef (owner nameAndType : PoolIndex)
  | nameAndType (name descriptor : PoolIndex)
  | methodHandle (kind : UInt8) (reference : PoolIndex)
  | methodType (descriptor : PoolIndex)
  | invokeDynamic (bootstrap nameAndType : PoolIndex)
  deriving DecidableEq, Inhabited

namespace Constant

def kindName : Constant → String
  | utf8 _ => "Utf8"
  | integer _ => "Integer"
  | float _ => "Float"
  | long _ => "Long"
  | double _ => "Double"
  | classInfo _ => "Class"
  | string _ => "String"
  | fieldRef .. => "Fieldref"
  | methodRef .. => "Methodref"
  | interfaceMethodRef .. => "InterfaceMethodref"
  | nameAndType .. => "NameAndType"
  | methodHandle .. => "MethodHandle"
  | methodType _ => "MethodType"
  | invokeDynamic .. => "InvokeDynamic"

/-- A wide constant makes the slot after it unusable. -/
def isWide : Constant → Bool
  | long _ | double _ => true
  | _ => false

def slots (constant : Constant) : Nat := if constant.isWide then 2 else 1

end Constant

inductive PoolError where
  | outOfBounds (index : PoolIndex)
  | unexpectedKind (index : PoolIndex) (expected found : String)
  | overflow
  deriving DecidableEq, Inhabited

namespace PoolError

def message : PoolError → String
  | outOfBounds index => s!"Constant pool index {index} is out of bounds"
  | unexpectedKind index expected found =>
      s!"Constant pool index {index} refers to a {found}, expected a {expected}"
  | overflow => "Constant pool cannot grow past 65535 entries"

end PoolError

structure Member where
  owner : String
  name : String
  descriptor : String
  nameIndex : PoolIndex
  descriptorIndex : PoolIndex
  deriving DecidableEq, Inhabited

structure Pool where
  entries : Array (Option Constant) := #[none]
  deriving DecidableEq, Inhabited

namespace Pool

def empty : Pool := {}

def count (pool : Pool) : Nat := pool.entries.size

def get (pool : Pool) (index : PoolIndex) : Except PoolError Constant :=
  match pool.entries[index.toNat]? with
  | some (some constant) => .ok constant
  | _ => .error (.outOfBounds index)

def constants (pool : Pool) : List (PoolIndex × Constant) :=
  pool.entries.toList.zipIdx.filterMap fun (entry, position) => entry.map (.ofNat position, ·)

/-! ## Following references -/

def utf8 (pool : Pool) (index : PoolIndex) : Except PoolError String := do
  match ← pool.get index with
  | .utf8 text => .ok text
  | found => .error (.unexpectedKind index "Utf8" found.kindName)

def hasText (pool : Pool) (index : PoolIndex) (text : String) : Bool := (pool.utf8 index).toOption == some text

def classNameIndex (pool : Pool) (index : PoolIndex) : Except PoolError PoolIndex := do
  match ← pool.get index with
  | .classInfo name => .ok name
  | found => .error (.unexpectedKind index "Class" found.kindName)

def className (pool : Pool) (index : PoolIndex) : Except PoolError String := do
  pool.utf8 (← pool.classNameIndex index)

def nameAndType (pool : Pool) (index : PoolIndex) : Except PoolError (PoolIndex × PoolIndex) := do
  match ← pool.get index with
  | .nameAndType name descriptor => .ok (name, descriptor)
  | found => .error (.unexpectedKind index "NameAndType" found.kindName)

def memberIndices (pool : Pool) (index : PoolIndex) : Except PoolError (PoolIndex × PoolIndex) := do
  match ← pool.get index with
  | .fieldRef owner nameAndType => .ok (owner, nameAndType)
  | .methodRef owner nameAndType => .ok (owner, nameAndType)
  | .interfaceMethodRef owner nameAndType => .ok (owner, nameAndType)
  | found => .error (.unexpectedKind index "member reference" found.kindName)

def member (pool : Pool) (index : PoolIndex) : Except PoolError Member := do
  let (ownerIndex, nameAndTypeIndex) ← pool.memberIndices index
  let (nameIndex, descriptorIndex) ← pool.nameAndType nameAndTypeIndex
  let owner ← pool.className ownerIndex
  let name ← pool.utf8 nameIndex
  let descriptor ← pool.utf8 descriptorIndex
  return { owner, name, descriptor, nameIndex, descriptorIndex }

def string (pool : Pool) (index : PoolIndex) : Except PoolError (Option String) := do
  match ← pool.get index with
  | .string text => return some (← pool.utf8 text)
  | _ => return none

end Pool

end ClassLift
