import Std.Data.TreeMap
import ClassLift.Access
import ClassLift.Body.Walk

/-!
# Class files

A class with its pool, fields and methods, and what the analyses have found out about it. Names are read through the pool,
so that reading one may fail.
-/

namespace ClassLift

abbrev ClassId := Nat

inductive ElementValue where
  | const (tag : UInt8) (index : PoolIndex)
  | enum (type name : PoolIndex)
  | classInfo (descriptor : PoolIndex)
  | nested (type : PoolIndex) (elements : List (PoolIndex × ElementValue))
  | array (values : List ElementValue)
  deriving Inhabited

structure Annotation where
  type : PoolIndex
  elements : List (PoolIndex × ElementValue) := []
  deriving Inhabited

/-- A range of offsets whose exceptions go to a handler; type 0 stands for any exception. -/
structure Handler where
  start : Offset
  stop : Offset
  entry : Offset
  type : PoolIndex
  deriving DecidableEq, Inhabited

/-- A named local variable. Its signature is a descriptor unless it is generic. -/
structure LocalVariable where
  start : Offset
  length : UInt32
  name : PoolIndex
  signature : PoolIndex
  slot : Slot
  isGeneric : Bool
  deriving DecidableEq, Inhabited

/-- A method body. `instructions` is the raw list in bytecode order, `statements` the list recovered from it; both refer
to the same nodes. -/
structure Code where
  store : Store := {}
  maxLocals : Slot := 0
  instructions : List NodeId := []
  statements : List NodeId := []
  handlers : List Handler := []
  localVariables : Option (List LocalVariable) := none
  deriving DecidableEq, Inhabited

/-- The member that a synthetic accessor method exposes, as a reference in the pool of its class. -/
inductive Accessor where
  | readStatic (field : PoolIndex)
  | writeStatic (field : PoolIndex)
  | readField (field : PoolIndex)
  | writeField (field : PoolIndex)
  | call (method : PoolIndex) (isStatic : Bool)
  deriving DecidableEq, Inhabited

/-- An initial value of a field: a node in the body of a method of the class. -/
structure Initializer where
  method : Nat
  value : NodeId
  deriving DecidableEq, Inhabited

structure Field where
  access : Access := ⟨0⟩
  nameIndex : PoolIndex
  descriptorIndex : PoolIndex
  signatureIndex : Option PoolIndex := none
  constantIndex : Option PoolIndex := none
  annotations : List Annotation := []
  initializer : Option Initializer := none
  deriving Inhabited

structure Method where
  access : Access := ⟨0⟩
  nameIndex : PoolIndex
  descriptorIndex : PoolIndex
  signatureIndex : Option PoolIndex := none
  exceptions : List PoolIndex := []
  annotations : List Annotation := []
  parameterAnnotations : List (List Annotation) := []
  code : Option Code := none
  /-- The local variables of a method without code. -/
  localVariables : Option (List LocalVariable) := none
  /-- The method could not be analyzed and keeps its raw body. -/
  flagged : Bool := false
  /-- The number of arguments that a constructor of an anonymous class passes on to its superclass. -/
  superArguments : Nat := 0
  accessor : Option Accessor := none
  deriving Inhabited

/-- The field of an inner class that holds the enclosing instance: the reference its constructors store to, and its position
among the fields. -/
structure OuterField where
  reference : PoolIndex
  field : Nat
  deriving DecidableEq, Inhabited

structure ClassFile where
  access : Access := ⟨0⟩
  thisIndex : PoolIndex := 0
  /-- Zero for the root of the class hierarchy. -/
  superIndex : PoolIndex := 0
  interfaces : List PoolIndex := []
  pool : Pool := {}
  fields : Array Field := #[]
  methods : Array Method := #[]
  signatureIndex : Option PoolIndex := none
  annotations : List Annotation := []
  /-- The flags of a nested class as its enclosing class declares them. -/
  innerAccess : Option Access := none
  isAnonymous : Bool := false
  outer : Option ClassId := none
  inner : List ClassId := []
  /-- For each switch map, by the name of its field or method, the names of the enum constants in the order of their case
  labels. -/
  switchMaps : Std.TreeMap PoolIndex (List PoolIndex) := {}
  outerField : Option OuterField := none
  /-- The names of the enum constants in order of declaration. -/
  enumValues : Option (List PoolIndex) := none
  deriving Inhabited

namespace Method

def hasName (method : Method) (pool : Pool) (name : String) : Bool := pool.hasText method.nameIndex name

def isConstructor (method : Method) (pool : Pool) : Bool := method.hasName pool "<init>"

def isStaticInitializer (method : Method) (pool : Pool) : Bool := method.hasName pool "<clinit>"

def markSynthetic (method : Method) : Method := { method with access := method.access.markSynthetic }

end Method

namespace Field

def hasName (field : Field) (pool : Pool) (name : String) : Bool := pool.hasText field.nameIndex name

def markSynthetic (field : Field) : Field := { field with access := field.access.markSynthetic }

end Field

namespace ClassFile

def name (file : ClassFile) : Except PoolError String := file.pool.className file.thisIndex

def hasName (file : ClassFile) (name : String) : Bool := file.name.toOption == some name

def superName (file : ClassFile) : Except PoolError (Option String) :=
  if file.superIndex = 0 then .ok none else some <$> file.pool.className file.superIndex

/-- A nested class whose instances refer to an enclosing instance. -/
def isInner (file : ClassFile) : Bool := file.outer.isSome && file.innerAccess.any fun access => !access.isStatic

def isEnum (file : ClassFile) : Bool := file.access.isEnum

def findMethod? (file : ClassFile) (name descriptor : String) : Option Nat :=
  file.methods.findIdx? fun method =>
    method.hasName file.pool name && file.pool.hasText method.descriptorIndex descriptor

def findField? (file : ClassFile) (name descriptor : String) : Option Nat :=
  file.fields.findIdx? fun field =>
    field.hasName file.pool name && file.pool.hasText field.descriptorIndex descriptor

def staticInitializer? (file : ClassFile) : Option Nat :=
  file.methods.findIdx? fun method => method.isStaticInitializer file.pool && !method.flagged

def modifyMethod (file : ClassFile) (index : Nat) (change : Method → Method) : ClassFile :=
  { file with methods := file.methods.modify index change }

def modifyField (file : ClassFile) (index : Nat) (change : Field → Field) : ClassFile :=
  { file with fields := file.fields.modify index change }

def code? (file : ClassFile) (method : Nat) : Option Code := file.methods[method]?.bind Method.code

end ClassFile

end ClassLift
