import ClassLift.Operator
import ClassLift.Pool.Basic

/-!
# Nodes of a method body

A body is made of nodes that refer to each other by number. A node's *operands* are the values it evaluates, in order of
evaluation. A structured statement also has *bodies*, the statement lists nested in it. A `dupLoad` names the `dupStore`
whose value it repeats; that link is no operand.
-/

namespace ClassLift

abbrev NodeId := Nat

abbrev Offset := UInt32

abbrev Slot := UInt16

/-- A constant operand of an instruction. Floating-point values are kept as their bit patterns. -/
inductive Literal where
  | int (value : Int32)
  | long (value : Int64)
  | float (bits : UInt32)
  | double (bits : UInt64)
  | null
  deriving DecidableEq, Inhabited

def Literal.isOne : Literal → Bool
  | int value => value == 1
  | long value => value == 1
  | float bits => bits == 0x3f800000
  | double bits => bits == 0x3ff0000000000000
  | null => false

/-- What can be read and written: a local variable, a static field, a field of an object, an element of an array. -/
inductive Place where
  | slot (type : ValueType) (slot : Slot)
  | static (field : PoolIndex)
  | field (field : PoolIndex) (object : NodeId)
  | element (type : ValueType) (array index : NodeId)
  deriving DecidableEq, Inhabited

namespace Place

def operands : Place → List NodeId
  | slot .. | static _ => []
  | field _ object => [object]
  | element _ array index => [array, index]

def mapOperands (f : NodeId → NodeId) : Place → Place
  | slot type index => slot type index
  | static index => static index
  | field index object => field index (f object)
  | element type array index => element type (f array) (f index)

end Place

/-- The condition of a branch: a value against zero, two values, or a reference against `null`. -/
inductive Test where
  | zero (comparison : Comparison) (value : NodeId)
  | pair (comparison : Comparison) (lhs rhs : NodeId)
  | null (comparison : Comparison) (value : NodeId)
  deriving DecidableEq, Inhabited

namespace Test

def operands : Test → List NodeId
  | zero _ value | null _ value => [value]
  | pair _ lhs rhs => [lhs, rhs]

def mapOperands (f : NodeId → NodeId) : Test → Test
  | zero comparison value => zero comparison (f value)
  | pair comparison lhs rhs => pair comparison (f lhs) (f rhs)
  | null comparison value => null comparison (f value)

def negate : Test → Test
  | zero comparison value => zero comparison.negate value
  | pair comparison lhs rhs => pair comparison.negate lhs rhs
  | null comparison value => null comparison.negate value

@[simp] theorem negate_negate (test : Test) : test.negate.negate = test := by
  cases test <;> simp [negate]

end Test

inductive LoopForm where
  | whileDo (condition : NodeId)
  | doWhile (condition : NodeId)
  | counted (start condition update : NodeId)
  | forever
  deriving DecidableEq, Inhabited

namespace LoopForm

def operands : LoopForm → List NodeId
  | whileDo condition | doWhile condition => [condition]
  | counted start condition update => [start, condition, update]
  | forever => []

def mapOperands (f : NodeId → NodeId) : LoopForm → LoopForm
  | whileDo condition => whileDo (f condition)
  | doWhile condition => doWhile (f condition)
  | counted start condition update => counted (f start) (f condition) (f update)
  | forever => forever

end LoopForm

structure SwitchArm where
  values : List Int32
  isDefault : Bool
  body : List NodeId
  deriving DecidableEq, Inhabited

/-- A handler of a structured `try`. The exception is held in `slot`. -/
structure CatchClause where
  type : PoolIndex
  slot : Slot
  body : List NodeId
  deriving DecidableEq, Inhabited

inductive Kind where
  /-- The value at a place. -/
  | read (place : Place)
  /-- The exception at the start of a handler; type 0 stands for any. -/
  | caught (type : PoolIndex)
  | literal (value : Literal)
  /-- A constant of the pool. -/
  | constant (index : PoolIndex)
  | arrayLength (array : NodeId)
  | binary (op : BinaryOp) (lhs rhs : NodeId)
  | negate (value : NodeId)
  | convert (type : ValueType) (value : NodeId)
  | cast (type : PoolIndex) (object : NodeId)
  | instanceOf (type : PoolIndex) (object : NodeId)
  /-- A call; a static one has no object. -/
  | call (kind : CallKind) (method : PoolIndex) (object : Option NodeId) (arguments : List NodeId)
  /-- An object without its constructor call. -/
  | allocate (type : PoolIndex)
  /-- An allocation together with its constructor call. -/
  | construct (method : PoolIndex) (arguments : List NodeId)
  | newArray (type : ValueType) (length : NodeId)
  | newObjectArray (type : PoolIndex) (length : NodeId)
  | newMultiArray (type : PoolIndex) (dimensions : List NodeId)
  /-- An allocated array together with all of its elements. -/
  | arrayLiteral (array : NodeId) (values : List NodeId)
  /-- Holds a value that is used several times, through the `dupLoad`s that name this node. -/
  | dupStore (value : NodeId)
  | dupLoad (store : NodeId)
  /-- The enclosing instance of the named class. -/
  | outerThis (type : PoolIndex)
  | conditional (condition ifTrue ifFalse : NodeId)
  /-- The first value of a `?:` whose second value stands at an offset of a later statement. -/
  | pendingConditional (value : NodeId) (second : Offset)
  | assign (op : AssignOp) (target value : NodeId)
  | increment (position : IncrementPosition) (target : NodeId) (delta : Int32)
  /-- A conditional jump. As a condition of a structured statement its target means nothing. -/
  | branch (test : Test) (target : Offset)
  | goto (target : Offset)
  | switch (key : NodeId) (default : Offset) (cases : List (Int32 × Offset))
  | write (place : Place) (value : NodeId)
  /-- Adds a number to a local variable. -/
  | bump (slot : Slot) (delta : Int32)
  /-- Evaluates a value and drops it. -/
  | discard (value : NodeId)
  | ret (value : Option NodeId)
  | throw (value : NodeId)
  | monitorEnter (object : NodeId)
  | monitorExit (object : NodeId)
  | ifElse (condition : NodeId) (onTrue onFalse : List NodeId)
  | loop (form : LoopForm) (body : List NodeId)
  | switchArms (key : NodeId) (arms : List SwitchArm)
  | tryCatch (body : List NodeId) (catches : List CatchClause) (cleanup : List NodeId)
  /-- The first write to a local variable. -/
  | declare (slot : Slot) (value : Option NodeId)
  | breakOut
  | continueLoop
  deriving DecidableEq, Inhabited

namespace Kind

def operands : Kind → List NodeId
  | read place => place.operands
  | caught _ | literal _ | constant _ | allocate _ | dupLoad _ | outerThis _ => []
  | arrayLength value | negate value | convert _ value | cast _ value | instanceOf _ value => [value]
  | binary _ lhs rhs => [lhs, rhs]
  | call _ _ object arguments => object.toList ++ arguments
  | construct _ arguments => arguments
  | newArray _ length | newObjectArray _ length => [length]
  | newMultiArray _ dimensions => dimensions
  | arrayLiteral array values => array :: values
  | dupStore value | pendingConditional value _ => [value]
  | conditional condition ifTrue ifFalse => [condition, ifTrue, ifFalse]
  | assign _ target value => [target, value]
  | increment _ target _ => [target]
  | branch test _ => test.operands
  | goto _ | bump .. => []
  | switch key .. => [key]
  | write place value => place.operands ++ [value]
  | discard value | throw value | monitorEnter value | monitorExit value => [value]
  | ret value => value.toList
  | ifElse condition .. => [condition]
  | loop form _ => form.operands
  | switchArms key _ => [key]
  | tryCatch .. => []
  | declare _ value => value.toList
  | breakOut | continueLoop => []

def bodies : Kind → List (List NodeId)
  | ifElse _ onTrue onFalse => [onTrue, onFalse]
  | loop _ body => [body]
  | switchArms _ arms => arms.map (·.body)
  | tryCatch body catches cleanup => body :: catches.map (·.body) ++ [cleanup]
  | _ => []

def children (kind : Kind) : List NodeId := kind.operands ++ kind.bodies.flatten

/-- The nodes this one names: its operands, or the store that a repeated value comes from. -/
def links : Kind → List NodeId
  | dupLoad store => [store]
  | kind => kind.operands

def mapLinks (f : NodeId → NodeId) : Kind → Kind
  | read place => read (place.mapOperands f)
  | caught type => caught type
  | literal value => literal value
  | constant index => constant index
  | arrayLength array => arrayLength (f array)
  | binary op lhs rhs => binary op (f lhs) (f rhs)
  | negate value => negate (f value)
  | convert type value => convert type (f value)
  | cast type object => cast type (f object)
  | instanceOf type object => instanceOf type (f object)
  | call kind method object arguments => call kind method (object.map f) (arguments.map f)
  | allocate type => allocate type
  | construct method arguments => construct method (arguments.map f)
  | newArray type length => newArray type (f length)
  | newObjectArray type length => newObjectArray type (f length)
  | newMultiArray type dimensions => newMultiArray type (dimensions.map f)
  | arrayLiteral array values => arrayLiteral (f array) (values.map f)
  | dupStore value => dupStore (f value)
  | dupLoad store => dupLoad (f store)
  | outerThis type => outerThis type
  | conditional condition ifTrue ifFalse => conditional (f condition) (f ifTrue) (f ifFalse)
  | pendingConditional value second => pendingConditional (f value) second
  | assign op target value => assign op (f target) (f value)
  | increment position target delta => increment position (f target) delta
  | branch test target => branch (test.mapOperands f) target
  | goto target => goto target
  | switch key default cases => switch (f key) default cases
  | write place value => write (place.mapOperands f) (f value)
  | bump slot delta => bump slot delta
  | discard value => discard (f value)
  | ret value => ret (value.map f)
  | throw value => throw (f value)
  | monitorEnter object => monitorEnter (f object)
  | monitorExit object => monitorExit (f object)
  | ifElse condition onTrue onFalse => ifElse (f condition) onTrue onFalse
  | loop form body => loop (form.mapOperands f) body
  | switchArms key arms => switchArms (f key) arms
  | tryCatch body catches cleanup => tryCatch body catches cleanup
  | declare slot value => declare slot (value.map f)
  | breakOut => breakOut
  | continueLoop => continueLoop

def mapBodies (f : List NodeId → List NodeId) : Kind → Kind
  | ifElse condition onTrue onFalse => ifElse condition (f onTrue) (f onFalse)
  | loop form body => loop form (f body)
  | switchArms key arms => switchArms key (arms.map fun arm => { arm with body := f arm.body })
  | tryCatch body catches cleanup =>
      tryCatch (f body) (catches.map fun clause => { clause with body := f clause.body }) (f cleanup)
  | kind => kind

def target? : Kind → Option Offset
  | branch _ target | goto target => some target
  | _ => none

def isBranch : Kind → Bool
  | branch .. => true
  | _ => false

def isGoto : Kind → Bool
  | goto _ => true
  | _ => false

def isDivergent : Kind → Bool
  | goto _ | ret _ | throw _ | breakOut | continueLoop => true
  | _ => false

def negateTest : Kind → Kind
  | branch test target => branch test.negate target
  | kind => kind

def isDupLoadOf (store : NodeId) : Kind → Bool
  | dupLoad named => named == store
  | _ => false

def isSlot (slot : Slot) : Kind → Bool
  | read (.slot _ index) => index == slot
  | _ => false

end Kind

structure Node where
  offset : Offset
  line : Option UInt32
  kind : Kind
  deriving DecidableEq, Inhabited

end ClassLift
