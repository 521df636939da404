/-!
# Value types and operators

The closed vocabularies that instructions are built from. Each has its written form `text` and the list `all` of its
members in their customary order.
-/

namespace ClassLift

/-- The types a bytecode operation distinguishes. All references share one. -/
inductive ValueType where
  | int | long | float | double | reference | byte | char | short | boolean
  deriving DecidableEq, Inhabited

namespace ValueType

def all : List ValueType := [int, long, float, double, reference, byte, char, short, boolean]

def text : ValueType → String
  | int => "int"
  | long => "long"
  | float => "float"
  | double => "double"
  | reference => "Object"
  | byte => "byte"
  | char => "char"
  | short => "short"
  | boolean => "boolean"

/-- A `long` or a `double` takes two slots of a frame, any other value one. -/
def slots : ValueType → Nat
  | long | double => 2
  | _ => 1

end ValueType

inductive BinaryOp where
  | add | sub | mul | div | rem | and | or | xor | shl | shr | ushr | compare
  deriving DecidableEq, Inhabited

namespace BinaryOp

def all : List BinaryOp := [add, sub, mul, div, rem, and, or, xor, shl, shr, ushr, compare]

def text : BinaryOp → String
  | add => "+"
  | sub => "-"
  | mul => "*"
  | div => "/"
  | rem => "%"
  | and => "&"
  | or => "|"
  | xor => "^"
  | shl => "<<"
  | shr => ">>"
  | ushr => ">>>"
  | compare => "<=>"

/-- Three-way comparison is the only operator without an `op=` form. -/
def hasCompoundForm : BinaryOp → Bool
  | compare => false
  | _ => true

end BinaryOp

inductive AssignOp where
  | plain
  | compound (op : BinaryOp)
  deriving DecidableEq, Inhabited

namespace AssignOp

def all : List AssignOp := plain :: BinaryOp.all.map compound

def text : AssignOp → String
  | plain => "="
  | compound op => op.text ++ "="

end AssignOp

inductive Comparison where
  | eq | ne | lt | ge | gt | le
  deriving DecidableEq, Inhabited

namespace Comparison

def all : List Comparison := [eq, ne, lt, ge, gt, le]

def text : Comparison → String
  | eq => "=="
  | ne => "!="
  | lt => "<"
  | ge => ">="
  | gt => ">"
  | le => "<="

def negate : Comparison → Comparison
  | eq => ne
  | ne => eq
  | lt => ge
  | ge => lt
  | gt => le
  | le => gt

@[simp] theorem negate_negate (comparison : Comparison) : comparison.negate.negate = comparison := by
  cases comparison <;> rfl

end Comparison

inductive CallKind where
  | static | virtual | special | interface
  deriving DecidableEq, Inhabited

namespace CallKind

def all : List CallKind := [static, virtual, special, interface]

def text : CallKind → String
  | static => "invokestatic"
  | virtual => "invokevirtual"
  | special => "invokespecial"
  | interface => "invokeinterface"

end CallKind

inductive IncrementPosition where
  | pre | post
  deriving DecidableEq, Inhabited

namespace IncrementPosition

def all : List IncrementPosition := [pre, post]

def text : IncrementPosition → String
  | pre => "pre"
  | post => "post"

end IncrementPosition

end ClassLift
