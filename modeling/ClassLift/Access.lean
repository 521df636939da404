/-!
# Access flags

The sixteen flag bits of a class, field or method. Bits without a name here are kept as they are.
-/

namespace ClassLift

structure Access where
  bits : UInt16
  deriving DecidableEq, Inhabited

namespace Access

def static : Access := ⟨0x0008⟩

def bridge : Access := ⟨0x0040⟩

def synthetic : Access := ⟨0x1000⟩

def enum : Access := ⟨0x4000⟩

def union (access other : Access) : Access := ⟨access.bits ||| other.bits⟩

def contains (access other : Access) : Bool := access.bits &&& other.bits == other.bits

def intersects (access other : Access) : Bool := access.bits &&& other.bits != 0

def isStatic (access : Access) : Bool := access.contains static

def isSynthetic (access : Access) : Bool := access.contains synthetic

def isEnum (access : Access) : Bool := access.contains enum

def markSynthetic (access : Access) : Access := access.union synthetic

end Access

end ClassLift
