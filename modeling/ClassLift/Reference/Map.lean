import Std.Data.TreeMap
import ClassLift.ClassName

/-!
# Reference maps

The classes that some code refers to, each with the number of times it was seen. Names are ordered by their characters.
-/

namespace ClassLift

structure ReferenceMap where
  counts : Std.TreeMap String Nat := {}

namespace ReferenceMap

def empty : ReferenceMap := {}

/-- The empty name refers to nothing. -/
def add (references : ReferenceMap) (name : String) : ReferenceMap :=
  if name = "" then references else ⟨references.counts.insert name (references.counts.getD name 0 + 1)⟩

def addAll (references : ReferenceMap) (names : List String) : ReferenceMap := names.foldl add references

def count (references : ReferenceMap) (name : String) : Nat := references.counts.getD name 0

def contains (references : ReferenceMap) (name : String) : Bool := references.counts.contains name

def size (references : ReferenceMap) : Nat := references.counts.size

def isEmpty (references : ReferenceMap) : Bool := references.counts.isEmpty

def names (references : ReferenceMap) : List String := references.counts.keys

def toList (references : ReferenceMap) : List (String × Nat) := references.counts.toList

/-- The simple names that mean a class of the package of `current`: its own and those of the referenced classes there. -/
def localNames (references : ReferenceMap) (current : String) : List String :=
  ClassName.simple current ::
    (references.names.filter fun name => ClassName.package name = ClassName.package current).map ClassName.simple

/-- Drops the classes of other packages whose simple name already means a class of the package of `current`, since they
cannot be imported there. -/
def reduce (references : ReferenceMap) (current : String) : ReferenceMap :=
  let taken := references.localNames current
  ⟨references.counts.filter fun name _ =>
    ClassName.package name = ClassName.package current || !taken.contains (ClassName.simple name)⟩

def isAmbiguous (references : ReferenceMap) (name : String) : Bool :=
  references.names.any fun other => other != name && ClassName.simple other == ClassName.simple name

end ReferenceMap

end ClassLift
