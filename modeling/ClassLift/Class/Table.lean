import ClassLift.Class.Basic

/-!
# Class tables

A table owns classes that are nested in each other. A class names its enclosing class and, in order, the classes directly
nested in it. An enclosing class is always in the table before the classes nested in it, so both relations are free of
cycles and the size of the table bounds every chain.
-/

namespace ClassLift

structure ClassTable where
  classes : Array ClassFile := #[]
  deriving Inhabited

namespace ClassTable

def empty : ClassTable := {}

def size (table : ClassTable) : Nat := table.classes.size

def get? (table : ClassTable) (id : ClassId) : Option ClassFile := table.classes[id]?

def modify (table : ClassTable) (id : ClassId) (change : ClassFile → ClassFile) : ClassTable :=
  ⟨table.classes.modify id change⟩

def set (table : ClassTable) (id : ClassId) (file : ClassFile) : ClassTable := table.modify id fun _ => file

def insert (table : ClassTable) (file : ClassFile) (outer : Option ClassId) : ClassTable :=
  let id := table.size
  let table : ClassTable := ⟨table.classes.push { file with outer }⟩
  match outer with
  | none => table
  | some outer => table.modify outer fun file => { file with inner := file.inner ++ [id] }

def outerChainWithin (table : ClassTable) : Nat → ClassId → List ClassId
  | 0, _ => []
  | depth + 1, id => id :: (((table.get? id).bind ClassFile.outer).elim [] (outerChainWithin table depth))

def outerChain (table : ClassTable) (id : ClassId) : List ClassId := table.outerChainWithin table.size id

/-- Takes the next class off a stack of pending ones and puts the classes nested in it in its place. -/
def subtreeFrom (table : ClassTable) : Nat → List ClassId → List ClassId
  | 0, _ => []
  | _ + 1, [] => []
  | steps + 1, id :: pending =>
      id :: subtreeFrom table steps (((table.get? id).elim [] ClassFile.inner) ++ pending)

def subtree (table : ClassTable) (id : ClassId) : List ClassId := table.subtreeFrom table.size [id]

def hasName (table : ClassTable) (name : String) (id : ClassId) : Bool :=
  (table.get? id).any (ClassFile.hasName · name)

def findByName? (table : ClassTable) (name : String) : Option ClassId :=
  (List.range table.size).find? (table.hasName name)

def findInOuterChain? (table : ClassTable) (id : ClassId) (name : String) : Option ClassId :=
  (table.outerChain id).find? (table.hasName name)

end ClassTable

end ClassLift
