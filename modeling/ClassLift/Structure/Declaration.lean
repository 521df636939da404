import ClassLift.Body.Store

/-!
# Declarations of local variables

A local variable is declared by the first write to it in a block. Nested blocks see the declarations of the blocks around them
but not those of their siblings, so that a slot used by two loops is declared twice.
-/

namespace ClassLift

namespace Declaration

/-- Turns a write to a slot without a visible declaration into its declaration. Slots below `first` are parameters. -/
def declare? (first : Slot) (store : Store) (declared : List Slot) (id : NodeId) : Option (Store × List Slot) :=
  match store.kind? id with
  | some (.write (.slot _ slot) value) =>
      if slot < first || declared.contains slot then none
      else some (store.replace id (.declare slot (some value)), slot :: declared)
  | _ => none

/-- Goes through the blocks nested in a statement. The initialization of a counted loop and the exception of a handler are
visible in the block that belongs to them. -/
def nested (first : Slot) (block : Store → List Slot → List NodeId → Store) (store : Store) (declared : List Slot) :
    Kind → Store
  | .loop (.counted start _ _) body =>
      let (store, visible) := (declare? first store declared start).getD (store, declared)
      block store visible body
  | .tryCatch body catches cleanup =>
      let store := block store declared body
      let store := catches.foldl (fun store clause => block store (clause.slot :: declared) clause.body) store
      block store declared cleanup
  | kind => kind.bodies.foldl (fun store body => block store declared body) store

def statement (first : Slot) (block : Store → List Slot → List NodeId → Store) (store : Store) (declared : List Slot)
    (id : NodeId) : Store × List Slot :=
  match declare? first store declared id with
  | some result => result
  | none => ((store.kind? id).elim store (nested first block store declared), declared)

def blockWithin (first : Slot) : Nat → Store → List Slot → List NodeId → Store
  | 0, store, _, _ => store
  | depth + 1, store, declared, body =>
      (body.foldl (fun (store, declared) id => statement first (blockWithin first depth) store declared id)
        (store, declared)).1

def declareLocals (store : Store) (body : List NodeId) (first : Slot) : Store :=
  blockWithin first store.size store [] body

end Declaration

end ClassLift
