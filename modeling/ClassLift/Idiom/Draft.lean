import ClassLift.Body.Equality
import ClassLift.Body.Pattern
import ClassLift.Diagnostic

/-!
# Bodies under recovery

A draft is a body whose statements are being folded back into the expressions they were compiled from. Most idioms are looked
for from the last statement to the first, so that a match sees what follows it already folded. A spot is one statement of that
sweep with the statements on both sides of it.
-/

namespace ClassLift

structure Draft where
  store : Store
  statements : List NodeId
  deriving DecidableEq, Inhabited

/-- The statements of a sweep in two parts: those still to be visited, nearest first, and those after them. -/
structure Cursor where
  before : List NodeId
  after : List NodeId
  deriving DecidableEq, Inhabited

namespace Cursor

def statements (cursor : Cursor) : List NodeId := cursor.before.reverse ++ cursor.after

def remove (cursor : Cursor) (id : NodeId) : Cursor :=
  if cursor.before.contains id then { cursor with before := (cursor.before.reverse.erase id).reverse }
  else { cursor with after := cursor.after.erase id }

end Cursor

/-- A statement of a sweep, with the statements before it, nearest first, and after it. -/
structure Spot where
  before : List NodeId
  current : NodeId
  after : List NodeId
  deriving DecidableEq, Inhabited

def Spot.keep (spot : Spot) : Cursor := ⟨spot.before, spot.current :: spot.after⟩

namespace Draft

variable {m : Type → Type} [Monad m]

/-- Visits the statements from last to first. A step gives the cursor for the rest of the sweep and may drop statements on
either side but adds none, so the number of statements bounds the number of steps. -/
def sweepWithin (step : Store → Spot → m (Store × Cursor)) : Nat → Store → Cursor → m Draft
  | 0, store, cursor => pure ⟨store, cursor.statements⟩
  | _ + 1, store, ⟨[], after⟩ => pure ⟨store, after⟩
  | bound + 1, store, ⟨current :: before, after⟩ => do
      let (store, cursor) ← step store ⟨before, current, after⟩
      sweepWithin step bound store cursor

def sweep (draft : Draft) (step : Store → Spot → m (Store × Cursor)) : m Draft :=
  sweepWithin step draft.statements.length draft.store ⟨draft.statements.reverse, []⟩

end Draft

namespace Store

def dupLoads (store : Store) (source : NodeId) (statements : List NodeId) : List (NodeId × NodeId) :=
  statements.flatMap fun statement =>
    ((store.preorder statement).filter (store.isDupLoadOf · source)).map (statement, ·)

def sourcesBelow (store : Store) (root : NodeId) : List (NodeId × NodeId) :=
  (store.preorder root).filterMap fun id =>
    match store.kind? id with
    | some (.dupLoad source) => some (id, source)
    | _ => none

/-- Puts a held value in place of the repeat `load`, if that is the only one left. -/
def inlineHeld (store : Store) (cursor : Cursor) (load source : NodeId) : Store × Cursor :=
  if cursor.statements.contains source then
    match store.kind? source with
    | some (.dupStore value) =>
        match store.kind? value, store.dupLoads source cursor.statements with
        | some kind, [_] => (store.replace load kind, cursor.remove source)
        | _, _ => (store, cursor)
    | _ => (store, cursor)
  else (store, cursor)

/-- Puts the values that are used only below `root` any more in place of their repeats. -/
def inlineHeldBelow (store : Store) (cursor : Cursor) (root : NodeId) : Store × Cursor :=
  (store.sourcesBelow root).foldl (fun (store, cursor) (load, source) => store.inlineHeld cursor load source)
    (store, cursor)

def readsPlace (store : Store) (place : Place) (id : NodeId) : Bool :=
  match place, store.kind? id with
  | .slot _ slot, some (.read (.slot _ other)) => slot == other
  | .static field, some (.read (.static other)) => field == other
  | .field field object, some (.read (.field other otherObject)) => field == other && store.equal object otherObject
  | .element _ array index, some (.read (.element _ otherArray otherIndex)) =>
      store.equal array otherArray && store.equal index otherIndex
  | _, _ => false

/-- Copies an operand without side effects, so that it can be evaluated twice. -/
def duplicateWithin (store : Store) : Nat → NodeId → Option (NodeId × Store)
  | 0, _ => none
  | depth + 1, id =>
      match store.kind? id with
      | some (.read (.field field object)) =>
          (duplicateWithin store depth object).map fun (object, store) => store.allocate id (.read (.field field object))
      | some (.read (.slot type slot)) => some (store.allocate id (.read (.slot type slot)))
      | some (.read (.static field)) => some (store.allocate id (.read (.static field)))
      | some (.literal value) => some (store.allocate id (.literal value))
      | some (.constant index) => some (store.allocate id (.constant index))
      | some (.outerThis type) => some (store.allocate id (.outerThis type))
      | _ => none

def duplicate (store : Store) (id : NodeId) : Option (NodeId × Store) := store.duplicateWithin store.size id

end Store

namespace OnTable

def pool (home : ClassId) : OnTable Pool := do
  return ((← get).get? home).elim {} ClassFile.pool

def interning {α : Type} (home : ClassId) (action : Interning α) : OnTable α := fun table =>
  let (result, pool) := action (((table.get? home).elim {} ClassFile.pool))
  (result.mapError fun error => .method (.pool error), table.modify home fun file => { file with pool })

end OnTable

end ClassLift
