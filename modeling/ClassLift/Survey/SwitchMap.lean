import ClassLift.Body.Pattern
import ClassLift.Diagnostic

/-!
# Switch maps

A switch over an enum goes through an array that maps the ordinal of a constant to a case label. The array is filled by
stores `map[E.X.ordinal()] = label`. Ordered by label, the constants stored give the meaning of the cases.
-/

namespace ClassLift

/-- A store `map[E.X.ordinal()] = label`; the constant is known by the index of its name. -/
structure OrdinalStore where
  map : NodeId
  constant : PoolIndex
  label : Int32
  deriving DecidableEq, Inhabited

namespace OrdinalStore

def ofKind? (pool : Pool) (store : Store) : Kind → Except PoolError (Option OrdinalStore)
  | .write (.element _ map index) value =>
      match store.kind? value, store.kind? index with
      | some (.literal (.int label)), some (.call .virtual method (some object) []) =>
          match store.kind? object with
          | some (.read (.static field)) => do
              let called ← pool.member method
              if called.name != "ordinal" || called.descriptor != "()I" then return none
              return some { map, label, constant := (← pool.member field).nameIndex }
          | _ => .ok none
      | _, _ => .ok none
  | _ => .ok none

def collect (pool : Pool) (store : Store) (statements : List NodeId) : Except PoolError (List OrdinalStore) :=
  let visit (_ : NodeId) (node : Node) : StateT (List OrdinalStore) (Except PoolError) PUnit := do
    if let some found ← ofKind? pool store node.kind then modify (· ++ [found])
  return (← (store.walkList visit statements).run []).2

def firstOfRuns : Option Int32 → List OrdinalStore → List PoolIndex
  | _, [] => []
  | last, found :: rest =>
      if last = some found.label then firstOfRuns last rest
      else found.constant :: firstOfRuns (some found.label) rest

/-- The constants in the order of their labels. Of several with one label the first counts. -/
def caseOrder (stores : List OrdinalStore) : List PoolIndex :=
  firstOfRuns none (stores.mergeSort fun one other => one.label ≤ other.label)

end OrdinalStore

/-- The name of a method that fills a switch map: `$SWITCH_TABLE$…` or `-get…SwitchesValues`. -/
def isSwitchTableName (name : String) : Bool :=
  let text := name.toList
  "$SWITCH_TABLE$".toList.isPrefixOf text ||
    "-get".toList.isPrefixOf text && "SwitchesValues".toList.isSuffixOf text

/-- The switch map that a method fills through a local variable, under the name of the method. -/
def ClassFile.switchTableOf? (file : ClassFile) (method : Method) :
    Except PoolError (Option (PoolIndex × List PoolIndex)) := do
  if !method.access.isStatic || !method.access.isSynthetic then return none
  if (← file.pool.utf8 method.descriptorIndex) != "()[I" then return none
  if !isSwitchTableName (← file.pool.utf8 method.nameIndex) then return none
  let some code := method.code | return none
  let stores ← OrdinalStore.collect file.pool code.store code.instructions
  match stores.filter fun found => code.store.isSlotRead found.map with
  | [] => return none
  | stores => return some (method.nameIndex, OrdinalStore.caseOrder stores)

end ClassLift
