import ClassLift.Idiom.Draft
import ClassLift.Survey.Accessor

/-!
# Enclosing instances and accessors

Calls of accessors are replaced by what the accessor does, and reads of the field that holds the enclosing instance by
`Outer.this`. An accessor of another class names its member in the pool of that class, so the reference is made anew in the
pool of the calling class.
-/

namespace ClassLift

namespace OuterInstance

def isOuterStore (store : Store) (reference : PoolIndex) (id : NodeId) : Bool :=
  match store.kind? id with
  | some (.write (.field field object) value) => field == reference && store.isSlot object 0 && store.isSlot value 1
  | _ => false

def dropOuterStore (file : ClassFile) (method : Nat) (draft : Draft) : Draft :=
  match file.outerField, file.methods[method]? with
  | some outerField, some declared =>
      if declared.isConstructor file.pool then
        { draft with statements := draft.statements.eraseP (isOuterStore draft.store outerField.reference) }
      else draft
  | _, _ => draft

def accessor? (table : ClassTable) (pool : Pool) : Kind → Except PoolError (Option (Accessor × ClassId))
  | .call .static method _ _ => do
      let called ← pool.member method
      if !Accessor.isName called.name then return none
      let some owner := table.findByName? called.owner | return none
      let some file := table.get? owner | return none
      let some index := file.findMethod? called.name called.descriptor | return none
      return (file.methods[index]?.bind Method.accessor).map (·, owner)
  | _ => .ok none

/-- A member reference of the pool of `owner`, resolved. Nothing has to be done for a reference of the class itself. -/
def foreignMember? (table : ClassTable) (home owner : ClassId) (index : PoolIndex) :
    Except PoolError (Option Member) :=
  if owner = home then .ok none else some <$> ((table.get? owner).elim {} ClassFile.pool).member index

def importField (home owner : ClassId) (index : PoolIndex) : OnTable PoolIndex := do
  match ← foreignMember? (← get) home owner index with
  | none => return index
  | some found => OnTable.interning home (Pool.internField found.owner found.name found.descriptor)

def importMethod (home owner : ClassId) (index : PoolIndex) : OnTable PoolIndex := do
  match ← foreignMember? (← get) home owner index with
  | none => return index
  | some found => OnTable.interning home (Pool.internMethod found.owner found.name found.descriptor)

def droppedCall? (store : Store) (statement : NodeId) : Option NodeId :=
  match store.kind? statement with
  | some (.discard value) => some value
  | some (.call ..) => some statement
  | _ => none

/-- A setter called for its effect becomes a plain write. -/
def inlineSetter (home : ClassId) (store : Store) (statement : NodeId) : OnTable Store := do
  let some call := droppedCall? store statement | return store
  let some kind := store.kind? call | return store
  let some (accessor, owner) ← accessor? (← get) (← OnTable.pool home) kind | return store
  match accessor, kind with
  | .writeStatic field, .call _ _ _ [value] =>
      return store.replace statement (.write (.static (← importField home owner field)) value)
  | .writeField field, .call _ _ _ [object, value] =>
      return store.replace statement (.write (.field (← importField home owner field) object) value)
  | _, _ => return store

/-- An accessor call becomes what the accessor does with the arguments. -/
def inlineCall (home owner : ClassId) (store : Store) (id : NodeId) (arguments : List NodeId) :
    Accessor → OnTable Store
  | .readStatic field => do
      if !arguments.isEmpty then return store
      return store.replace id (.read (.static (← importField home owner field)))
  | .readField field => do
      let [object] := arguments | return store
      return store.replace id (.read (.field (← importField home owner field) object))
  | .writeStatic field => do
      let [value] := arguments | return store
      let (target, store) := store.allocate id (.read (.static (← importField home owner field)))
      return store.replace id (.assign .plain target value)
  | .writeField field => do
      let [object, value] := arguments | return store
      let (target, store) := store.allocate id (.read (.field (← importField home owner field) object))
      return store.replace id (.assign .plain target value)
  | .call method true => do
      return store.replace id (.call .static (← importMethod home owner method) none arguments)
  | .call method false => do
      let object :: rest := arguments | return store
      return store.replace id (.call .virtual (← importMethod home owner method) (some object) rest)

/-- The class whose instance a node is: the class itself for `this`, another for an enclosing instance. -/
def holder? (table : ClassTable) (home : ClassId) (pool : Pool) : Kind → Except PoolError (Option ClassId)
  | .read (.slot _ slot) => .ok (if slot = 0 then some home else none)
  | .outerThis type => do return table.findByName? (← pool.className type)
  | _ => .ok none

def outerName? (table : ClassTable) (home : ClassId) (pool : Pool) (field : PoolIndex) (object : Kind) :
    Except PoolError (Option String) := do
  let some holder ← holder? table home pool object | return none
  let some file := table.get? holder | return none
  let some outerField := file.outerField | return none
  let some outer := file.outer.bind table.get? | return none
  let read ← pool.member field
  let some declared := file.fields[outerField.field]? | return none
  let declaredName ← file.pool.utf8 declared.nameIndex
  if read.owner != (← file.name) || read.name != declaredName then return none
  return some (← outer.name)

def foldNode (home : ClassId) (store : Store) (id : NodeId) : OnTable Store := do
  match store.kind? id with
  | some (.call .static method object arguments) =>
      match ← accessor? (← get) (← OnTable.pool home) (.call .static method object arguments) with
      | some (accessor, owner) => inlineCall home owner store id arguments accessor
      | none => return store
  | some (.read (.field field object)) =>
      let some kind := store.kind? object | return store
      match ← outerName? (← get) home (← OnTable.pool home) field kind with
      | some name => return store.replace id (.outerThis (← OnTable.interning home (Pool.internClass name)))
      | none => return store
  | _ => return store

def recover (home : ClassId) (method : Nat) (draft : Draft) : OnTable Draft := do
  let draft := ((← get).get? home).elim draft fun file => dropOuterStore file method draft
  let store ← draft.statements.foldlM (inlineSetter home) draft.store
  let store ← (store.postorder draft.statements).foldlM (foldNode home) store
  return { draft with store }

end OuterInstance

end ClassLift
