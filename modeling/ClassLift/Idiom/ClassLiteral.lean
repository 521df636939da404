import ClassLift.Idiom.Draft

/-!
# Class literals

`Foo.class` was once compiled to a call of a helper `class$`, whose result is kept in a static field:

`if (cache != null) goto L; dup := class$("Foo"); cache = dup; push dup; goto M; L: … cache …`

The six statements become the last one, with the class in place of the cache. A helper call without a cache is a class
literal too.
-/

namespace ClassLift

namespace ClassLiteral

def isHelper (pool : Pool) (method : PoolIndex) : Except PoolError Bool := do
  let called ← pool.member method
  return called.name == "class$" && called.descriptor == "(Ljava/lang/String;)Ljava/lang/Class;"

def argumentText? (pool : Pool) (store : Store) : List NodeId → Except PoolError (Option String)
  | [argument] =>
      match store.kind? argument with
      | some (.constant index) => pool.string index
      | _ => .ok none
  | _ => .ok none

def named? (pool : Pool) (store : Store) (method : PoolIndex) (arguments : List NodeId) :
    Except PoolError (Option String) := do
  if !(← isHelper pool method) then return none
  argumentText? pool store arguments

/-- The class of an array is taken from an empty array, since no constant names it. -/
def arrayLiteral (home : ClassId) (store : Store) (origin : NodeId) (element : List Char) : OnTable (Kind × Store) := do
  let (length, store) := store.allocate origin (.literal (.int 0))
  let array ←
    if (String.ofList element).utf8ByteSize = 1 then
      pure (.newArray (Descriptor.valueType (.ofList element)) length)
    else do
      let name := String.ofList ((Descriptor.objectName? element).getD element)
      pure (.newObjectArray (← OnTable.interning home (Pool.internClass name)) length)
  let (object, store) := store.allocate origin array
  let method ←
    OnTable.interning home (Pool.internMethod "java/lang/Object" "getClass" "()Ljava/lang/Class;")
  return (.call .virtual method (some object) [], store)

def literal (home : ClassId) (store : Store) (origin : NodeId) (name : String) : OnTable (Kind × Store) := do
  match name.toList.map fun letter => if letter == '.' then '/' else letter with
  | '[' :: element => arrayLiteral home store origin element
  | path => return (.constant (← OnTable.interning home (Pool.internClass (.ofList path))), store)

/-- Finds the class that declares a member: an enclosing class first, then any. -/
def owner? (table : ClassTable) (home : ClassId) (name : String) : Option ClassId :=
  (table.findInOuterChain? home name).or (table.findByName? name)

def markField (home : ClassId) (index : PoolIndex) : OnTable Unit := do
  let found ← (← OnTable.pool home).member index
  let some owner := owner? (← get) home found.owner | return
  modify fun table => table.modify owner fun file =>
    (file.findField? found.name found.descriptor).elim file (file.modifyField · Field.markSynthetic)

def markMethod (home : ClassId) (index : PoolIndex) : OnTable Unit := do
  let found ← (← OnTable.pool home).member index
  let some owner := owner? (← get) home found.owner | return
  modify fun table => table.modify owner fun file =>
    (file.findMethod? found.name found.descriptor).elim file (file.modifyMethod · Method.markSynthetic)

def tested? (store : Store) (id : NodeId) : Option PoolIndex :=
  match store.kind? id with
  | some (.branch (.null _ value) _) =>
      match store.kind? value with
      | some (.read (.static cache)) => some cache
      | _ => none
  | _ => none

def heldCall? (store : Store) (id : NodeId) : Option (PoolIndex × List NodeId) :=
  match store.kind? id with
  | some (.dupStore call) =>
      match store.kind? call with
      | some (.call .static method _ arguments) => some (method, arguments)
      | _ => none
  | _ => none

def isCacheWrite (store : Store) (cache : PoolIndex) (source id : NodeId) : Bool :=
  match store.kind? id with
  | some (.write (.static field) value) => field == cache && store.isDupLoadOf value source
  | _ => false

/-- The offset of the second value of a `?:` whose first value is the held one. -/
def second? (store : Store) (source id : NodeId) : Option Offset :=
  match store.kind? id with
  | some (.pendingConditional value second) => if store.isDupLoadOf value source then some second else none
  | _ => none

def isCacheRead (cache : PoolIndex) (offset : Offset) (node : Node) : Bool :=
  node.offset == offset &&
    match node.kind with
    | .read (.static field) => field == cache
    | _ => false

def foldCached (home : ClassId) (store : Store) (spot : Spot) : OnTable (Store × Cursor) := do
  let some cache := tested? store spot.current | return (store, spot.keep)
  let held :: put :: pending :: jump :: use :: rest := spot.after | return (store, spot.keep)
  let some (helper, arguments) := heldCall? store held | return (store, spot.keep)
  let some name ← named? (← OnTable.pool home) store helper arguments | return (store, spot.keep)
  if !isCacheWrite store cache held put then return (store, spot.keep)
  let some second := second? store held pending | return (store, spot.keep)
  if !(store.kind? jump).any Kind.isGoto then return (store, spot.keep)
  let some read := store.find? (isCacheRead cache second) use | throw (.method .unreadCache)
  let (kind, store) ← literal home store read name
  markField home cache
  markMethod home helper
  return (store.replace read kind, ⟨spot.before, use :: rest⟩)

def foldCall (home : ClassId) (store : Store) (id : NodeId) : OnTable Store := do
  match store.kind? id with
  | some (.call .static method _ arguments) =>
      match ← named? (← OnTable.pool home) store method arguments with
      | some name =>
          let (kind, store) ← literal home store id name
          markMethod home method
          return store.replace id kind
      | none => return store
  | _ => return store

def recover (home : ClassId) (draft : Draft) : OnTable Draft := do
  let draft ← draft.sweep (foldCached home)
  let store ← (draft.store.postorder draft.statements).foldlM (foldCall home) draft.store
  return { draft with store }

end ClassLiteral

end ClassLift
