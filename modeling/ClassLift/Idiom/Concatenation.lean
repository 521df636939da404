import ClassLift.Idiom.Draft

/-!
# String concatenation

`a + b` on strings is compiled to `new StringBuilder().append(a).append(b).toString()`, older compilers use a `StringBuffer`
and some start with `new StringBuilder(String.valueOf(a))`. The chain becomes a left-associative sum. One of the first two
operands of the sum has to be a string, so an empty one is put in front where neither is known to be.
-/

namespace ClassLift

namespace Concatenation

/-- A value that is appended, and whether it goes through a parameter of type `String`. -/
structure Operand where
  node : NodeId
  isString : Bool
  deriving DecidableEq, Inhabited

def isBuilder (name : String) : Bool := name == "java/lang/StringBuilder" || name == "java/lang/StringBuffer"

def takesString (descriptor : String) : Except DescriptorError Bool := do
  return (← Descriptor.parameters descriptor) == ["Ljava/lang/String;"]

def initial (pool : Pool) (store : Store) (id : NodeId) : Except Failure Operand := do
  match store.kind? id with
  | some (.call .static method none [argument]) =>
      let called ← pool.member method
      if called.owner == "java/lang/String" && called.name == "valueOf" then
        return ⟨argument, ← takesString called.descriptor⟩
      return ⟨id, true⟩
  | _ => return ⟨id, true⟩

def constructed? (pool : Pool) (store : Store) (method : PoolIndex) (arguments : List NodeId) :
    Except Failure (Option (List Operand)) := do
  let called ← pool.member method
  if !isBuilder called.owner || called.name != "<init>" then return none
  if called.descriptor == "()V" && arguments.isEmpty then return some []
  if called.descriptor != "(Ljava/lang/String;)V" then return none
  let [argument] := arguments | return none
  return some [← initial pool store argument]

/-- The operands appended to a fresh builder, in order. The number bounds the length of the chain. -/
def appended? (pool : Pool) (store : Store) : Nat → NodeId → Except Failure (Option (List Operand))
  | 0, _ => .ok none
  | bound + 1, builder =>
      match store.kind? builder with
      | some (.call .virtual method (some inner) arguments) => do
          let called ← pool.member method
          let [argument] := arguments | return none
          if !isBuilder called.owner || called.name != "append" then return none
          let operand : Operand := ⟨argument, ← takesString called.descriptor⟩
          return (← appended? pool store bound inner).map (· ++ [operand])
      | some (.construct method arguments) => constructed? pool store method arguments
      | _ => .ok none

def operands? (pool : Pool) (store : Store) : Kind → Except Failure (Option (List Operand))
  | .call .virtual method (some builder) arguments => do
      let called ← pool.member method
      if !arguments.isEmpty || !isBuilder called.owner || called.name != "toString" then return none
      appended? pool store store.size builder
  | _ => .ok none

def needsEmptyString : List Operand → Bool
  | [] => true
  | [first] => !first.isString
  | first :: second :: _ => !first.isString && !second.isString

/-- Adds the operands from left to right. The last sum is a kind only, to be put under an existing node. -/
def sum (store : Store) (origin first : NodeId) : List NodeId → Option (Kind × Store)
  | [] => (store.kind? first).map (·, store)
  | [last] => some (.binary .add first last, store)
  | next :: rest =>
      let (first, store) := store.allocate origin (.binary .add first next)
      sum store origin first rest

def foldNode (home : ClassId) (store : Store) (id : NodeId) : OnTable Store := do
  let some kind := store.kind? id | return store
  let some operands ← operands? (← OnTable.pool home) store kind | return store
  let nodes := operands.map Operand.node
  let (nodes, store) ←
    if needsEmptyString operands then do
      let empty ← OnTable.interning home (Pool.internString "")
      let (node, store) := store.allocate id (.constant empty)
      pure (node :: nodes, store)
    else pure (nodes, store)
  let first :: rest := nodes | return store
  let some (kind, store) := sum store id first rest | return store
  return store.replace id kind

def recover (home : ClassId) (draft : Draft) : OnTable Draft := do
  let store ← (draft.store.postorder draft.statements).foldlM (foldNode home) draft.store
  return { draft with store }

end Concatenation

end ClassLift
