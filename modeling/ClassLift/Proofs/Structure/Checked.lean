import ClassLift.Proofs.Body.Equality
import ClassLift.Proofs.Body.Tree
import ClassLift.Proofs.Structure.Listing

/-!
# Structuring with every access checked

Structuring looks at positions of a list and at nodes of a store, and gives up quietly where there is none. Here each of its
steps stands in a form that takes nothing for granted: a position or a node that is not there, a difference below zero and a
region that has used up its steps are faults. In a store without cycles the traversals of trees end by themselves; with
`deep` it is a fault if one does not.
-/

namespace ClassLift

inductive Fault where
  | outOfRange
  | underflow
  | depth
  deriving DecidableEq

namespace Checked

abbrev Build := ExceptT StructureError (StateT Region.State (Except Fault))

abbrev Recur := Nat → Nat → Jumps → Build (List NodeId)

def minus (number less : Nat) : Except Fault Nat := if less ≤ number then .ok (number - less) else .error .underflow

def suffix {α : Type} (list : List α) (first : Nat) : Except Fault (List α) :=
  if first ≤ list.length then .ok (list.drop first) else .error .outOfRange

def node (store : Store) (id : NodeId) : Except Fault Kind := (store.kind? id).elim (.error .outOfRange) .ok

/-! ## Traversals -/

/-- The nodes below `root` in pre-order. In a `deep` traversal a path longer than the depth is a fault. -/
def preorderWithin (deep : Bool) (store : Store) : Nat → NodeId → Except Fault (List NodeId)
  | 0, _ => if deep then .error .depth else .ok []
  | depth + 1, id => do
      let kind ← node store id
      return id :: (← kind.children.mapM (preorderWithin deep store depth)).flatten

def any (deep : Bool) (store : Store) (predicate : Node → Bool) (root : NodeId) : Except Fault Bool := do
  return (← preorderWithin deep store store.size root).any fun id => (store.node? id).any predicate

def startOffset (deep : Bool) (store : Store) (root : NodeId) : Except Fault Offset := do
  let offsets := (← preorderWithin deep store store.size root).filterMap store.offset?
  return offsets.min?.getD 0

def equalWithin (deep : Bool) (store : Store) : Nat → NodeId → NodeId → Except Fault Bool
  | 0, x, y => if deep then .error .depth else .ok (store.equal x y)
  | depth + 1, x, y => do
      if x = y then return true
      let one ← node store x
      let other ← node store y
      if one.isComparable && one.label == other.label then
        (one.links.zip other.links).allM fun (x, y) => equalWithin deep store depth x y
      else return false

variable (deep : Bool) (listing : Listing) (store : Store) (recur : Recur)

/-! ## Positions -/

def statementAt (position : Nat) : Except Fault NodeId := listing.statements[position]?.elim (.error .outOfRange) .ok

def kindAt (position : Nat) : Except Fault Kind := do node store (← statementAt listing position)

def targetAt (position : Nat) : Except Fault (Option Nat) := do
  return (← kindAt listing store position).target?.map listing.positionOf

def isBranchAt (position : Nat) : Except Fault Bool := do
  return (← kindAt listing store position).isBranch

def gotoTarget (position : Nat) : Except Fault (Option Nat) := do
  if (← kindAt listing store position).isGoto then targetAt listing store position else return none

def backEdge (header stop : Nat) : Except Fault (Option Nat) :=
  (Listing.positions header stop).reverse.findM? fun source => do
    return (← targetAt listing store source) == some header

def loopEnd (position stop : Nat) (jumps : Jumps) : Except Fault (Option Nat) :=
  if jumps.continueTo.contains position then .ok none else backEdge listing store position stop

def bottomTest (position stop : Nat) : Except Fault (Option Nat) := do
  let some test ← targetAt listing store position | return none
  if position < test && test < stop then
    if (← isBranchAt listing store test) && (← targetAt listing store test) == some (position + 1) then return some test
  return none

def elseEnd (position target stop : Nat) : Except Fault (Option Nat) := do
  if position + 1 < target then
    return (← gotoTarget listing store (← minus target 1)).filter fun last => target < last && last ≤ stop
  return none

def withoutJump (first stop after : Nat) : Except Fault Nat := do
  if first + 1 < stop then
    let last ← minus stop 1
    if (← gotoTarget listing store last) == some after then return last
  return stop

def updatedSlot : Kind → Except Fault (Option Slot)
  | .bump slot _ | .write (.slot _ slot) _ => return some slot
  | .increment _ target _ | .assign _ target _ => do
      let .read (.slot _ slot) ← node store target | return none
      return some slot
  | _ => return none

/-! ## Changes -/

def perform {α : Type} (action : Region.Build α) : Build α := fun state => .ok (action state)

def replace (id : NodeId) (kind : Kind) : Build Unit := do
  let _ ← node (← get).store id
  perform (Region.replace id kind)

def negate (id : NodeId) : Build Unit := do
  let _ ← node (← get).store id
  perform (Region.negate id)

def allocate (origin : NodeId) (kind : Kind) : Build NodeId := do
  let _ ← node (← get).store origin
  perform (Region.allocate origin kind)

/-! ## Loops -/

def countedParts (first stop : Nat) (condition : NodeId) (out : List NodeId) : Except Fault (Option (NodeId × Nat)) := do
  let some start := out.getLast? | return none
  let .write (.slot _ slot) _ ← node store start | return none
  if stop ≤ first then return none
  let update ← minus stop 1
  if (← updatedSlot store (← kindAt listing store update)) ≠ some slot then return none
  if ← any deep store (fun node => node.kind.isSlot slot) condition then return some (start, update)
  return none

def whileLoop (first stop : Nat) (condition : NodeId) (continueTo exit : Nat) (out : List NodeId) :
    Build (List NodeId) := do
  match ← countedParts deep listing (← get).store first stop condition out with
  | some (start, update) =>
      let updateNode ← statementAt listing update
      let body ← recur first update { breakTo := exit, continueTo := [continueTo, update] }
      return out.dropLast ++ [← allocate condition (.loop (.counted start condition updateNode) body)]
  | none =>
      let body ← recur first stop { breakTo := exit, continueTo := [continueTo] }
      return out ++ [← allocate condition (.loop (.whileDo condition) body)]

def backEdgeLoop (header backEdge : Nat) (out : List NodeId) : Build (Nat × List NodeId) := do
  let exit := backEdge + 1
  let source ← statementAt listing backEdge
  let first ← statementAt listing header
  let store := (← get).store
  if ← isBranchAt listing store backEdge then
    let body ← recur header backEdge { breakTo := exit, continueTo := [backEdge, header] }
    return (exit, out ++ [← allocate source (.loop (.doWhile source) body)])
  if (← isBranchAt listing store header) && (← targetAt listing store header) == some exit then
    negate first
    return (exit, ← whileLoop deep listing recur (header + 1) backEdge first header exit out)
  let body ← recur header backEdge { breakTo := exit, continueTo := [header] }
  return (exit, out ++ [← allocate first (.loop .forever body)])

/-! ## Jumps -/

def conditional (position stop : Nat) (jumps : Jumps) (out : List NodeId) (branch : NodeId) (target : Nat) :
    Build (Nat × List NodeId) := do
  if position < target && target ≤ stop then
    let (thenEnd, last) ←
      match ← elseEnd listing (← get).store position target stop with
      | some last => do pure (← minus target 1, last)
      | none => pure (target, target)
    negate branch
    let onTrue ← recur (position + 1) thenEnd jumps
    let onFalse ← recur target last jumps
    return (last, out ++ [← allocate branch (.ifElse branch onTrue onFalse)])
  match jumps.exit? target with
  | some kind =>
      let exit ← allocate branch kind
      return (position + 1, out ++ [← allocate branch (.ifElse branch [exit] [])])
  | none => return (position + 1, out ++ [branch])

def jump (position stop : Nat) (jumps : Jumps) (out : List NodeId) (statement : NodeId) (target : Nat) :
    Build (List NodeId) := do
  if target = stop ∧ position + 1 = stop then return out
  match jumps.exit? target with
  | some kind =>
      replace statement kind
      return out ++ [statement]
  | none => return out ++ [statement]

/-! ## Switches -/

def switchEnd (position stop default : Nat) (cases : List (Int32 × Nat)) (last : Nat) : Except Fault Nat := do
  let exits ← (Listing.positions (position + 1) last).mapM (gotoTarget listing store)
  match ((exits.filterMap id).filter fun target => last ≤ target && target ≤ stop).min? with
  | some target => return target
  | none => return if default = last ∧ cases.all (·.2 ≠ last) then last else stop

def arms (default last : Nat) (cases : List (Int32 × Nat)) (jumps : Jumps) : List Nat → Build (List SwitchArm)
  | [] => return []
  | start :: rest => do
      if last ≤ start then return []
      let body ← recur start (rest.head?.elim last (min last)) jumps
      let values := (cases.filter (·.2 = start)).map (·.1)
      return { values, isDefault := default = start, body } :: (← arms default last cases jumps rest)

def switch (position stop : Nat) (jumps : Jumps) (out : List NodeId) (statement key : NodeId) (default : Offset)
    (cases : List (Int32 × Offset)) : Build (Nat × List NodeId) := do
  let default := listing.positionOf default
  let cases := cases.map fun (value, target) => (value, listing.positionOf target)
  let starts := Region.armStarts position stop default cases
  let some lastStart := starts.getLast? | return (position + 1, out ++ [statement])
  let last ← switchEnd listing (← get).store position stop default cases lastStart
  let arms ← arms recur default last cases { jumps with breakTo := some last } starts
  replace statement (.switchArms key arms)
  return (last, out ++ [statement])

/-! ## Protected blocks -/

def handlerExit : List Nat → Except Fault (Option Nat)
  | [] => return none
  | next :: rest => do
      match ← gotoTarget listing store (← minus next 1) with
      | some target => return some target
      | none => handlerExit rest

def bodyExit (bodyEnd first : Nat) : Except Fault (Option Nat) := do
  if bodyEnd < first then gotoTarget listing store (← minus first 1) else return none

def tryEnd (bodyEnd stop first : Nat) (others : List Nat) : Except Fault Nat := do
  let last := others.getLast?.getD first
  let exit ←
    match ← bodyExit listing store bodyEnd first with
    | some target => pure (some target)
    | none => handlerExit listing store others
  return (exit.filter fun after => last < after && after ≤ stop).getD stop

def isException (value : NodeId) : Except Fault Bool := do
  let .caught _ ← node store value | return false
  return true

def exceptionSlot (start : Nat) : Except Fault (Slot × Nat) := do
  match ← kindAt listing store start with
  | .write (.slot _ slot) value => return if ← isException store value then (slot, start + 1) else (listing.maxLocals, start)
  | .discard value =>
      return if ← isException store value then (listing.maxLocals, start + 1) else (listing.maxLocals, start)
  | _ => return (listing.maxLocals, start)

def rethrows (slot : Slot) (statement : NodeId) : Except Fault Bool := do
  let .throw value ← node store statement | return false
  return (← node store value).isSlot slot

def endsInRethrow (slot : Slot) (body : List NodeId) : Except Fault Bool := do
  let some last := body.getLast? | return false
  rethrows store slot last

def clauses (after : Nat) (jumps : Jumps) : List (Nat × Handler) → Build (List CatchClause × Option (List NodeId))
  | [] => return ([], none)
  | (start, handler) :: rest => do
      let store := (← get).store
      let stop ← withoutJump listing store start ((rest.head?.map (·.1)).getD after) after
      let (slot, first) ← exceptionSlot listing store start
      let body ← recur (min first stop) stop jumps
      if handler.type = 0 then
        let rethrown ← endsInRethrow (← get).store slot body
        let body := if rethrown then body.dropLast else body
        let (clauses, cleanup) ← clauses after jumps rest
        return (clauses, cleanup.or (some body))
      let (clauses, cleanup) ← clauses after jumps rest
      return ({ type := handler.type, slot, body } :: clauses, cleanup)

def withoutCleanup (cleanup body : List NodeId) : Except Fault (List NodeId) := do
  if !cleanup.isEmpty && cleanup.length ≤ body.length then
    let kept ← minus body.length cleanup.length
    if ← ((← suffix body kept).zip cleanup).allM fun (x, y) => equalWithin deep store store.size x y then
      return body.take kept
  return body

def clausesWithoutCleanup (cleanup : List NodeId) (clauses : List CatchClause) : Except Fault (List CatchClause) :=
  clauses.mapM fun clause => do return { clause with body := ← withoutCleanup deep store cleanup clause.body }

def tryCatch (position : Nat) (protectedStop : Offset) (stop : Nat) (jumps : Jumps) (out : List NodeId)
    (statement : NodeId) : Build (Nat × List NodeId) := do
  let handlers ← perform (Region.takeHandlers listing position protectedStop)
  let bodyEnd := listing.positionOf protectedStop
  match Region.checkHandlers bodyEnd stop handlers with
  | .error error => throw error
  | .ok _ => pure ()
  let (firstHandler, _) :: others := handlers | liftM (Except.error Fault.outOfRange)
  let store := (← get).store
  let after ← tryEnd listing store bodyEnd stop firstHandler (others.map (·.1))
  let body ← recur position (← withoutJump listing store position firstHandler after) jumps
  let (catches, cleanup) ← clauses listing recur after jumps handlers
  let cleanup := cleanup.getD []
  let store := (← get).store
  let body ← withoutCleanup deep store cleanup body
  let catches ← clausesWithoutCleanup deep store cleanup catches
  return (after, out ++ [← allocate statement (.tryCatch body catches cleanup)])

/-! ## Regions -/

def plain (position stop : Nat) (jumps : Jumps) (out : List NodeId) (statement : NodeId) : Build (Nat × List NodeId) := do
  let store := (← get).store
  match ← node store statement with
  | .switch key default cases => switch listing recur position stop jumps out statement key default cases
  | .branch _ target => conditional listing recur position stop jumps out statement (listing.positionOf target)
  | .goto target =>
      match ← bottomTest listing store position stop with
      | some test =>
          let condition ← statementAt listing test
          return (test + 1, ← whileLoop deep listing recur (position + 1) test condition test (test + 1) out)
      | none => return (position + 1, ← jump position stop jumps out statement (listing.positionOf target))
  | _ => return (position + 1, out ++ [statement])

def statement (position stop : Nat) (jumps : Jumps) (out : List NodeId) : Build (Nat × List NodeId) := do
  let current ← statementAt listing position
  let state ← get
  let backEdge ← loopEnd listing state.store position stop jumps
  match Region.protectedEnd? listing state.handlers position stop, backEdge with
  | some protectedStop, none => tryCatch deep listing recur position protectedStop stop jumps out current
  | some protectedStop, some backEdge =>
      if backEdge < listing.positionOf protectedStop then
        tryCatch deep listing recur position protectedStop stop jumps out current
      else backEdgeLoop deep listing recur position backEdge out
  | none, some backEdge => backEdgeLoop deep listing recur position backEdge out
  | none, none => plain deep listing recur position stop jumps out current

/-- A region that is not at its end when the bound is used up is a fault. -/
def regionFrom : Nat → Nat → Nat → Jumps → List NodeId → Build (List NodeId)
  | 0, position, stop, _, out => if stop ≤ position then return out else liftM (Except.error Fault.depth)
  | bound + 1, position, stop, jumps, out => do
      if stop ≤ position then return out
      let recur (first stop : Nat) (jumps : Jumps) := regionFrom bound first stop jumps []
      let (next, out) ← statement deep listing recur position stop jumps out
      regionFrom bound next stop jumps out

def build (store : Store) (statements : List NodeId) (handlers : List Handler) (maxLocals : Slot) :
    Except Fault (Except StructureError (List NodeId) × Store) := do
  let starts ← statements.mapM (startOffset deep store)
  let listing : Listing := ⟨statements.toArray, starts, maxLocals⟩
  let (result, state) ← regionFrom deep listing listing.size 0 listing.size {} [] ⟨store, handlers⟩
  return (result, state.store)

/-! ## Searches in range -/

section Lists

variable {α β : Type}

end Lists

end Checked

/-- One node names another: as an operand, as a statement of a body, or as the store that a repeated value comes from. -/
def Store.Names (store : Store) (parent child : NodeId) : Prop :=
  ∃ kind, store.kind? parent = some kind ∧ child ∈ kind.children ++ kind.links

structure Listing.InRange (listing : Listing) (store : Store) : Prop where
  statement : ∀ (position : Nat) (id : NodeId), listing.statements[position]? = some id → id < store.size
  named : ∀ parent child, store.Names parent child → child < store.size

namespace Checked

variable {listing : Listing} {store : Store} {position first stop target : Nat} {id : NodeId} {kind : Kind}

theorem node_of_kind? (found : store.kind? id = some kind) : node store id = .ok kind := by
  rw [node, found]
  rfl

theorem node_ok (inside : id < store.size) : ∃ kind, store.kind? id = some kind ∧ node store id = .ok kind := by
  obtain ⟨found, located⟩ := Store.node?_isSome inside
  exact ⟨found.kind, Store.kind?_of_node? located, node_of_kind? (Store.kind?_of_node? located)⟩

section InRange

variable (inRange : listing.InRange store)

include inRange

end InRange

/-! ## Traversals in range -/

section Ranked

variable {deep : Bool} {rank : NodeId → Nat} {inside : NodeId → Prop}

def compared (kind : Kind) : List NodeId := if kind.isComparable then kind.links else []

end Ranked

/-! ## Parts of loops and cleanups -/

section Cleanup

variable {deep : Bool} {cleanup : List NodeId}

end Cleanup

end Checked

end ClassLift
