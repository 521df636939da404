import ClassLift.Body.Equality
import ClassLift.Structure.Listing

/-!
# Structuring regions

`Region.build` turns a flat statement list with jumps into nested statements. A region is worked through from its start: the
statement at a position takes in everything it governs, whose regions are structured in turn, and the work goes on after it.
Every region that a statement takes in is shorter than what is left of its own region, so the length of the list bounds the
depth of the recursion. Jumps that fit no structure stay as they are.
-/

namespace ClassLift

namespace Region

/-- The body so far, and the handlers that no `try` stands for yet. -/
structure State where
  store : Store
  handlers : List Handler
  deriving DecidableEq, Inhabited

/-- A step of structuring. What it did to the body before it failed stays. -/
abbrev Build := ExceptT StructureError (StateM State)

abbrev Recur := Nat → Nat → Jumps → Build (List NodeId)

def replace (id : NodeId) (kind : Kind) : Build Unit :=
  modify fun state => { state with store := state.store.replace id kind }

def negate (id : NodeId) : Build Unit :=
  modify fun state => { state with store := state.store.negate id }

def allocate (origin : NodeId) (kind : Kind) : Build NodeId :=
  modifyGet fun state =>
    let (id, store) := state.store.allocate origin kind
    (id, { state with store })

variable (listing : Listing) (recur : Recur)

/-! ## Loops -/

/-- The initialization and the update of a counted loop: the statement before the loop and the last one of its body both
write a local variable that the condition tests. -/
def countedParts? (store : Store) (first stop : Nat) (condition : NodeId) (out : List NodeId) : Option (NodeId × Nat) := do
  let start ← out.getLast?
  let some (.write (.slot _ slot) _) := store.kind? start | none
  if stop ≤ first then none
  let update := stop - 1
  if (listing.kindAt? store update).bind store.updatedSlot? ≠ some slot then none
  if store.any (fun node => node.kind.isSlot slot) condition then some (start, update) else none

def whileLoop (first stop : Nat) (condition : NodeId) (continueTo exit : Nat) (out : List NodeId) :
    Build (List NodeId) := do
  match countedParts? listing (← get).store first stop condition out with
  | some (start, update) =>
      let some updateNode := listing.statements[update]? | return out
      let body ← recur first update { breakTo := exit, continueTo := [continueTo, update] }
      return out.dropLast ++ [← allocate condition (.loop (.counted start condition updateNode) body)]
  | none =>
      let body ← recur first stop { breakTo := exit, continueTo := [continueTo] }
      return out ++ [← allocate condition (.loop (.whileDo condition) body)]

def backEdgeLoop (header backEdge : Nat) (out : List NodeId) : Build (Nat × List NodeId) := do
  let exit := backEdge + 1
  let some source := listing.statements[backEdge]? | return (exit, out)
  let some first := listing.statements[header]? | return (exit, out)
  let store := (← get).store
  if listing.isBranchAt store backEdge then
    let body ← recur header backEdge { breakTo := exit, continueTo := [backEdge, header] }
    return (exit, out ++ [← allocate source (.loop (.doWhile source) body)])
  if listing.isBranchAt store header && listing.targetAt? store header == some exit then
    negate first
    return (exit, ← whileLoop listing recur (header + 1) backEdge first header exit out)
  let body ← recur header backEdge { breakTo := exit, continueTo := [header] }
  return (exit, out ++ [← allocate first (.loop .forever body)])

/-! ## Jumps -/

/-- A branch over a block of its region is an `if`; one that leaves a loop or a switch is an `if` around that exit. -/
def conditional (position stop : Nat) (jumps : Jumps) (out : List NodeId) (branch : NodeId) (target : Nat) :
    Build (Nat × List NodeId) := do
  if position < target && target ≤ stop then
    let (thenEnd, last) :=
      match listing.elseEnd? (← get).store position target stop with
      | some last => (target - 1, last)
      | none => (target, target)
    negate branch
    let onTrue ← recur (position + 1) thenEnd jumps
    let onFalse ← recur target last jumps
    return (last, out ++ [← allocate branch (.ifElse branch onTrue onFalse)])
  match jumps.exit? target with
  | some kind =>
      let exit ← allocate branch kind
      return (position + 1, out ++ [← allocate branch (.ifElse branch [exit] [])])
  | none => return (position + 1, out ++ [branch])

/-- A jump is dropped where control goes on the same way without it, and else becomes an exit if it can. -/
def jump (position stop : Nat) (jumps : Jumps) (out : List NodeId) (statement : NodeId) (target : Nat) :
    Build (List NodeId) := do
  if target = stop ∧ position + 1 = stop then return out
  match jumps.exit? target with
  | some kind =>
      replace statement kind
      return out ++ [statement]
  | none => return out ++ [statement]

/-! ## Switches -/

def armStarts (position stop default : Nat) (cases : List (Int32 × Nat)) : List Nat :=
  let starts := (cases.map (·.2) ++ [default]).filter fun start => position < start && start ≤ stop
  (starts.mergeSort fun one other => one ≤ other).eraseReps

/-- Where a switch ends: where the arms before the last one jump to. Without such jumps a default of its own is the end. -/
def switchEnd (store : Store) (position stop default : Nat) (cases : List (Int32 × Nat)) (last : Nat) : Nat :=
  let exits := (Listing.positions (position + 1) last).filterMap (listing.gotoTarget? store)
  match (exits.filter fun target => last ≤ target && target ≤ stop).min? with
  | some target => target
  | none => if default = last ∧ cases.all (·.2 ≠ last) then last else stop

def arms (default last : Nat) (cases : List (Int32 × Nat)) (jumps : Jumps) : List Nat → Build (List SwitchArm)
  | [] => return []
  | start :: rest => do
      if last ≤ start then return []
      let body ← recur start (rest.head?.elim last (min last)) jumps
      let values := (cases.filter (·.2 = start)).map (·.1)
      return { values, isDefault := default = start, body } :: (← arms default last cases jumps rest)

def switch (position stop : Nat) (jumps : Jumps) (out : List NodeId) (statement key : NodeId) (default : Offset)
    (cases : List (Int32 × Offset)) : Build (Nat × List NodeId) := do
  let default := listing.positionOf default
  let cases := cases.map fun (value, target) => (value, listing.positionOf target)
  let starts := armStarts position stop default cases
  let some lastStart := starts.getLast? | return (position + 1, out ++ [statement])
  let last := switchEnd listing (← get).store position stop default cases lastStart
  let arms ← arms recur default last cases { jumps with breakTo := some last } starts
  replace statement (.switchArms key arms)
  return (last, out ++ [statement])

/-! ## Protected blocks -/

def protectedEnd? (handlers : List Handler) (position stop : Nat) : Option Offset :=
  let starting := handlers.filter fun handler =>
    let last := listing.positionOf handler.stop
    listing.positionOf handler.start == position && position < last && last ≤ stop
  (starting.map Handler.stop).max?

/-- The first of each run of handlers with one entry; further ones are alternatives of it. -/
def firstOfRuns : Option Nat → List (Nat × Handler) → List (Nat × Handler)
  | _, [] => []
  | last, found :: rest =>
      if last = some found.1 then firstOfRuns last rest else found :: firstOfRuns (some found.1) rest

/-- Takes the handlers of the range from `position` to `stop` off the pending ones, in order of their entries. -/
def takeHandlers (position : Nat) (stop : Offset) : Build (List (Nat × Handler)) :=
  modifyGet fun state =>
    let isTaken (handler : Handler) : Bool := handler.stop == stop && listing.positionOf handler.start == position
    let taken := (state.handlers.filter isTaken).map fun handler => (listing.positionOf handler.entry, handler)
    (firstOfRuns none (taken.mergeSort fun one other => one.1 ≤ other.1),
      { state with handlers := state.handlers.filter (!isTaken ·) })

def checkHandlers (bodyEnd stop : Nat) : List (Nat × Handler) → Except StructureError Unit
  | [] => .ok ()
  | (start, handler) :: rest =>
      if start < bodyEnd then .error (.handlerInside handler.entry)
      else if stop ≤ start then .error (.handlerOutside handler.entry)
      else checkHandlers bodyEnd stop rest

/-- The jump at the end of a handler that another one follows. -/
def handlerExit? (store : Store) : List Nat → Option Nat
  | [] => none
  | next :: rest => (listing.gotoTarget? store (next - 1)).or (handlerExit? store rest)

/-- Where a `try` ends: where the block, or else a handler, jumps to past the last handler. -/
def tryEnd (store : Store) (bodyEnd stop first : Nat) (others : List Nat) : Nat :=
  let last := others.getLast?.getD first
  let fromBody := if bodyEnd < first then listing.gotoTarget? store (first - 1) else none
  ((fromBody.or (handlerExit? listing store others)).filter fun after => last < after && after ≤ stop).getD stop

def exceptionSlot (store : Store) (start : Nat) : Slot × Nat :=
  let isException (value : NodeId) : Bool :=
    match store.kind? value with
    | some (.caught _) => true
    | _ => false
  match listing.kindAt? store start with
  | some (.write (.slot _ slot) value) => if isException value then (slot, start + 1) else (listing.maxLocals, start)
  | some (.discard value) => if isException value then (listing.maxLocals, start + 1) else (listing.maxLocals, start)
  | _ => (listing.maxLocals, start)

def rethrows (store : Store) (slot : Slot) (statement : NodeId) : Bool :=
  match store.kind? statement with
  | some (.throw value) => store.isSlot value slot
  | _ => false

/-- The clauses of a `try` and its cleanup, which is the last handler of any exception without its final rethrow. -/
def clauses (after : Nat) (jumps : Jumps) : List (Nat × Handler) → Build (List CatchClause × Option (List NodeId))
  | [] => return ([], none)
  | (start, handler) :: rest => do
      let store := (← get).store
      let stop := listing.withoutJump store start ((rest.head?.map (·.1)).getD after) after
      let (slot, first) := exceptionSlot listing store start
      let body ← recur (min first stop) stop jumps
      if handler.type = 0 then
        let store := (← get).store
        let body := if body.getLast?.any (rethrows store slot) then body.dropLast else body
        let (clauses, cleanup) ← clauses after jumps rest
        return (clauses, cleanup.or (some body))
      let (clauses, cleanup) ← clauses after jumps rest
      return ({ type := handler.type, slot, body } :: clauses, cleanup)

/-- The cleanup is repeated at the end of every path that leaves normally; the repeat is dropped. -/
def withoutCleanup (store : Store) (cleanup body : List NodeId) : List NodeId :=
  let kept := body.length - cleanup.length
  if !cleanup.isEmpty && cleanup.length ≤ body.length &&
      ((body.drop kept).zip cleanup).all fun (x, y) => store.equal x y then body.take kept
  else body

def tryCatch (position : Nat) (protectedStop : Offset) (stop : Nat) (jumps : Jumps) (out : List NodeId)
    (statement : NodeId) : Build (Nat × List NodeId) := do
  let handlers ← takeHandlers listing position protectedStop
  let bodyEnd := listing.positionOf protectedStop
  match checkHandlers bodyEnd stop handlers with
  | .error error => throw error
  | .ok _ => pure ()
  let (firstHandler, _) :: others := handlers | return (position + 1, out ++ [statement])
  let store := (← get).store
  let after := tryEnd listing store bodyEnd stop firstHandler (others.map (·.1))
  let body ← recur position (listing.withoutJump store position firstHandler after) jumps
  let (catches, cleanup) ← clauses listing recur after jumps handlers
  let cleanup := cleanup.getD []
  let store := (← get).store
  let body := withoutCleanup store cleanup body
  let catches := catches.map fun clause => { clause with body := withoutCleanup store cleanup clause.body }
  return (after, out ++ [← allocate statement (.tryCatch body catches cleanup)])

/-! ## Regions -/

def plain (position stop : Nat) (jumps : Jumps) (out : List NodeId) (statement : NodeId) : Build (Nat × List NodeId) := do
  let store := (← get).store
  match store.kind? statement with
  | some (.switch key default cases) => switch listing recur position stop jumps out statement key default cases
  | some (.branch _ target) => conditional listing recur position stop jumps out statement (listing.positionOf target)
  | some (.goto target) =>
      match listing.bottomTest? store position stop with
      | some test =>
          let some condition := listing.statements[test]? | return (test + 1, out)
          return (test + 1, ← whileLoop listing recur (position + 1) test condition test (test + 1) out)
      | none => return (position + 1, ← jump position stop jumps out statement (listing.positionOf target))
  | _ => return (position + 1, out ++ [statement])

/-- Structures the statement at a position with everything it governs. Returns the position to go on from and the statements
so far. The body of a loop must not find the loop again at its header. -/
def statement (position stop : Nat) (jumps : Jumps) (out : List NodeId) : Build (Nat × List NodeId) := do
  let some current := listing.statements[position]? | return (position + 1, out)
  let state ← get
  let backEdge :=
    if jumps.continueTo.contains position then none else listing.backEdge? state.store position stop
  match protectedEnd? listing state.handlers position stop, backEdge with
  | some protectedStop, none => tryCatch listing recur position protectedStop stop jumps out current
  | some protectedStop, some backEdge =>
      if backEdge < listing.positionOf protectedStop then
        tryCatch listing recur position protectedStop stop jumps out current
      else backEdgeLoop listing recur position backEdge out
  | none, some backEdge => backEdgeLoop listing recur position backEdge out
  | none, none => plain listing recur position stop jumps out current

def regionFrom : Nat → Nat → Nat → Jumps → List NodeId → Build (List NodeId)
  | 0, _, _, _, out => return out
  | bound + 1, position, stop, jumps, out => do
      if stop ≤ position then return out
      let recur (first stop : Nat) (jumps : Jumps) := regionFrom bound first stop jumps []
      let (next, out) ← statement listing recur position stop jumps out
      regionFrom bound next stop jumps out

def build (store : Store) (statements : List NodeId) (handlers : List Handler) (maxLocals : Slot) :
    Except StructureError (List NodeId) × Store :=
  let listing := Listing.ofStatements store statements maxLocals
  let (result, state) := regionFrom listing listing.size 0 listing.size {} [] ⟨store, handlers⟩
  (result, state.store)

end Region

end ClassLift
