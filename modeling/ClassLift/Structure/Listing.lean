import ClassLift.Class.Basic
import ClassLift.Diagnostic

/-!
# Statement lists and positions

Statement `k` of a list covers the bytecode from its start up to the start of statement `k + 1`, so that every offset belongs
to a position. The list is structured region by region, a region being a half-open range of positions.
-/

namespace ClassLift

/-- A flat statement list with the offset at which each statement starts. -/
structure Listing where
  statements : Array NodeId
  starts : List Offset
  /-- A slot that no local variable uses, for handlers that drop the exception. -/
  maxLocals : Slot
  deriving DecidableEq, Inhabited

namespace Listing

def ofStatements (store : Store) (statements : List NodeId) (maxLocals : Slot) : Listing :=
  ⟨statements.toArray, statements.map store.startOffset, maxLocals⟩

def size (listing : Listing) : Nat := listing.statements.size

/-- Halves the range of `size` places from `base` on until one is left. -/
def narrow (inFront : Nat → Bool) (base size : Nat) : Nat :=
  if size ≤ 1 then base
  else
    let half := size / 2
    narrow inFront (if inFront (base + half) then base + half else base) (size - half)
termination_by size

/-- The number of places in front, when these are the first ones. -/
def partitionPoint (inFront : Nat → Bool) (size : Nat) : Nat :=
  if size = 0 then 0
  else
    let last := narrow inFront 0 size
    if inFront last then last + 1 else last

/-- The first position that starts at or after an offset, if the statements are in the order of their starts. -/
def positionOf (listing : Listing) (offset : Offset) : Nat :=
  partitionPoint (fun position => listing.starts[position]?.any (· < offset)) listing.starts.length

def kindAt? (listing : Listing) (store : Store) (position : Nat) : Option Kind :=
  listing.statements[position]?.bind store.kind?

def targetAt? (listing : Listing) (store : Store) (position : Nat) : Option Nat :=
  ((listing.kindAt? store position).bind Kind.target?).map listing.positionOf

def isBranchAt (listing : Listing) (store : Store) (position : Nat) : Bool :=
  (listing.kindAt? store position).any Kind.isBranch

def isGotoAt (listing : Listing) (store : Store) (position : Nat) : Bool :=
  (listing.kindAt? store position).any Kind.isGoto

def gotoTarget? (listing : Listing) (store : Store) (position : Nat) : Option Nat :=
  if listing.isGotoAt store position then listing.targetAt? store position else none

def positions (first stop : Nat) : List Nat := List.range' first (stop - first)

def backEdge? (listing : Listing) (store : Store) (header stop : Nat) : Option Nat :=
  (positions header stop).reverse.find? fun source => listing.targetAt? store source == some header

/-- A jump to a test at the end of a loop body that leads back to the statement after the jump. -/
def bottomTest? (listing : Listing) (store : Store) (position stop : Nat) : Option Nat :=
  (listing.targetAt? store position).filter fun test =>
    position < test && test < stop && listing.isBranchAt store test &&
      listing.targetAt? store test == some (position + 1)

/-- The end of an `else` block, when the block before it, which ends at `target`, jumps over it. -/
def elseEnd? (listing : Listing) (store : Store) (position target stop : Nat) : Option Nat :=
  if position + 1 < target then
    (listing.gotoTarget? store (target - 1)).filter fun last => target < last && last ≤ stop
  else none

def withoutJump (listing : Listing) (store : Store) (first stop after : Nat) : Nat :=
  if first + 1 < stop && listing.gotoTarget? store (stop - 1) == some after then stop - 1 else stop

end Listing

/-- Where `break` and `continue` lead from inside the innermost loop or switch. -/
structure Jumps where
  breakTo : Option Nat := none
  continueTo : List Nat := []
  deriving DecidableEq, Inhabited

namespace Jumps

def exit? (jumps : Jumps) (target : Nat) : Option Kind :=
  if jumps.breakTo = some target then some .breakOut
  else if jumps.continueTo.contains target then some .continueLoop
  else none

end Jumps

def Store.updatedSlot? (store : Store) : Kind → Option Slot
  | .bump slot _ | .write (.slot _ slot) _ => some slot
  | .increment _ target _ | .assign _ target _ =>
      match store.kind? target with
      | some (.read (.slot _ slot)) => some slot
      | _ => none
  | _ => none

end ClassLift
