import ClassLift.Body.Store

/-!
# Comparison of trees

Two trees are equal when they do the same, wherever they stand: offsets, lines and jump targets do not count. A repeated
value is compared through the store it comes from. Jumps without a condition, switches, unfinished conditionals, monitors
and structured statements are never equal, except that within one store a node equals itself.
-/

namespace ClassLift

namespace Kind

def isComparable : Kind → Bool
  | goto _ | switch .. | pendingConditional .. | monitorEnter _ | monitorExit _ => false
  | ifElse .. | loop .. | switchArms .. | tryCatch .. | declare .. | breakOut | continueLoop => false
  | _ => true

/-- A kind without the nodes it names and without a jump target. -/
def label (kind : Kind) : Kind :=
  match kind.mapLinks fun _ => 0 with
  | branch test _ => branch test 0
  | kind => kind

end Kind

namespace Store

/-- Compares node `x` of one store with node `y` of another. With `identify` the two stores are one and equal numbers mean
the same node. There is no answer where repeated values lead back to themselves. -/
def compare? (left right : Store) (identify : Bool) (x y : NodeId) : Option Bool :=
  if identify && x == y then some true
  else
    match left.kind? x, right.kind? y with
    | some one, some other =>
        if one.isComparable && one.label == other.label then
          (one.links.zip other.links).allM fun pair => left |>.compare? right identify pair.1 pair.2
        else some false
    | _, _ => some false
partial_fixpoint

def equal (store : Store) (x y : NodeId) : Bool := store.compare? store true x y == some true

def equalAcross (left : Store) (x : NodeId) (right : Store) (y : NodeId) : Bool := left.compare? right false x y == some true

end Store

end ClassLift
