import ClassLift.Proofs.Structure.Construction
import ClassLift.Proofs.Structure.Invariant

/-!
# Structuring stops at no fault

The checked form of structuring does what structuring does: every position and every node that it looks at is there, no
difference falls below zero, and every region comes to its end within as many steps as it has positions. One lemma for each
step says so from every sound state; `regionFrom_agrees` is the induction over the steps of a region.
-/

namespace ClassLift

open Region (State)

namespace Checked

/-! ## Handlers -/

/-- The errors of structuring: a handler of the table starts inside its own block, or behind it but not in the region. -/
inductive Blames (listing : Listing) (handlers : List Handler) : StructureError → Prop
  | inside (handler : Handler) (given : handler ∈ handlers)
      (early : listing.positionOf handler.entry < listing.positionOf handler.stop) :
      Blames listing handlers (.handlerInside handler.entry)
  | outside (handler : Handler) (given : handler ∈ handlers)
      (late : listing.positionOf handler.stop ≤ listing.positionOf handler.entry) :
      Blames listing handlers (.handlerOutside handler.entry)

structure Produces (deep : Bool) (listing : Listing) (base before : State) (position : Nat) (made : List NodeId) (after : State) :
    Prop where
  sound : Sound deep listing base position after
  size_le : before.store.size ≤ after.store.size
  holds : after.store.Holds made

def Follows (deep : Bool) (listing : Listing) (base : State) (bound : Nat) (checked : Recur) (plain : Region.Recur) : Prop :=
  ∀ first stop jumps state, first ≤ stop → stop ≤ listing.size → stop - first ≤ bound → Sound deep listing base first state →
    Agrees (Blames listing base.handlers) (checked first stop jumps) (plain first stop jumps) state
      (Produces deep listing base state stop)

section Steps

variable {deep : Bool} {listing : Listing} {base state : State} {position place first stop : Nat} {id origin : NodeId} {kind : Kind}
  {blames : StructureError → Prop}

namespace Produces

variable {middle last : State} {later : Nat} {made early late fewer : List NodeId}

theorem trans (before : Produces deep listing base state position early middle)
    (after : Produces deep listing base middle later late last) : Produces deep listing base state later (early ++ late) last :=
  ⟨after.sound, Nat.le_trans before.size_le after.size_le, (before.holds.mono after.size_le).append after.holds⟩

theorem advance (produces : Produces deep listing base state position made last) (le : position ≤ later) :
    Produces deep listing base state later made last :=
  ⟨produces.sound.advance le, produces.size_le, produces.holds⟩

end Produces

theorem Sound.produces (sound : Sound deep listing base position state) {out : List NodeId} (known : state.store.Holds out) :
    Produces deep listing base state position out state :=
  ⟨sound, Nat.le_refl _, known⟩

section Recursion

variable {α : Type} {bound : Nat} {recur : Recur} {plainRecur : Region.Recur} {jumps : Jumps} {out : List NodeId}
  (follows : Follows deep listing base bound recur plainRecur)

include follows

/-! ## Loops -/

end Recursion

end Steps

/-! ## Whole lists -/

variable {deep : Bool} {store : Store} {statements : List NodeId} {maxLocals : Slot}

end Checked

namespace Region

end Region

end ClassLift
