import ClassLift.Proofs.Action
import ClassLift.Proofs.Structure.Listing

namespace ClassLift

namespace Region

variable {listing : Listing} {recur : Recur} {position stop : Nat}

theorem statement_eq_switch {state : State} {jumps : Jumps} {out : List NodeId} {current key : NodeId} {default : Offset}
    {cases : List (Int32 × Offset)} (located : listing.statements[position]? = some current)
    (found : state.store.kind? current = some (.switch key default cases))
    (unprotected : protectedEnd? listing state.handlers position stop = none)
    (straight : listing.backEdge? state.store position stop = none) :
    statement listing recur position stop jumps out state =
      switch listing recur position stop jumps out current key default cases state := by
  unfold statement plain
  simp only [located, run_get_bind, unprotected, straight, ite_self, found]

theorem build_eq_of_region {store : Store} {statements : List NodeId} {handlers : List Handler} {maxLocals : Slot}
    {result : Except StructureError (List NodeId)} {last : State}
    (built : regionFrom (.ofStatements store statements maxLocals) statements.length 0 statements.length {} [] ⟨store, handlers⟩ =
      (result, last)) : build store statements handlers maxLocals = (result, last.store) := by
  have size : (Listing.ofStatements store statements maxLocals).size = statements.length := by
    simp [Listing.ofStatements, Listing.size]
  simp only [build, size, built]

def Advances (position stop : Nat) (result : Nat × List NodeId) : Prop := position < result.1 ∧ result.1 ≤ stop

theorem backEdgeLoop_advances {header backEdge : Nat} (out : List NodeId) (ordered : header ≤ backEdge)
    (below : backEdge < stop) : Yields (Advances header stop) (backEdgeLoop listing recur header backEdge out) := by
  have exits (result : List NodeId) : Advances header stop (backEdge + 1, result) := ⟨by simp; omega, below⟩
  unfold backEdgeLoop
  split
  · split
    · refine yields_bind fun state => ?_
      simp only
      split
      · exact yields_bind fun body => yields_bind fun _ => yields_pure (exits _)
      · split
        · exact yields_bind fun _ => yields_bind fun _ => yields_pure (exits _)
        · exact yields_bind fun body => yields_bind fun _ => yields_pure (exits _)
    · exact yields_pure (exits _)
  · exact yields_pure (exits _)

theorem conditional_advances {target : Nat} (jumps : Jumps) (out : List NodeId) (branch : NodeId) (inside : position < stop) :
    Yields (Advances position stop) (conditional listing recur position stop jumps out branch target) := by
  unfold conditional
  split
  next ahead =>
    simp only [Bool.and_eq_true, decide_eq_true_eq] at ahead
    refine yields_bind fun state => ?_
    cases found : listing.elseEnd? state.store position target stop with
    | none => exact yields_bind fun _ => yields_bind fun _ => yields_bind fun _ => yields_bind fun _ => yields_pure ahead
    | some last =>
      have bounds := Listing.elseEnd?_eq_some found
      have advances (result : List NodeId) : Advances position stop (last, result) := ⟨by simp; omega, bounds.2.2.2⟩
      exact yields_bind fun _ => yields_bind fun _ => yields_bind fun _ => yields_bind fun _ => yields_pure (advances _)
  next =>
    have advances (result : List NodeId) : Advances position stop (position + 1, result) := ⟨Nat.lt_succ_self _, inside⟩
    split
    · exact yields_bind fun _ => yields_bind fun _ => yields_pure (advances _)
    · exact yields_pure (advances _)

theorem switch_advances (jumps : Jumps) (out : List NodeId) (statement key : NodeId) (default : Offset)
    (cases : List (Int32 × Offset)) (inside : position < stop) :
    Yields (Advances position stop) (switch listing recur position stop jumps out statement key default cases) := by
  unfold switch
  simp only
  split
  next lastStart isLast =>
    have bounds := (mem_armStarts.mp (List.mem_of_getLast? isLast)).2
    refine yields_bind fun state => yields_bind fun _ => yields_bind fun _ => yields_pure ?_
    have ends (casesAt : List (Int32 × Nat)) :=
      switchEnd_bounds listing state.store position (listing.positionOf default) casesAt bounds.2
    exact ⟨Nat.lt_of_lt_of_le bounds.1 (ends _).1, (ends _).2⟩
  next => exact yields_pure ⟨Nat.lt_succ_self _, inside⟩

theorem tryCatch_advances {protectedStop : Offset} (jumps : Jumps) (out : List NodeId) (statement : NodeId)
    (inside : position < stop) (nonempty : position < listing.positionOf protectedStop) :
    Yields (Advances position stop) (tryCatch listing recur position protectedStop stop jumps out statement) := by
  unfold tryCatch
  refine yields_bind fun handlers => ?_
  simp only
  split
  next => exact yields_throw_bind _
  next checked =>
    split
    next firstHandler first others =>
      refine yields_bind fun state => yields_bind fun _ => yields_bind fun _ => yields_bind fun _ => yields_bind fun _ => ?_
      have lastInside := lastHandler_bounds (checkHandlers_ok checked)
      have ends := tryEnd_bounds listing state.store (listing.positionOf protectedStop) lastInside.2
      exact yields_pure ⟨by simp only; omega, ends.2⟩
    next => exact yields_pure ⟨Nat.lt_succ_self _, inside⟩

theorem plain_advances (jumps : Jumps) (out : List NodeId) (statement : NodeId) (inside : position < stop) :
    Yields (Advances position stop) (plain listing recur position stop jumps out statement) := by
  have advances (result : List NodeId) : Advances position stop (position + 1, result) := ⟨Nat.lt_succ_self _, inside⟩
  unfold plain
  refine yields_bind fun state => ?_
  simp only
  split
  next => exact switch_advances _ _ _ _ _ _ inside
  next => exact conditional_advances _ _ _ inside
  next =>
    split
    next test bottom =>
      have bounds := Listing.bottomTest?_eq_some bottom
      have behind (result : List NodeId) : Advances position stop (test + 1, result) := ⟨by simp; omega, bounds.2.2.1⟩
      split
      · exact yields_bind fun _ => yields_pure (behind _)
      · exact yields_pure (behind _)
    next => exact yields_bind fun _ => yields_pure (advances _)
  next => exact yields_pure (advances _)

theorem statement_advances (jumps : Jumps) (out : List NodeId) (inside : position < stop) :
    Yields (Advances position stop) (statement listing recur position stop jumps out) := by
  unfold statement
  split
  next current located =>
    refine yields_bind fun state => ?_
    simp only
    split
    next isProtected _ => exact tryCatch_advances _ _ _ inside (protectedEnd?_eq_some isProtected).1
    next isProtected found =>
      split
      · exact tryCatch_advances _ _ _ inside (protectedEnd?_eq_some isProtected).1
      · obtain ⟨ordered, sourceInside, _⟩ := Listing.backEdge?_of_ite found
        exact backEdgeLoop_advances _ ordered sourceInside
    next found =>
      obtain ⟨ordered, sourceInside, _⟩ := Listing.backEdge?_of_ite found
      exact backEdgeLoop_advances _ ordered sourceInside
    next => exact plain_advances _ _ _ inside
  next => exact yields_pure ⟨Nat.lt_succ_self _, inside⟩

end Region

end ClassLift
