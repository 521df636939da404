import ClassLift.Proofs.Body.Position
import ClassLift.Proofs.Idiom.Fold

namespace ClassLift

variable {store changed : Store} {spot : Spot}

/-! ## Values that are moved or copied -/

namespace Store

theorem inlineHeld_grows (store : Store) (cursor : Cursor) (load source : NodeId) :
    store.Grows (store.inlineHeld cursor load source).1 := by
  unfold inlineHeld
  split
  · split
    · split
      · exact .replace store load _
      · exact .refl store
    · exact .refl store
  · exact .refl store

theorem inlineHeldBelow_grows (store : Store) (cursor : Cursor) (root : NodeId) :
    store.Grows (store.inlineHeldBelow cursor root).1 := by
  refine List.foldlRecOn (motive := fun state : Store × Cursor => store.Grows state.1) _ _ (.refl store) ?_
  exact fun state grows found _ => grows.trans (inlineHeld_grows state.1 state.2 found.1 found.2)

theorem duplicateWithin_grows {depth : Nat} {id copy : NodeId} (copied : store.duplicateWithin depth id = some (copy, changed)) :
    store.Grows changed := by
  have allocated {id copy : NodeId} {store changed : Store} {kind : Kind} (made : store.allocate id kind = (copy, changed)) :
      store.Grows changed := by
    have grows := Grows.allocate store id kind
    rwa [made] at grows
  induction depth generalizing id copy changed with
  | zero => cases copied
  | succ depth continues =>
    unfold duplicateWithin at copied
    split at copied
    case h_1 field object found =>
      obtain ⟨⟨inner, middle⟩, first, made⟩ := Option.map_eq_some_iff.mp copied
      exact (continues first).trans (allocated made)
    case h_7 => cases copied
    all_goals exact allocated (Option.some_inj.mp copied)

end Store

/-! ## Folds -/

namespace OuterInstance

theorem inlineSetter_grows (home : ClassId) (store : Store) (statement : NodeId) :
    Yields store.Grows (inlineSetter home store statement) := by
  unfold inlineSetter
  split
  · split
    · refine yields_bind fun table => yields_bind fun pool => yields_bind fun found => ?_
      split
      · split
        · exact yields_bind fun _ => yields_pure (.replace store statement _)
        · exact yields_bind fun _ => yields_pure (.replace store statement _)
        · exact yields_pure (.refl store)
      · exact yields_pure (.refl store)
    · exact yields_pure (.refl store)
  · exact yields_pure (.refl store)

theorem inlineCall_grows (home owner : ClassId) (store : Store) (id : NodeId) (arguments : List NodeId) (accessor : Accessor) :
    Yields store.Grows (inlineCall home owner store id arguments accessor) := by
  have replaced {action : OnTable PoolIndex} (kind : PoolIndex → Kind) :
      Yields store.Grows (do return store.replace id (kind (← action))) :=
    yields_bind fun _ => yields_pure (.replace store id _)
  have assigned {action : OnTable PoolIndex} (kind : PoolIndex → Kind) (value : NodeId) :
      Yields store.Grows (action >>= fun index => pure
        ((store.allocate id (kind index)).2.replace id (.assign .plain (store.allocate id (kind index)).1 value))) :=
    yields_bind fun _ => yields_pure ((Store.Grows.allocate store id _).trans (.replace _ id _))
  unfold inlineCall
  split
  · split
    · exact yields_pure (.refl store)
    · exact replaced _
  · split
    · exact replaced _
    · exact yields_pure (.refl store)
  · split
    · exact assigned _ _
    · exact yields_pure (.refl store)
  · split
    · exact assigned _ _
    · exact yields_pure (.refl store)
  · exact replaced _
  · split
    · exact replaced _
    · exact yields_pure (.refl store)

theorem foldNode_grows (home : ClassId) (store : Store) (id : NodeId) : Yields store.Grows (foldNode home store id) := by
  unfold foldNode
  split
  · refine yields_bind fun table => yields_bind fun pool => yields_bind fun found => ?_
    split
    · exact inlineCall_grows home _ store id _ _
    · exact yields_pure (.refl store)
  · split
    · refine yields_bind fun table => yields_bind fun pool => yields_bind fun found => ?_
      split
      · exact yields_bind fun _ => yields_pure (.replace store id _)
      · exact yields_pure (.refl store)
    · exact yields_pure (.refl store)
  · exact yields_pure (.refl store)

end OuterInstance

namespace Construction

theorem place_grows (store : Store) (spot : Spot) (value : NodeId) (construction : Kind) (rest : List NodeId) :
    store.Grows (place store spot value construction rest).1 := by
  unfold place
  split
  · exact .replace store _ _
  · exact .replace store _ _
  · exact .replace store _ _

theorem step_grows {pool : Pool} {cursor : Cursor} (ran : step pool store spot = .ok (changed, cursor)) :
    store.Grows changed := by
  unfold step at ran
  split at ran
  · split at ran
    · cases ran
      exact .refl store
    · split at ran
      · obtain ⟨found, _, ran⟩ := except_bind_ok.mp ran
        split at ran
        · obtain rfl : (place store spot _ _ _).1 = changed := congrArg Prod.fst (Except.ok.inj ran)
          exact place_grows store spot _ _ _
        · cases ran
          exact .refl store
      · cases ran
        exact .refl store
  · obtain ⟨found, _, ran⟩ := except_bind_ok.mp ran
    split at ran
    · cases ran
      exact .replace store _ _
    · cases ran
      exact .refl store

end Construction

namespace Increment

theorem foldHeld_grows (store : Store) (spot : Spot) (value : NodeId) : store.Grows (foldHeld store spot value).1 := by
  have folded (id target : NodeId) (kind : Kind) (cursor : Cursor) :
      store.Grows ((store.replace id kind).inlineHeldBelow cursor target).1 :=
    (Store.Grows.replace store id kind).trans (Store.inlineHeldBelow_grows _ cursor target)
  unfold foldHeld
  split
  · exact .refl store
  · split
    · exact .refl store
    · split
      · exact folded _ _ _ _
      · exact folded _ _ _ _
      · exact .refl store

theorem foldBump_grows (targets : List Offset) (store : Store) (spot : Spot) (bump : Node) (slot : Slot) (delta : Int32) :
    store.Grows (foldBump targets store spot bump slot delta).1 := by
  unfold foldBump
  split
  · exact .refl store
  · dsimp only
    split
    · exact .refl store
    · split
      · exact .refl store
      · split
        · exact .refl store
        · split
          · exact .refl store
          · exact (Store.Grows.allocate store _ _).trans (.replace _ _ _)

theorem step_grows (targets : List Offset) (store : Store) (spot : Spot) : store.Grows (step targets store spot).1 := by
  unfold step
  split
  · split
    · exact foldHeld_grows store spot _
    · split
      · exact foldBump_grows targets store spot _ _ _
      · exact .refl store
    · exact .refl store
  · exact .refl store

end Increment

namespace ClassLiteral

theorem arrayLiteral_grows (home : ClassId) (store : Store) (origin : NodeId) (element : List Char) :
    Yields (fun result => store.Grows result.2) (arrayLiteral home store origin element) := by
  have length := Store.Grows.allocate store origin (.literal (.int 0))
  unfold arrayLiteral
  generalize store.allocate origin (.literal (.int 0)) = allocated at length
  split
  extract_lets -underBinder finished
  have rest (array : Kind) : Yields (fun result => store.Grows result.2) (finished array) :=
    yields_bind fun _ => yields_pure (length.trans (.allocate _ origin _))
  split
  · exact yields_bind rest
  · exact yields_bind fun _ => yields_bind rest

theorem literal_grows (home : ClassId) (store : Store) (origin : NodeId) (name : String) :
    Yields (fun result => store.Grows result.2) (literal home store origin name) := by
  unfold literal
  split
  · exact arrayLiteral_grows home store origin _
  · exact yields_bind fun _ => yields_pure (.refl store)

theorem foldCached_grows (home : ClassId) (store : Store) (spot : Spot) :
    Yields (fun result => store.Grows result.1) (foldCached home store spot) := by
  have kept : Yields (fun result => store.Grows result.1) (pure (store, spot.keep) : OnTable (Store × Cursor)) :=
    yields_pure (.refl store)
  unfold foldCached
  split
  · split
    · split
      · refine yields_bind fun pool => yields_bind fun named => ?_
        split
        · split
          · exact kept
          · split
            · split
              · exact kept
              · split
                · refine (literal_grows home store _ _).bind fun literal grows => ?_
                  exact yields_bind fun _ => yields_bind fun _ => yields_pure (grows.trans (.replace _ _ _))
                · exact fun _ _ _ ran => (throw_ok.mp ran).elim
            · exact kept
        · exact kept
      · exact kept
    · exact kept
  · exact kept

theorem foldCall_grows (home : ClassId) (store : Store) (id : NodeId) : Yields store.Grows (foldCall home store id) := by
  unfold foldCall
  split
  · refine yields_bind fun pool => yields_bind fun named => ?_
    split
    · refine (literal_grows home store id _).bind fun literal grows => ?_
      exact yields_bind fun _ => yields_pure (grows.trans (.replace _ id _))
    · exact yields_pure (.refl store)
  · exact yields_pure (.refl store)

end ClassLiteral

namespace Concatenation

theorem sum_keeps_positions {origin first : NodeId} {rest : List NodeId} {kind : Kind}
    (summed : sum store origin first rest = some (kind, changed)) : store.Grows changed := by
  induction rest generalizing store first with
  | nil =>
    obtain ⟨_, _, same⟩ := Option.map_eq_some_iff.mp summed
    cases same
    exact .refl _
  | cons next rest continues =>
    cases rest with
    | nil =>
      cases summed
      exact .refl _
    | cons other rest => exact (Store.Grows.allocate _ origin _).trans (continues summed)

theorem foldNode_grows (home : ClassId) (store : Store) (id : NodeId) : Yields store.Grows (foldNode home store id) := by
  unfold foldNode
  split
  · refine yields_bind fun pool => yields_bind fun found => ?_
    split
    · extract_lets -underBinder nodes finished
      have rest (operands : List NodeId × Store) (grows : store.Grows operands.2) : Yields store.Grows (finished operands) := by
        unfold finished
        split
        split
        · split
          · rename_i summed
            exact yields_pure ((grows.trans (sum_keeps_positions summed)).trans (.replace _ id _))
          · exact yields_pure grows
        · exact yields_pure grows
      split
      · refine yields_bind fun empty => Yields.bind (yields_pure (.allocate store id _)) rest
      · exact Yields.bind (yields_pure (.refl store)) rest
    · exact yields_pure (.refl store)
  · exact yields_pure (.refl store)

end Concatenation

namespace Assignment

theorem separateRead_grows (store : Store) (place : Place) : store.Grows (separateRead store place).2 := by
  unfold separateRead
  split
  · split
    · exact .refl store
    · exact Store.duplicateWithin_grows ‹_›
  · split
    · exact .refl store
    · split
      · exact Store.duplicateWithin_grows ‹_›
      · exact (Store.duplicateWithin_grows ‹_›).trans (Store.duplicateWithin_grows ‹_›)
  · exact .refl store

theorem fold_grows (store : Store) (spot : Spot) (value : NodeId) : store.Grows (fold store spot value).1 := by
  unfold fold
  split
  · exact .refl store
  · split
    · exact .refl store
    · split
      · exact (Store.Grows.allocate store _ _).trans (.replace _ _ _)
      · rename_i place _ _ _ _
        have grows := separateRead_grows store place
        split
        case h_1 separated =>
          rw [separated] at grows
          exact grows
        case h_2 separated =>
          rw [separated] at grows
          exact (grows.trans (.replace _ _ _)).trans (.replace _ _ _)

theorem step_grows (store : Store) (spot : Spot) : store.Grows (step store spot).1 := by
  unfold step
  split
  · exact fold_grows store spot _
  · exact .refl store

end Assignment

theorem ArrayLiteral.step_grows (store : Store) (spot : Spot) : store.Grows (step store spot).1 := by
  unfold step
  split
  · split
    · exact .replace store _ _
    · exact .refl store
  · exact .refl store

namespace CompoundAssignment

theorem step_grows (store : Store) (spot : Spot) : store.Grows (step store spot).1 := by
  unfold step
  split
  · split
    · split
      · exact (Store.Grows.replace store _ _).trans (Store.inlineHeldBelow_grows _ _ _)
      · exact .refl store
    · exact .refl store
  · exact .refl store

theorem foldNode_grows (store : Store) (id : NodeId) : store.Grows (foldNode store id) := by
  unfold foldNode
  split
  · split
    · split
      · exact .replace store id _
      · exact .refl store
    · exact .refl store
  · exact .refl store

end CompoundAssignment

theorem Conditional.step_grows {cursor : Cursor} (ran : step store spot = .ok (changed, cursor)) : store.Grows changed := by
  have folded (branch ifTrue ifFalse : NodeId) (kind : Kind) : store.Grows (fold store branch ifTrue ifFalse kind) :=
    ((Store.Grows.allocate store _ _).trans (.negate _ _)).trans (.replace _ _ _)
  unfold step at ran
  repeat' split at ran
  all_goals cases ran
  all_goals first | exact .refl store | exact folded _ _ _ _

namespace Draft

variable {before after : Draft}

theorem Fold.grows (fold : Fold before after) : before.store.Grows after.store := by
  cases fold with
  | outerStore file method =>
    unfold OuterInstance.dropOuterStore
    split
    · split
      · exact .refl _
      · exact .refl _
    · exact .refl _
  | setter statements ran => exact OuterInstance.inlineSetter_grows _ _ _ _ _ _ ran
  | outerInstance statements ran => exact OuterInstance.foldNode_grows _ _ _ _ _ _ ran
  | construction ran => exact Construction.step_grows ran
  | increment targets store spot => exact Increment.step_grows targets store spot
  | cachedLiteral ran => exact ClassLiteral.foldCached_grows _ _ _ _ _ _ ran
  | classLiteral statements ran => exact ClassLiteral.foldCall_grows _ _ _ _ _ _ ran
  | concatenation statements ran => exact Concatenation.foldNode_grows _ _ _ _ _ _ ran
  | assignment store spot => exact Assignment.step_grows store spot
  | arrayLiteral store spot => exact ArrayLiteral.step_grows store spot
  | compoundAssignment store spot => exact CompoundAssignment.step_grows store spot
  | compoundValue store statements id => exact CompoundAssignment.foldNode_grows store id
  | conditional ran => exact Conditional.step_grows ran

theorem Folds.grows (folds : Folds before after) : before.store.Grows after.store := by
  induction folds with
  | refl => exact .refl _
  | tail _ fold grows => exact grows.trans fold.grows

end Draft

theorem Code.recover_grows {home : ClassId} {method : Nat} {code : Code} {draft : Draft} {table last : ClassTable}
    (ran : code.recover home method table = (.ok draft, last)) : code.store.Grows draft.store :=
  (Code.recover_folds ran).grows

/-! ## Methods of a class -/

namespace ClassTable

variable {lifts : Prop} {table after : ClassTable} {home : ClassId} {index : Nat} {warnings : List Warning}

theorem setCode_develops {method : Method} {code made : Code} (given : table.method? home index = some method)
    (unflagged : method.flagged = false) (body : method.code = some code) (develops : code.Develops True made) :
    table.Develops lifts True (· = home) (table.setCode home index made) := by
  refine .modify fun file found => .modifyMethod index fun other located => ?_
  have here : table.method? home index = some other := Option.bind_eq_some_iff.mpr ⟨file, found, located⟩
  cases given.symm.trans here
  exact .setCode trivial unflagged body develops

theorem flag_develops (table : ClassTable) (home : ClassId) (index : Nat) (error : MethodError) :
    table.Develops lifts True (· = home) (table.flag home index error).1 := by
  unfold flag
  cases found : table.get? home with
  | none => exact .refl table
  | some file => exact .set found (ClassLift.flag_develops file index error)

theorem recoverMethod_develops (ran : table.recoverMethod home index = .ok (after, warnings)) :
    table.Develops lifts True (· = home) after := by
  rcases recoverMethod_cases ran with ⟨rfl, _⟩ | ⟨method, code, middle, given, unflagged, body, annotates, made⟩
  · exact .refl after
  · obtain ⟨between, here, marked⟩ := annotates.method? given
    have annotated : table.Develops lifts True (· = home) middle := .of_annotates annotates
    have changed {made : Code} (develops : code.Develops True made) :
        table.Develops lifts True (· = home) (middle.setCode home index made) :=
      annotated.trans (setCode_develops here (marked.flagged.trans unflagged) (marked.code.trans body) develops)
    rcases made with ⟨draft, recovered, rfl⟩ | ⟨error, _, rfl⟩
    · exact changed ⟨rfl, rfl, rfl, Code.recover_grows recovered, .inl trivial⟩
    · -- The body goes back to its instructions, but the table that recovery left is kept.
      have reset : code.Develops True { code with statements := code.instructions } := ⟨rfl, rfl, rfl, .refl _, .inl trivial⟩
      exact (changed reset).trans (flag_develops _ home index error)

theorem recover_develops (ran : table.recover home = .ok (after, warnings)) : table.Develops lifts True (· = home) after :=
  recoverMethods_related recoverMethod_develops ran

end ClassTable

end ClassLift
