import ClassLift.Proofs.Survey.Evolution

namespace ClassLift

/-! ## Sweeps and pools -/

theorem Draft.sweepWithin_preserves {ε σ : Type} {related : σ → σ → Prop} [Std.Refl related] [IsTrans σ related]
    {step : Store → Spot → ExceptT ε (StateM σ) (Store × Cursor)} (steps : ∀ store spot, Preserves related (step store spot))
    (bound : Nat) (store : Store) (cursor : Cursor) : Preserves related (sweepWithin step bound store cursor) := by
  induction bound generalizing store cursor with
  | zero => exact preserves_pure _
  | succ bound continues =>
    obtain ⟨pending, after⟩ := cursor
    cases pending with
    | nil => exact preserves_pure _
    | cons current before =>
      rw [sweepWithin]
      exact preserves_bind (steps store ⟨before, current, after⟩) fun _ => continues _ _

namespace OnTable

theorem interning_annotates (home : ClassId) {α : Type} {action : Interning α} (grows : Preserves Pool.Extends action) :
    Preserves (ClassTable.Annotates home) (interning home action) := by
  intro table
  refine .grow fun file found => ?_
  rw [found]
  exact .grow (grows file.pool)

theorem pool_annotates (home : ClassId) : Preserves (ClassTable.Annotates home) (pool home) :=
  preserves_of_unchanged fun _ => rfl

end OnTable

/-! ## Class literals -/

namespace ClassLiteral

theorem arrayLiteral_annotates (home : ClassId) (store : Store) (origin : NodeId) (element : List Char) :
    Preserves (ClassTable.Annotates home) (arrayLiteral home store origin element) := by
  unfold arrayLiteral
  split
  extract_lets -underBinder finished
  have rest (array : Kind) : Preserves (ClassTable.Annotates home) (finished array) :=
    preserves_bind (OnTable.interning_annotates home (Pool.internMethod_extends _ _ _)) fun _ => preserves_pure _
  split
  · exact preserves_bind (preserves_pure _) rest
  · exact preserves_bind (OnTable.interning_annotates home (Pool.internClass_extends _)) fun _ =>
      preserves_bind (preserves_pure _) rest

theorem literal_annotates (home : ClassId) (store : Store) (origin : NodeId) (name : String) :
    Preserves (ClassTable.Annotates home) (literal home store origin name) := by
  unfold literal
  split
  · exact arrayLiteral_annotates home store origin _
  · exact preserves_bind (OnTable.interning_annotates home (Pool.internClass_extends _)) fun _ => preserves_pure _

theorem markField_annotates (home : ClassId) (index : PoolIndex) :
    Preserves (ClassTable.Annotates home) (markField home index) := by
  unfold markField
  refine preserves_bind (OnTable.pool_annotates home) fun pool => preserves_bind (preserves_of_unchanged fun _ => rfl) fun found => ?_
  refine .get_bind fun table => ?_
  split
  · refine preserves_modify fun table => .mark fun file => ?_
    cases file.findField? found.name found.descriptor with
    | none => exact .refl file
    | some position => exact ⟨.markField position, rfl⟩
  · exact preserves_pure _

theorem markMethod_annotates (home : ClassId) (index : PoolIndex) :
    Preserves (ClassTable.Annotates home) (markMethod home index) := by
  unfold markMethod
  refine preserves_bind (OnTable.pool_annotates home) fun pool => preserves_bind (preserves_of_unchanged fun _ => rfl) fun found => ?_
  refine .get_bind fun table => ?_
  split
  · refine preserves_modify fun table => .mark fun file => ?_
    cases file.findMethod? found.name found.descriptor with
    | none => exact .refl file
    | some position => exact ⟨.markMethod position, rfl⟩
  · exact preserves_pure _

theorem foldCached_annotates (home : ClassId) (store : Store) (spot : Spot) :
    Preserves (ClassTable.Annotates home) (foldCached home store spot) := by
  unfold foldCached
  split
  · split
    · split
      · refine preserves_bind (OnTable.pool_annotates home) fun pool =>
          preserves_bind (preserves_of_unchanged fun _ => rfl) fun named => ?_
        split
        · split
          · exact preserves_pure _
          · split
            · split
              · exact preserves_pure _
              · split
                · refine preserves_bind (literal_annotates home store _ _) fun (kind, store) => ?_
                  exact preserves_bind (markField_annotates home _) fun _ =>
                    preserves_bind (markMethod_annotates home _) fun _ => preserves_pure _
                · exact preserves_throw _
            · exact preserves_pure _
        · exact preserves_pure _
      · exact preserves_pure _
    · exact preserves_pure _
  · exact preserves_pure _

theorem foldCall_annotates (home : ClassId) (store : Store) (id : NodeId) :
    Preserves (ClassTable.Annotates home) (foldCall home store id) := by
  unfold foldCall
  split
  · refine preserves_bind (OnTable.pool_annotates home) fun pool =>
      preserves_bind (preserves_of_unchanged fun _ => rfl) fun named => ?_
    split
    · exact preserves_bind (literal_annotates home store id _) fun _ =>
        preserves_bind (markMethod_annotates home _) fun _ => preserves_pure _
    · exact preserves_pure _
  · exact preserves_pure _

theorem recover_annotates (home : ClassId) (draft : Draft) : Preserves (ClassTable.Annotates home) (recover home draft) :=
  preserves_bind (Draft.sweepWithin_preserves (foldCached_annotates home) _ _ _) fun _ =>
    preserves_bind (preserves_foldlM (foldCall_annotates home) _ _) fun _ => preserves_pure _

end ClassLiteral

/-! ## Enclosing instances and accessors -/

namespace OuterInstance

theorem importField_annotates (home owner : ClassId) (index : PoolIndex) :
    Preserves (ClassTable.Annotates home) (importField home owner index) := by
  unfold importField
  refine .get_bind fun table => preserves_bind (preserves_of_unchanged fun _ => rfl) fun found => ?_
  split
  · exact preserves_pure _
  · exact OnTable.interning_annotates home (Pool.internField_extends _ _ _)

theorem importMethod_annotates (home owner : ClassId) (index : PoolIndex) :
    Preserves (ClassTable.Annotates home) (importMethod home owner index) := by
  unfold importMethod
  refine .get_bind fun table => preserves_bind (preserves_of_unchanged fun _ => rfl) fun found => ?_
  split
  · exact preserves_pure _
  · exact OnTable.interning_annotates home (Pool.internMethod_extends _ _ _)

theorem inlineSetter_annotates (home : ClassId) (store : Store) (statement : NodeId) :
    Preserves (ClassTable.Annotates home) (inlineSetter home store statement) := by
  unfold inlineSetter
  split
  · split
    · refine .get_bind fun table => preserves_bind (OnTable.pool_annotates home) fun pool =>
        preserves_bind (preserves_of_unchanged fun _ => rfl) fun found => ?_
      split
      · split
        · exact preserves_bind (importField_annotates home _ _) fun _ => preserves_pure _
        · exact preserves_bind (importField_annotates home _ _) fun _ => preserves_pure _
        · exact preserves_pure _
      · exact preserves_pure _
    · exact preserves_pure _
  · exact preserves_pure _

theorem inlineCall_annotates (home owner : ClassId) (store : Store) (id : NodeId) (arguments : List NodeId)
    (accessor : Accessor) : Preserves (ClassTable.Annotates home) (inlineCall home owner store id arguments accessor) := by
  have field (index : PoolIndex) (next : PoolIndex → Store) :
      Preserves (ClassTable.Annotates home) (do return next (← importField home owner index)) :=
    preserves_bind (importField_annotates home owner index) fun _ => preserves_pure _
  have method (index : PoolIndex) (next : PoolIndex → Store) :
      Preserves (ClassTable.Annotates home) (do return next (← importMethod home owner index)) :=
    preserves_bind (importMethod_annotates home owner index) fun _ => preserves_pure _
  unfold inlineCall
  split
  · split
    · exact preserves_pure _
    · exact field _ _
  · split
    · exact field _ _
    · exact preserves_pure _
  · split
    · exact field _ _
    · exact preserves_pure _
  · split
    · exact field _ _
    · exact preserves_pure _
  · exact method _ _
  · split
    · exact method _ _
    · exact preserves_pure _

theorem foldNode_annotates (home : ClassId) (store : Store) (id : NodeId) :
    Preserves (ClassTable.Annotates home) (foldNode home store id) := by
  unfold foldNode
  split
  · refine .get_bind fun table => preserves_bind (OnTable.pool_annotates home) fun pool =>
      preserves_bind (preserves_of_unchanged fun _ => rfl) fun found => ?_
    split
    · exact inlineCall_annotates home _ store id _ _
    · exact preserves_pure _
  · split
    · refine .get_bind fun table => preserves_bind (OnTable.pool_annotates home) fun pool =>
        preserves_bind (preserves_of_unchanged fun _ => rfl) fun found => ?_
      split
      · exact preserves_bind (OnTable.interning_annotates home (Pool.internClass_extends _)) fun _ => preserves_pure _
      · exact preserves_pure _
    · exact preserves_pure _
  · exact preserves_pure _

theorem recover_annotates (home : ClassId) (method : Nat) (draft : Draft) :
    Preserves (ClassTable.Annotates home) (recover home method draft) :=
  .get_bind fun _ => preserves_bind (preserves_foldlM (inlineSetter_annotates home) _ _) fun _ =>
    preserves_bind (preserves_foldlM (foldNode_annotates home) _ _) fun _ => preserves_pure _

end OuterInstance

/-! ## String concatenation -/

namespace Concatenation

theorem foldNode_annotates (home : ClassId) (store : Store) (id : NodeId) :
    Preserves (ClassTable.Annotates home) (foldNode home store id) := by
  unfold foldNode
  split
  · refine preserves_bind (OnTable.pool_annotates home) fun pool =>
      preserves_bind (preserves_of_unchanged fun _ => rfl) fun found => ?_
    split
    · extract_lets -underBinder nodes finished
      have rest (operands : List NodeId × Store) : Preserves (ClassTable.Annotates home) (finished operands) := by
        unfold finished
        split
        split
        · split
          · exact preserves_pure _
          · exact preserves_pure _
        · exact preserves_pure _
      split
      · exact preserves_bind (OnTable.interning_annotates home (Pool.internString_extends _)) fun _ =>
          preserves_bind (preserves_pure _) rest
      · exact preserves_bind (preserves_pure _) rest
    · exact preserves_pure _
  · exact preserves_pure _

theorem recover_annotates (home : ClassId) (draft : Draft) : Preserves (ClassTable.Annotates home) (recover home draft) :=
  preserves_bind (preserves_foldlM (foldNode_annotates home) _ _) fun _ => preserves_pure _

end Concatenation

/-! ## All idioms -/

theorem Code.recover_annotates (home : ClassId) (method : Nat) (code : Code) :
    Preserves (ClassTable.Annotates home) (code.recover home method) :=
  preserves_bind (OuterInstance.recover_annotates home method _) fun _ =>
    preserves_bind (OnTable.pool_annotates home) fun _ =>
      preserves_bind (preserves_of_unchanged fun _ => rfl) fun _ =>
        preserves_bind (ClassLiteral.recover_annotates home _) fun _ =>
          preserves_bind (Concatenation.recover_annotates home _) fun _ => preserves_of_unchanged fun _ => rfl

end ClassLift
