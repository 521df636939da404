import ClassLift.Idiom.Recover
import ClassLift.Proofs.Idiom.Assignment
import ClassLift.Proofs.Idiom.Conditional
import ClassLift.Proofs.Idiom.Construction
import ClassLift.Proofs.Idiom.Evolution
import ClassLift.Proofs.Idiom.Increment
import Mathlib.Logic.Relation

namespace ClassLift

namespace Draft

inductive Fold : Draft → Draft → Prop
  | outerStore (file : ClassFile) (method : Nat) (draft : Draft) : Fold draft (OuterInstance.dropOuterStore file method draft)
  | setter {home : ClassId} {store changed : Store} {statement : NodeId} {table last : ClassTable}
      (statements : List NodeId) (ran : OuterInstance.inlineSetter home store statement table = (.ok changed, last)) :
      Fold ⟨store, statements⟩ ⟨changed, statements⟩
  | outerInstance {home : ClassId} {store changed : Store} {id : NodeId} {table last : ClassTable}
      (statements : List NodeId) (ran : OuterInstance.foldNode home store id table = (.ok changed, last)) :
      Fold ⟨store, statements⟩ ⟨changed, statements⟩
  | construction {pool : Pool} {store changed : Store} {spot : Spot} {cursor : Cursor}
      (ran : Construction.step pool store spot = .ok (changed, cursor)) :
      Fold ⟨store, spot.keep.statements⟩ ⟨changed, cursor.statements⟩
  | increment (targets : List Offset) (store : Store) (spot : Spot) :
      Fold ⟨store, spot.keep.statements⟩
        ⟨(Increment.step targets store spot).1, (Increment.step targets store spot).2.statements⟩
  | cachedLiteral {home : ClassId} {store changed : Store} {spot : Spot} {cursor : Cursor} {table last : ClassTable}
      (ran : ClassLiteral.foldCached home store spot table = (.ok (changed, cursor), last)) :
      Fold ⟨store, spot.keep.statements⟩ ⟨changed, cursor.statements⟩
  | classLiteral {home : ClassId} {store changed : Store} {id : NodeId} {table last : ClassTable}
      (statements : List NodeId) (ran : ClassLiteral.foldCall home store id table = (.ok changed, last)) :
      Fold ⟨store, statements⟩ ⟨changed, statements⟩
  | concatenation {home : ClassId} {store changed : Store} {id : NodeId} {table last : ClassTable}
      (statements : List NodeId) (ran : Concatenation.foldNode home store id table = (.ok changed, last)) :
      Fold ⟨store, statements⟩ ⟨changed, statements⟩
  | assignment (store : Store) (spot : Spot) :
      Fold ⟨store, spot.keep.statements⟩ ⟨(Assignment.step store spot).1, (Assignment.step store spot).2.statements⟩
  | arrayLiteral (store : Store) (spot : Spot) :
      Fold ⟨store, spot.keep.statements⟩ ⟨(ArrayLiteral.step store spot).1, (ArrayLiteral.step store spot).2.statements⟩
  | compoundAssignment (store : Store) (spot : Spot) :
      Fold ⟨store, spot.keep.statements⟩
        ⟨(CompoundAssignment.step store spot).1, (CompoundAssignment.step store spot).2.statements⟩
  | compoundValue (store : Store) (statements : List NodeId) (id : NodeId) :
      Fold ⟨store, statements⟩ ⟨CompoundAssignment.foldNode store id, statements⟩
  | conditional {store changed : Store} {spot : Spot} {cursor : Cursor}
      (ran : Conditional.step store spot = .ok (changed, cursor)) :
      Fold ⟨store, spot.keep.statements⟩ ⟨changed, cursor.statements⟩

theorem Fold.sound {before after : Draft} (fold : Fold before after) : Sound before after := by
  cases fold with
  | outerStore file method => exact OuterInstance.dropOuterStore_sound file method before
  | setter statements ran =>
    obtain ⟨stems, keeps⟩ := OuterInstance.inlineSetter_within ran
    exact .of_keeps stems keeps
  | outerInstance statements ran =>
    obtain ⟨stems, keeps⟩ := OuterInstance.foldNode_within ran
    exact .of_keeps stems keeps
  | construction ran => exact Construction.step_sound ran
  | increment targets store spot => exact Increment.step_sound targets store spot
  | cachedLiteral ran => exact ClassLiteral.foldCached_sound ran
  | classLiteral statements ran =>
    obtain ⟨stems, keeps⟩ := ClassLiteral.foldCall_within ran
    exact .of_keeps stems keeps
  | concatenation statements ran =>
    obtain ⟨stems, keeps⟩ := Concatenation.foldNode_within ran
    exact .of_keeps stems keeps
  | assignment store spot => exact Assignment.step_sound store spot
  | arrayLiteral store spot => exact ArrayLiteral.step_sound store spot
  | compoundAssignment store spot => exact CompoundAssignment.step_sound store spot
  | compoundValue store statements id =>
    obtain ⟨stems, keeps⟩ := CompoundAssignment.foldNode_within store id
    exact .of_keeps stems keeps
  | conditional ran => exact Conditional.step_sound ran

def Folds : Draft → Draft → Prop := Relation.ReflTransGen Fold

namespace Folds

variable {first middle last : Draft}

theorem refl (draft : Draft) : Folds draft draft := Relation.ReflTransGen.refl

theorem trans (one : Folds first middle) (other : Folds middle last) : Folds first last := Relation.ReflTransGen.trans one other

theorem single (fold : Fold first last) : Folds first last := Relation.ReflTransGen.single fold

end Folds

end Draft

/-! ## Sweeps and walks -/

structure Outcome (m : Type → Type) [Monad m] where
  Returns : {α : Type} → m α → α → Prop
  pure : ∀ {α : Type} {value result : α}, Returns (pure value) result → result = value
  bind : ∀ {α β : Type} {action : m α} {next : α → m β} {result : β}, Returns (action >>= next) result →
    ∃ value, Returns action value ∧ Returns (next value) result

namespace Outcome

def plain : Outcome Id where
  Returns action value := action = value
  pure same := same.symm
  bind same := ⟨_, rfl, same⟩

def failing (ε : Type) : Outcome (Except ε) where
  Returns action value := action = .ok value
  pure same := (Except.ok.inj same).symm
  bind ran := except_bind_ok.mp ran

def onTable : Outcome OnTable where
  Returns action value := ∃ table last, action table = (.ok value, last)
  pure := fun ⟨_, _, ran⟩ => (OnTable.return_ok ran).1
  bind := fun ⟨table, last, ran⟩ => by
    obtain ⟨value, middle, first, rest⟩ := bind_ok.mp ran
    exact ⟨value, ⟨table, middle, first⟩, middle, last, rest⟩

variable {m : Type → Type} [Monad m] (outcome : Outcome m) {fold : Draft → Draft → Prop}
include outcome

theorem sweepWithin_folds {step : Store → Spot → m (Store × Cursor)}
    (steps : ∀ store spot result, outcome.Returns (step store spot) result →
      fold ⟨store, spot.keep.statements⟩ ⟨result.1, result.2.statements⟩)
    {bound : Nat} {store : Store} {cursor : Cursor} {draft : Draft}
    (ran : outcome.Returns (Draft.sweepWithin step bound store cursor) draft) :
    Relation.ReflTransGen fold ⟨store, cursor.statements⟩ draft := by
  induction bound generalizing store cursor with
  | zero =>
    obtain rfl := outcome.pure ran
    exact .refl
  | succ bound continues =>
    obtain ⟨pending, after⟩ := cursor
    cases pending with
    | nil =>
      obtain rfl := outcome.pure ran
      exact .refl
    | cons current before =>
      obtain ⟨⟨changed, cursor⟩, first, rest⟩ := outcome.bind ran
      have single := steps store ⟨before, current, after⟩ _ first
      have same : (⟨current :: before, after⟩ : Cursor).statements = (Spot.mk before current after).keep.statements := by
        simp [Cursor.statements, Spot.keep]
      rw [same]
      exact .head single (continues rest)

theorem sweep_folds {step : Store → Spot → m (Store × Cursor)}
    (steps : ∀ store spot result, outcome.Returns (step store spot) result →
      fold ⟨store, spot.keep.statements⟩ ⟨result.1, result.2.statements⟩)
    {before after : Draft} (ran : outcome.Returns (before.sweep step) after) : Relation.ReflTransGen fold before after := by
  have folds := outcome.sweepWithin_folds steps ran
  simpa [Cursor.statements] using folds

theorem foldlM_folds (statements : List NodeId) {step : Store → NodeId → m Store}
    (steps : ∀ store id changed, outcome.Returns (step store id) changed → fold ⟨store, statements⟩ ⟨changed, statements⟩)
    {ids : List NodeId} {store changed : Store} (ran : outcome.Returns (ids.foldlM step store) changed) :
    Relation.ReflTransGen fold ⟨store, statements⟩ ⟨changed, statements⟩ := by
  induction ids generalizing store with
  | nil =>
    obtain rfl := outcome.pure ran
    exact .refl
  | cons id rest continues =>
    obtain ⟨middle, first, later⟩ := outcome.bind ran
    exact .head (steps store id middle first) (continues later)

end Outcome

def Code.raw (code : Code) : Draft := ⟨code.store, code.instructions⟩

def Code.draft (code : Code) : Draft := ⟨code.store, code.statements⟩

section Recover

variable {home : ClassId} {method : Nat} {before after : Draft} {table last : ClassTable}

theorem OuterInstance.recover_folds (ran : recover home method before table = (.ok after, last)) : Draft.Folds before after := by
  unfold recover at ran
  rw [OnTable.get_bind_ok] at ran
  have dropped : Draft.Folds before ((table.get? home).elim before fun file => dropOuterStore file method before) := by
    cases table.get? home with
    | none => exact .refl before
    | some file => exact .single (.outerStore file method before)
  generalize (table.get? home).elim before _ = rest at ran dropped
  obtain ⟨store, middle, setters, ran⟩ := bind_ok.mp ran
  obtain ⟨changed, nodes, rfl⟩ := OnTable.map_ok ran
  have first : Draft.Folds rest ⟨store, rest.statements⟩ :=
    Outcome.onTable.foldlM_folds rest.statements (fun _ _ _ ⟨_, _, ran⟩ => .setter _ ran) ⟨_, _, setters⟩
  have second : Draft.Folds ⟨store, rest.statements⟩ ⟨changed, rest.statements⟩ :=
    Outcome.onTable.foldlM_folds rest.statements (fun _ _ _ ⟨_, _, ran⟩ => .outerInstance _ ran) ⟨_, _, nodes⟩
  exact dropped.trans (first.trans second)

theorem Construction.recover_folds {pool : Pool} (ran : recover pool before = .ok after) : Draft.Folds before after :=
  (Outcome.failing PoolError).sweep_folds (fun _ _ _ ran => .construction ran) ran

theorem Increment.recover_folds (handlers : List Handler) (draft : Draft) : Draft.Folds draft (recover handlers draft) :=
  Outcome.plain.sweep_folds (fun store spot _ same => same ▸ .increment _ store spot) rfl

theorem ClassLiteral.recover_folds (ran : recover home before table = (.ok after, last)) : Draft.Folds before after := by
  obtain ⟨middle, _, sweep, ran⟩ := bind_ok.mp ran
  obtain ⟨changed, nodes, rfl⟩ := OnTable.map_ok ran
  have first : Draft.Folds before middle :=
    Outcome.onTable.sweep_folds (fun _ _ _ ⟨_, _, ran⟩ => .cachedLiteral ran) ⟨_, _, sweep⟩
  have second : Draft.Folds middle ⟨changed, middle.statements⟩ :=
    Outcome.onTable.foldlM_folds middle.statements (fun _ _ _ ⟨_, _, ran⟩ => .classLiteral _ ran) ⟨_, _, nodes⟩
  exact first.trans second

theorem Concatenation.recover_folds (ran : recover home before table = (.ok after, last)) : Draft.Folds before after := by
  obtain ⟨changed, nodes, rfl⟩ := OnTable.map_ok ran
  exact Outcome.onTable.foldlM_folds before.statements (fun _ _ _ ⟨_, _, ran⟩ => .concatenation _ ran) ⟨_, _, nodes⟩

theorem Assignment.recover_folds (draft : Draft) : Draft.Folds draft (recover draft) :=
  Outcome.plain.sweep_folds (fun store spot _ same => same ▸ .assignment store spot) rfl

theorem ArrayLiteral.recover_folds (draft : Draft) : Draft.Folds draft (recover draft) :=
  Outcome.plain.sweep_folds (fun store spot _ same => same ▸ .arrayLiteral store spot) rfl

theorem CompoundAssignment.recover_folds (draft : Draft) : Draft.Folds draft (recover draft) := by
  have first : Draft.Folds draft (Id.run (draft.sweep fun store spot => pure (step store spot))) :=
    Outcome.plain.sweep_folds (fun store spot _ same => same ▸ .compoundAssignment store spot) rfl
  unfold recover
  generalize Id.run (draft.sweep fun store spot => pure (step store spot)) = middle at first ⊢
  refine first.trans ?_
  refine List.foldlRecOn (motive := fun store => middle.Folds ⟨store, middle.statements⟩) _ foldNode (.refl middle) ?_
  exact fun store folds id _ => folds.trans (.single (.compoundValue store middle.statements id))

theorem Conditional.recover_folds (ran : recover before = .ok after) : Draft.Folds before after :=
  (Outcome.failing MethodError).sweep_folds (fun _ _ _ ran => .conditional ran) ran

theorem Code.recover_folds {code : Code} (ran : code.recover home method table = (.ok after, last)) :
    Draft.Folds code.raw after := by
  obtain ⟨outer, _, first, ran⟩ := bind_ok.mp ran
  rw [OnTable.pool_bind_ok, OnTable.read_bind_ok] at ran
  obtain ⟨constructed, second, ran⟩ := ran
  obtain ⟨named, _, third, ran⟩ := bind_ok.mp ran
  obtain ⟨joined, middle, fourth, ran⟩ := bind_ok.mp ran
  have folded := (Assignment.recover_folds joined).trans
    ((ArrayLiteral.recover_folds _).trans (CompoundAssignment.recover_folds _))
  generalize CompoundAssignment.recover (ArrayLiteral.recover (Assignment.recover joined)) = assigned at folded ran
  cases last : Conditional.recover assigned with
  | error error =>
    rw [last] at ran
    change ((.error (.method error), middle) : Except Failure Draft × ClassTable) = _ at ran
    cases ran
  | ok draft =>
    rw [last] at ran
    change ((.ok draft, middle) : Except Failure Draft × ClassTable) = _ at ran
    cases ran
    exact (OuterInstance.recover_folds first).trans ((Construction.recover_folds second).trans
      ((Increment.recover_folds code.handlers constructed).trans ((ClassLiteral.recover_folds third).trans
        ((Concatenation.recover_folds fourth).trans (folded.trans (Conditional.recover_folds last))))))

end Recover

/-! ## Methods of a class -/

namespace ClassTable

def method? (table : ClassTable) (home : ClassId) (index : Nat) : Option Method :=
  (table.get? home).bind (·.methods[index]?)

variable {table after : ClassTable} {home : ClassId} {index other : Nat} {method : Method} {code : Code}
  {warnings : List Warning}

theorem Annotates.method? (annotates : table.Annotates home after) (given : table.method? home index = some method) :
    ∃ result, after.method? home index = some result ∧ method.Marked result := by
  obtain ⟨file, found, given⟩ := Option.bind_eq_some_iff.mp given
  obtain ⟨changed, there, annotated, _⟩ := annotates.left home file found
  obtain ⟨result, here, marked⟩ := annotated.methods.left index method given
  exact ⟨result, Option.bind_eq_some_iff.mpr ⟨changed, there, here⟩, marked⟩

theorem Develops.method? {lifts rewrites : Prop} {worked : ClassId → Prop} (develops : table.Develops lifts rewrites worked after)
    (given : table.method? home index = some method) :
    ∃ result pool, after.method? home index = some result ∧ method.Develops rewrites pool result ∧
      (worked home ∨ method.Marked result) := by
  obtain ⟨file, found, given⟩ := Option.bind_eq_some_iff.mp given
  obtain ⟨other, there, changed, rest⟩ := develops.left home file found
  obtain ⟨result, here, develops⟩ := changed.methods.left index method given
  refine ⟨result, other.pool, Option.bind_eq_some_iff.mpr ⟨other, there, here⟩, develops, rest.imp_right fun marks => ?_⟩
  obtain ⟨marked, located, holds⟩ := marks.1.methods.left index method given
  cases here.symm.trans located
  exact holds

theorem method?_modifyMethod (change : Method → Method) :
    (table.modify home fun file => file.modifyMethod index change).method? home other =
      if other = index then (table.method? home other).map change else table.method? home other := by
  have get : (table.modify home fun file => file.modifyMethod index change).get? home =
      (table.get? home).map (·.modifyMethod index change) := by
    simp [ClassTable.modify, get?, Array.getElem?_modify]
  rw [method?, get]
  cases found : table.get? home with
  | none => simp [method?, found]
  | some file =>
    simp only [method?, found, Option.map_some, Option.bind_some, ClassFile.modifyMethod, Array.getElem?_modify]
    by_cases same : other = index
    · simp [same]
    · simp [same, Ne.symm same]

theorem method?_flag (error : MethodError) : (table.flag home index error).1.method? home other =
    if other = index then (table.method? home other).map fun method => { method with flagged := true }
    else table.method? home other := by
  unfold flag
  cases found : table.get? home with
  | none => simp [method?, found]
  | some file =>
    have get : (table.set home (file.flag index error).1).get? home = some (file.flag index error).1 := by
      have inside : table.classes[home]? = some file := found
      simp [ClassTable.set, ClassTable.modify, get?, Array.getElem?_modify, inside]
    change ((table.set home (file.flag index error).1).get? home).bind _ = _
    rw [get, method?, found]
    simp only [Option.bind_some, ClassFile.flag, ClassFile.modifyMethod, Array.getElem?_modify]
    by_cases same : other = index
    · simp [same]
    · simp [same, Ne.symm same]

inductive Recovers (home : ClassId) (index : Nat) (method result : Method) : Prop
  | skipped (skips : ∀ code, method.flagged = false → method.code ≠ some code) (flagged : result.flagged = method.flagged)
      (kept : result.code = method.code)
  | done (code : Code) (draft : Draft) (table last : ClassTable) (unflagged : method.flagged = false)
      (given : method.code = some code) (ran : code.recover home index table = (.ok draft, last))
      (flagged : result.flagged = false)
      (made : result.code = some { code with store := draft.store, statements := draft.statements })
  | failed (code : Code) (error : MethodError) (table last : ClassTable) (unflagged : method.flagged = false)
      (given : method.code = some code) (ran : code.recover home index table = (.error (.method error), last))
      (flagged : result.flagged = true) (made : result.code = some { code with statements := code.instructions })

namespace Recovers

variable {marked result last : Method}

theorem marked_before (before : method.Marked marked) (recovers : Recovers home index marked result) :
    Recovers home index method result := by
  have flag := before.flagged
  have body := before.code
  cases recovers with
  | skipped skips flagged kept =>
    rw [flag, body] at skips
    exact .skipped skips (flagged.trans flag) (kept.trans body)
  | done code draft table last unflagged given ran flagged made =>
    exact .done code draft table last (flag ▸ unflagged) (body ▸ given) ran flagged made
  | failed code error table last unflagged given ran flagged made =>
    exact .failed code error table last (flag ▸ unflagged) (body ▸ given) ran flagged made

theorem marked_after (recovers : Recovers home index method result) (after : result.Marked last) :
    Recovers home index method last := by
  have flag := after.flagged
  have body := after.code
  cases recovers with
  | skipped skips flagged kept => exact .skipped skips (flag.trans flagged) (body.trans kept)
  | done code draft table last unflagged given ran flagged made =>
    exact .done code draft table last unflagged given ran (flag.trans flagged) (body.trans made)
  | failed code error table last unflagged given ran flagged made =>
    exact .failed code error table last unflagged given ran (flag.trans flagged) (body.trans made)

end Recovers

theorem recoverMethod_cases (ran : table.recoverMethod home index = .ok (after, warnings)) :
    (after = table ∧ ∀ method, table.method? home index = some method → ∀ code, method.flagged = false → method.code ≠ some code) ∨
      ∃ method code middle, table.method? home index = some method ∧ method.flagged = false ∧ method.code = some code ∧
        table.Annotates home middle ∧
        ((∃ draft, code.recover home index table = (.ok draft, middle) ∧
            after = middle.setCode home index { code with store := draft.store, statements := draft.statements }) ∨
          ∃ error, code.recover home index table = (.error (.method error), middle) ∧
            after = ((middle.setCode home index { code with statements := code.instructions }).flag home index error).1) := by
  unfold recoverMethod at ran
  split at ran
  case h_1 none =>
    cases ran
    exact .inl ⟨rfl, fun method found => by cases none.symm.trans found⟩
  case h_2 method given =>
    split at ran
    case h_2 skips =>
      cases ran
      refine .inl ⟨rfl, fun other found => ?_⟩
      cases given.symm.trans found
      exact fun code unflagged body => skips code unflagged body
    case h_1 code unflagged body =>
      have annotates := code.recover_annotates home index table
      cases outcome : code.recover home index table with
      | mk result middle =>
        rw [outcome] at annotates
        simp only [outcome] at ran
        refine .inr ⟨method, code, middle, given, unflagged, body, annotates, ?_⟩
        rw [outcome]
        cases result with
        | ok draft =>
          cases ran
          exact .inl ⟨draft, rfl, rfl⟩
        | error failure =>
          cases failure with
          | descriptor error => cases ran
          | method error => exact .inr ⟨error, rfl, (congrArg Prod.fst (Except.ok.inj ran)).symm⟩

theorem recoverMethod_ok (ran : table.recoverMethod home index = .ok (after, warnings)) :
    (∀ other method, other ≠ index → table.method? home other = some method →
      ∃ result, after.method? home other = some result ∧ method.Marked result) ∧
    ∀ method, table.method? home index = some method →
      ∃ result, after.method? home index = some result ∧ Recovers home index method result := by
  rcases recoverMethod_cases ran with ⟨rfl, skips⟩ | ⟨declared, code, middle, given, unflagged, body, annotates, made⟩
  · exact ⟨fun other method _ found => ⟨method, found, .refl method⟩,
      fun method found => ⟨method, found, .skipped (skips method found) rfl rfl⟩⟩
  · obtain ⟨between, here, marked⟩ := annotates.method? given
    rcases made with ⟨draft, recovered, rfl⟩ | ⟨error, recovered, rfl⟩
    · refine ⟨fun other method apart found => ?_, fun method found => ?_⟩
      · rw [setCode, method?_modifyMethod, if_neg apart]
        exact annotates.method? found
      · cases given.symm.trans found
        rw [setCode, method?_modifyMethod, if_pos rfl, here]
        exact ⟨_, rfl, .done code draft table middle unflagged body recovered (marked.flagged.trans unflagged) rfl⟩
    · refine ⟨fun other method apart found => ?_, fun method found => ?_⟩
      · rw [method?_flag, if_neg apart, setCode, method?_modifyMethod, if_neg apart]
        exact annotates.method? found
      · cases given.symm.trans found
        rw [method?_flag, if_pos rfl, setCode, method?_modifyMethod, if_pos rfl, here]
        exact ⟨_, rfl, .failed code error table middle unflagged body recovered rfl rfl⟩

theorem recoverMethods_related {related : ClassTable → ClassTable → Prop} [Std.Refl related] [IsTrans ClassTable related]
    (step : ∀ {table index after warnings}, table.recoverMethod home index = .ok (after, warnings) → related table after)
    {indices : List Nat} (ran : table.recoverMethods home indices = .ok (after, warnings)) : related table after := by
  induction indices generalizing table warnings with
  | nil =>
    cases ran
    exact Std.Refl.refl _
  | cons index rest continues =>
    obtain ⟨⟨middle, found⟩, first, ran⟩ := except_bind_ok.mp ran
    obtain ⟨⟨last, more⟩, later, same⟩ := except_bind_ok.mp ran
    cases same
    exact IsTrans.trans _ _ _ (step first) (continues later)

theorem recoverMethods_ok {indices : List Nat} (distinct : indices.Nodup)
    (ran : table.recoverMethods home indices = .ok (after, warnings)) :
    (∀ other method, other ∉ indices → table.method? home other = some method →
      ∃ result, after.method? home other = some result ∧ method.Marked result) ∧
    ∀ index ∈ indices, ∀ method, table.method? home index = some method →
      ∃ result, after.method? home index = some result ∧ Recovers home index method result := by
  induction indices generalizing table warnings with
  | nil =>
    cases ran
    exact ⟨fun other method _ found => ⟨method, found, .refl method⟩, fun index member => by cases member⟩
  | cons head rest continues =>
    obtain ⟨fresh, distinct⟩ := List.nodup_cons.mp distinct
    obtain ⟨⟨middle, early⟩, first, ran⟩ := except_bind_ok.mp ran
    obtain ⟨⟨last, late⟩, later, same⟩ := except_bind_ok.mp ran
    cases same
    obtain ⟨othersFirst, doneFirst⟩ := recoverMethod_ok first
    obtain ⟨othersLater, doneLater⟩ := continues distinct later
    refine ⟨fun other method outside found => ?_, fun index member method found => ?_⟩
    · rw [List.mem_cons, not_or] at outside
      obtain ⟨between, there, marked⟩ := othersFirst other method outside.1 found
      obtain ⟨result, here, markedAgain⟩ := othersLater other between outside.2 there
      exact ⟨result, here, marked.trans markedAgain⟩
    · rcases List.mem_cons.mp member with rfl | member
      · obtain ⟨between, there, recovers⟩ := doneFirst method found
        obtain ⟨result, here, marked⟩ := othersLater index between fresh there
        exact ⟨result, here, recovers.marked_after marked⟩
      · obtain ⟨between, there, marked⟩ := othersFirst index method (fun same => fresh (same ▸ member)) found
        obtain ⟨result, here, recovers⟩ := doneLater index member between there
        exact ⟨result, here, recovers.marked_before marked⟩

theorem recover_recovers (ran : table.recover home = .ok (after, warnings)) (given : table.method? home index = some method) :
    ∃ result, after.method? home index = some result ∧ Recovers home index method result := by
  refine (recoverMethods_ok List.nodup_range ran).2 index ?_ method given
  obtain ⟨file, found, given⟩ := Option.bind_eq_some_iff.mp given
  rw [found]
  exact List.mem_range.mpr (Array.getElem?_eq_some_iff.mp given).1

def RecoveredTo (code : Code) (result : Method) : Prop := ∃ body, result.code = some body ∧ Draft.Folds code.raw body.draft

theorem recover_method (ran : table.recover home = .ok (after, warnings)) (given : table.method? home index = some method)
    (unflagged : method.flagged = false) (body : method.code = some code) :
    ∃ result, after.method? home index = some result ∧ RecoveredTo code result := by
  obtain ⟨result, here, recovers⟩ := recover_recovers ran given
  refine ⟨result, here, ?_⟩
  cases recovers with
  | skipped skips => exact (skips code unflagged body).elim
  | done found draft _ _ _ given ran _ made =>
    cases body.symm.trans given
    exact ⟨_, made, Code.recover_folds ran⟩
  | failed found error _ _ _ given _ _ made =>
    cases body.symm.trans given
    exact ⟨_, made, .refl _⟩

end ClassTable

end ClassLift
