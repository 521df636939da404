import ClassLift.Idiom.Construction
import ClassLift.Proofs.Action
import ClassLift.Proofs.Idiom.Overlooked

namespace ClassLift

namespace Construction

variable {pool : Pool} {store changed : Store} {spot : Spot} {cursor : Cursor}

theorem constructorCall?_ok {isObject : NodeId → Bool} {found : Option Kind} {construction : Kind}
    (ran : constructorCall? pool isObject found = .ok (some construction)) :
    ∃ method object arguments, found = some (.call .special method (some object) arguments) ∧ isObject object = true ∧
      construction = .construct method arguments := by
  unfold constructorCall? at ran
  split at ran
  case h_2 => cases ran
  case h_1 method object arguments =>
    by_cases suitable : isObject object = true
    · simp only [suitable, Bool.not_true, Bool.false_eq_true, if_false] at ran
      obtain ⟨called, _, ran⟩ := except_bind_ok.mp ran
      split at ran
      · cases ran
      · cases ran
        exact ⟨method, object, arguments, rfl, suitable, rfl⟩
    · simp [suitable, pure, Except.pure] at ran

structure Pair (store : Store) (current next value object : NodeId) (type method : PoolIndex) (arguments : List NodeId) :
    Prop where
  held : store.kind? current = some (.dupStore value)
  allocated : store.kind? value = some (.allocate type)
  call : store.kind? next = some (.call .special method (some object) arguments)
  called : store.kind? object = some (.dupLoad current)

theorem step_ok (ran : step pool store spot = .ok (changed, cursor)) :
    changed = store ∧ cursor = spot.keep ∨
      (∃ method object arguments, store.kind? spot.current = some (.call .special method (some object) arguments) ∧
        changed = store.replace spot.current (.construct method arguments) ∧ cursor = spot.keep) ∨
      ∃ next rest value object type method arguments, spot.after = next :: rest ∧
        Pair store spot.current next value object type method arguments ∧
        (changed, cursor) = place store spot value (.construct method arguments) rest := by
  unfold step at ran
  generalize found : store.kind? spot.current = shape at ran
  split at ran
  case h_1 _ value =>
    split at ran
    · cases ran
      exact .inl ⟨rfl, rfl⟩
    rename_i allocation
    obtain ⟨type, allocated⟩ : ∃ type, store.kind? value = some (.allocate type) := by
      unfold isAllocation at allocation
      split at allocation
      · exact ⟨_, ‹_›⟩
      · simp at allocation
    cases after : spot.after with
    | nil =>
      simp only [after] at ran
      cases ran
      exact .inl ⟨rfl, rfl⟩
    | cons next rest =>
      simp only [after] at ran
      obtain ⟨construction, recognized, ran⟩ := except_bind_ok.mp ran
      cases construction with
      | none =>
        cases ran
        exact .inl ⟨rfl, rfl⟩
      | some construction =>
        obtain ⟨method, object, arguments, call, called, rfl⟩ := constructorCall?_ok recognized
        refine .inr (.inr ⟨next, rest, value, object, type, method, arguments, rfl, ?_, (Except.ok.inj ran).symm⟩)
        exact ⟨found, allocated, call, Store.isDupLoadOf_iff.mp called⟩
  case h_2 _ _ _ =>
    obtain ⟨construction, recognized, ran⟩ := except_bind_ok.mp ran
    cases construction with
    | none =>
      cases ran
      exact .inl ⟨rfl, rfl⟩
    | some construction =>
      obtain ⟨method, object, arguments, call, _, rfl⟩ := constructorCall?_ok recognized
      cases ran
      exact .inr (.inl ⟨method, object, arguments, call, rfl, rfl⟩)

namespace Pair

variable {early late fewer arguments : List NodeId} {current next value object target : NodeId} {type method : PoolIndex}
  {old : Kind}

theorem transplant (pair : Pair store current next value object type method arguments) (found : store.kind? target = some old)
    (sub : fewer.Sublist (early ++ current :: next :: late)) :
    Draft.Transplant store store (early ++ current :: next :: late) fewer target old (.construct method arguments) []
      [next] arguments (· = target) Kind.Plain where
  found := found
  fewer_sublist := sub
  own_sublist := List.nil_sublist _
  donors_sublist := by simp
  prunes := .open_root pair.call (.drop (.of_sublist (by simp [Kind.bodies])))
  adds := .none
  children child below := .inl (by simpa [Kind.children, Kind.operands, Kind.bodies] using below)
  placed _ same := .inl same

theorem regrowth (pair : Pair store current next value object type method arguments) (found : store.kind? target = some old)
    (sub : fewer.Sublist (early ++ current :: next :: late)) (dropped : next ∉ fewer)
    (forest : (⟨store, early ++ current :: next :: late⟩ : Draft).Forest) :
    Draft.Regrowth ⟨store, early ++ current :: next :: late⟩ ⟨store.replace target (.construct method arguments), fewer⟩
      target arguments := by
  have transplant := pair.transplant found sub
  refine transplant.regrowth forest (by simpa using dropped) ?_ fun trees apart => ⟨arguments.flatMap store.preorder, [], ?_, ?_⟩
  · rintro made source (rfl | plain) same
    · cases same
    · exact absurd same (plain source)
  · simpa [Kind.children, Kind.operands, Kind.bodies] using transplant.lists trees apart
  · simp

theorem selfArgument (pair : Pair store current next value object type method arguments) {argument : NodeId}
    (among : argument ∈ arguments)
    (loads : ∃ id ∈ store.preorder argument, store.kind? id = some (.dupLoad current)) :
    (⟨store, early ++ current :: next :: late⟩ : Draft).SelfArgument current :=
  ⟨rfl, pair.held, pair.allocated, pair.call, pair.called, among, loads⟩

theorem ne_next (pair : Pair store current next value object type method arguments) {source held : NodeId}
    (found : store.kind? source = some (.dupStore held)) : source ≠ next := by
  rintro rfl
  cases pair.call.symm.trans found

theorem sound_stay (pair : Pair store current next value object type method arguments) (found : store.kind? target = some old)
    (below : target = current ∨ target = value)
    (unloaded : target = current → store.dupLoads current (early ++ current :: late) = []) :
    Draft.Sound ⟨store, early ++ current :: next :: late⟩
      ⟨store.replace target (.construct method arguments), early ++ current :: late⟩ := by
  have sub : (early ++ current :: late).Sublist (early ++ current :: next :: late) := by simp
  have transplant := pair.transplant found sub
  have regrows (forest : (⟨store, early ++ current :: next :: late⟩ : Draft).Forest) :=
    pair.regrowth found sub (Draft.Forest.neighbours forest).2.2.2 forest
  refine ⟨fun _ => transplant.rebuild.stems, fun forest => (regrows forest).forest forest, ?_, ?_⟩
  · intro forest ordered statement member source notEarlier loads
    have currentTree : store.Trees [current] := forest.of_mem (by simp)
    have inCurrent : target ∈ store.preorder current := by
      rcases below with rfl | rfl
      · exact currentTree.mem_preorder_self
      · have child : target ∈ (Kind.dupStore target).children := by simp [Kind.children, Kind.operands]
        have valueTree := (currentTree.children pair.held).2.1.of_mem child
        exact (currentTree.mem_preorder_of_child pair.held child valueTree.mem_preorder_self).1
    rcases (regrows forest).loads forest member loads with
      ⟨id, inside, foundLoad, _⟩ | ⟨here, ⟨argument, among, id, inside, foundLoad⟩ | ⟨id, changed, foundLoad⟩⟩
    · exact absurd ⟨id, inside, foundLoad⟩
        (ordered statement (sub.subset member) source (notEarlier.imp_right (·.trans sub)))
    · obtain rfl : statement = current := forest.root_unique (sub.subset member) (by simp) here inCurrent
      rcases notEarlier with rfl | later
      · exact ⟨rfl, pair.selfArgument among ⟨id, inside, foundLoad⟩⟩
      · -- The argument repeats a later value already in the call.
        have behind := Draft.mem_right_of_pair_sublist (forest.nodup.sublist sub) later
        have nextTree : store.Trees [next] := forest.of_mem (by simp)
        have child : argument ∈ (Kind.call .special method (some object) arguments).children := by
          simp [Kind.children, Kind.operands, among]
        have inNext := (nextTree.mem_preorder_of_child pair.call child inside).1
        refine absurd ⟨id, inNext, foundLoad⟩ (ordered next (by simp) source (.inr ?_))
        rw [List.append_cons]
        exact Draft.pair_sublist_of_mem_right behind
    · exact absurd foundLoad (transplant.not_dupLoad (by rintro _ ⟨⟩) changed)
  · intro forest ordered tied statement member source loads
    have stays {held : NodeId} (listed : source ∈ early ++ current :: next :: late)
        (foundHeld : store.kind? source = some (.dupStore held)) : source ∈ early ++ current :: late := by
      simpa [pair.ne_next foundHeld] using listed
    rcases below with atCurrent | atValue
    · subst atCurrent
      by_cases same : source = target
      · subst same
        rcases (regrows forest).loads forest member loads with
          ⟨id, inside, foundLoad, _⟩ | ⟨here, ⟨argument, among, id, inside, foundLoad⟩ | ⟨id, changed, foundLoad⟩⟩
        · have counted := Store.mem_dupLoads.mpr ⟨member, inside, foundLoad⟩
          rw [unloaded rfl] at counted
          cases counted
        · exact .inr (.construction (pair.selfArgument among ⟨id, inside, foundLoad⟩))
        · exact absurd foundLoad (transplant.not_dupLoad (by rintro _ ⟨⟩) changed)
      · exact .inl ((regrows forest).held forest tied member loads fun _ listed foundHeld => ⟨stays listed foundHeld, same⟩)
    · refine .inl ((regrows forest).held forest tied member loads fun held listed foundHeld => ⟨stays listed foundHeld, ?_⟩)
      rintro rfl
      cases (atValue ▸ pair.allocated).symm.trans foundHeld

theorem sound_leave (pair : Pair store current next value object type method arguments) {user use : NodeId}
    (used : store.dupLoads current (early ++ current :: late) = [(user, use)]) :
    Draft.Sound ⟨store, early ++ current :: next :: late⟩
      ⟨store.replace use (.construct method arguments), early ++ late⟩ := by
  obtain ⟨listed, inUser, found⟩ := Store.mem_dupLoads.mp (used ▸ List.mem_singleton_self (user, use))
  have sub : (early ++ late).Sublist (early ++ current :: next :: late) := by simp
  have transplant := pair.transplant found sub
  have regrows (forest : (⟨store, early ++ current :: next :: late⟩ : Draft).Forest) :=
    pair.regrowth found sub (Draft.Forest.neighbours forest).2.1 forest
  refine ⟨fun _ => transplant.rebuild.stems, fun forest => (regrows forest).forest forest, ?_, ?_⟩
  · intro forest ordered statement member source notEarlier loads
    refine absurd loads ((regrows forest).ordered_of_early forest ordered ?_ statement member source notEarlier)
    intro statement member here donor listed dropped
    have inLate : statement ∈ late := by
      rcases List.mem_cons.mp (ordered.mem_behind rfl (sub.subset member) ⟨use, here, found⟩) with rfl | behind
      · exact absurd member (Draft.Forest.neighbours forest).2.1
      · exact behind
    have listed : donor ∈ early ++ ([current, next] ++ late) := listed
    exact Draft.pair_sublist_of_cut listed dropped inLate
  · intro forest ordered tied statement member source loads
    by_cases same : source = current
    · subst same
      rcases (regrows forest).loads forest member loads with
        ⟨id, inside, foundLoad, apart, _⟩ | ⟨here, ⟨argument, among, id, inside, foundLoad⟩ | ⟨id, changed, foundLoad⟩⟩
      · have counted : (statement, id) ∈ store.dupLoads source (early ++ source :: late) :=
          Store.mem_dupLoads.mpr ⟨by simp at member ⊢; tauto, inside, foundLoad⟩
        rw [used] at counted
        exact absurd (congrArg Prod.snd (List.mem_singleton.mp counted)) apart
      · exact .inr (.construction (pair.selfArgument among ⟨id, inside, foundLoad⟩))
      · exact absurd foundLoad (transplant.not_dupLoad (by rintro _ ⟨⟩) changed)
    · refine .inl ((regrows forest).held forest tied member loads fun held listed foundHeld => ⟨?_, ?_⟩)
      · simpa [pair.ne_next foundHeld, same] using listed
      · rintro rfl
        cases found.symm.trans foundHeld

end Pair

theorem step_sound (ran : step pool store spot = .ok (changed, cursor)) :
    Draft.Sound ⟨store, spot.keep.statements⟩ ⟨changed, cursor.statements⟩ := by
  obtain ⟨before, current, after⟩ := spot
  rcases step_ok ran with ⟨rfl, rfl⟩ | ⟨method, object, arguments, found, rfl, rfl⟩ |
    ⟨next, rest, value, object, type, method, arguments, split, pair, placed⟩
  · exact .refl _
  · have prunes : store.Prunes (Kind.call .special method (some object) arguments).children
        (Kind.construct method arguments).children :=
      .drop (.of_sublist (List.Sublist.refl _))
    obtain ⟨stems, keeps⟩ := Draft.within_seeds found prunes (by rintro _ ⟨⟩) (by rintro _ ⟨⟩)
    exact .of_keeps stems keeps
  · cases split
    unfold place at placed
    split at placed
    case h_1 unloaded =>
      cases placed
      exact pair.sound_stay pair.held (.inl rfl) fun _ => unloaded
    case h_2 user use used =>
      cases placed
      exact pair.sound_leave used
    case h_3 =>
      cases placed
      refine pair.sound_stay pair.allocated (.inr rfl) fun same => ?_
      have held := pair.held
      rw [← same, pair.allocated] at held
      cases held

end Construction

end ClassLift
