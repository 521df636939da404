import ClassLift.Proofs.Body.Equality
import ClassLift.Proofs.Body.Order
import ClassLift.Proofs.Idiom.Calls
import ClassLift.Proofs.Idiom.Increment
import ClassLift.Proofs.Idiom.Preservation

namespace ClassLift

namespace Store

variable {store : Store} {roots : List NodeId} {root id last : NodeId} {kind : Kind}

theorem Trees.postorder (trees : store.Trees roots) :
    (store.postorder roots).Pairwise fun earlier later => ¬ store.Reaches earlier later := by
  have distinct : (store.postorder roots).Nodup := postorder_perm.nodup_iff.mpr trees.distinct
  refine List.pairwise_iff_forall_sublist.mpr fun {earlier later} pair reached => ?_
  obtain ⟨root, member, inside⟩ := List.mem_flatMap.mp (postorder_perm.mem_iff.mp (pair.subset List.mem_cons_self))
  have tree := trees.of_mem member
  have ahead {last : NodeId} (reached : store.Reaches earlier last) :
      last = earlier ∨ [last, earlier].Sublist (store.postorder roots) := by
    induction reached with
    | refl => exact .inl rfl
    | @tail middle last way step continues =>
      obtain ⟨kind, found, below⟩ := step
      have fromRoot := (reaches_of_mem_preorder inside).trans way
      have known := trees.lt_size member (tree.mem_preorder_iff.mpr (fromRoot.tail found below))
      have before := trees.acyclicBelow.child_before member fromRoot found below known
      rcases continues with rfl | behind
      · exact .inr before
      · exact .inr (Draft.pair_sublist_trans distinct before behind)
  have twice : [earlier, earlier].Sublist (store.postorder roots) := by
    rcases ahead reached with rfl | behind
    · exact pair
    · exact Draft.pair_sublist_trans distinct pair behind
  simpa using distinct.sublist twice

theorem Trees.child_inside (tree : store.Trees [root]) (inside : id ∈ store.preorder root) (found : store.kind? id = some kind)
    {child : NodeId} (below : child ∈ kind.children) : child ∈ store.preorder root ∧ child ≠ root := by
  obtain ⟨treeId, _⟩ := tree.node (List.mem_singleton_self root) inside
  obtain ⟨inId, apart⟩ := treeId.mem_preorder_of_child found below (treeId.child found below).mem_preorder_self
  refine ⟨tree.preorder_subset inside inId, ?_⟩
  by_cases same : id = root
  · exact same ▸ apart
  · rintro rfl
    exact tree.not_mem_preorder inside same inId

theorem reaches_of_replace (below : ∀ child ∈ kind.children, store.Reaches id child)
    (reached : (store.replace id kind).Reaches root last) : store.Reaches root last := by
  induction reached with
  | refl => exact .refl root
  | @tail parent _ _ step continues =>
    obtain ⟨found, foundParent, child⟩ := step
    refine continues.trans ?_
    by_cases same : parent = id
    · subst same
      have old : parent < store.size := by simpa using lt_size_of_kind? foundParent
      rw [kind?_replace_self old, Option.some_inj] at foundParent
      exact below _ (foundParent ▸ child)
    · rw [kind?_replace_of_ne same] at foundParent
      exact .tail (.refl parent) foundParent child

theorem reaches_replace_of_not_reaches (reached : store.Reaches root last) (apart : ¬ store.Reaches id last) :
    (store.replace id kind).Reaches root last := by
  induction reached using Relation.ReflTransGen.head_induction_on with
  | refl => exact .refl last
  | @head parent _ step rest continues =>
    obtain ⟨found, foundParent, child⟩ := step
    have same : parent ≠ id := by
      rintro rfl
      exact apart (Relation.ReflTransGen.head ⟨found, foundParent, child⟩ rest)
    exact .trans (.tail (.refl parent) ((kind?_replace_of_ne same).trans foundParent) child) continues

end Store

namespace Draft

/-- A value that a statement holds is loaded in statements behind it only. -/
def LoadsBehind (draft : Draft) : Prop :=
  ∀ statement ∈ draft.statements, ∀ source value, draft.store.kind? source = some (.dupStore value) →
    source = statement ∨ [statement, source].Sublist draft.statements → ¬ draft.Loads statement source

/-- No node stands below two statements or twice below one, and held values are loaded behind their statements. -/
structure TreeForm (draft : Draft) : Prop where
  forest : draft.Forest
  behind : draft.LoadsBehind

variable {store : Store} {cursor : Cursor} {before after : Draft} {spot statement load source value root : NodeId}
  {seeds early late : List NodeId} {rest : List (NodeId × NodeId)}

theorem LoadsBehind.mem_behind {draft : Draft} (behind : draft.LoadsBehind) (split : draft.statements = early ++ source :: late)
    (held : draft.store.kind? source = some (.dupStore value)) (member : statement ∈ draft.statements)
    (loads : draft.Loads statement source) : statement ∈ late := by
  refine mem_right_of_not_earlier (split ▸ member) fun notEarlier => ?_
  exact behind statement member source value held (split ▸ notEarlier) loads

/-- What is dropped stood before the statement it goes to, and that statement holds nothing new. -/
theorem Regrowth.treeForm (regrowth : Regrowth before after spot seeds) (form : before.TreeForm)
    (unheld : spot ∈ after.statements → ∀ value, after.store.kind? spot ≠ some (.dupStore value))
    (first : ∀ statement ∈ after.statements, spot ∈ before.store.preorder statement → ∀ donor ∈ before.statements,
      donor ∉ after.statements → [donor, statement].Sublist before.statements) : after.TreeForm := by
  refine ⟨regrowth.forest form.forest, fun statement member source value held notEarlier loads => ?_⟩
  have listed : source ∈ after.statements := by
    rcases notEarlier with rfl | later
    · exact member
    · exact later.subset (by simp)
  have old : source < before.store.size :=
    form.forest.lt_size (regrowth.mem_before listed) (form.forest.of_mem (regrowth.mem_before listed)).mem_preorder_self
  have heldBefore : before.store.kind? source = some (.dupStore value) := by
    rw [← regrowth.kind? old fun same => unheld (same ▸ listed) value (same ▸ held)]
    exact held
  rcases regrowth.loads_before form.forest member loads with loads | ⟨here, donor, listedDonor, dropped, loads⟩
  · exact form.behind statement (regrowth.mem_before member) source value heldBefore
      (notEarlier.imp_right (·.trans regrowth.statements)) loads
  · have ahead := first statement member here donor listedDonor dropped
    refine form.behind donor listedDonor source value heldBefore (.inr ?_) loads
    rcases notEarlier with rfl | later
    · exact ahead
    · exact pair_sublist_trans form.forest.nodup ahead (later.trans regrowth.statements)

/-! ## Held values -/

theorem inlineHeld_calls (form : (⟨store, cursor.statements⟩ : Draft).TreeForm)
    (pending : Pending ⟨store, cursor.statements⟩ statement ((load, source) :: rest)) (apart : load ≠ statement) :
    let after : Draft := ⟨(store.inlineHeld cursor load source).1, (store.inlineHeld cursor load source).2.statements⟩
    after.TreeForm ∧ after.calls = (⟨store, cursor.statements⟩ : Draft).calls ∧ Pending after statement rest := by
  obtain ⟨foundLoad, reached⟩ := pending.found _ List.mem_cons_self
  have tree := form.forest.of_mem pending.listed
  have inStatement : load ∈ store.preorder statement := tree.mem_preorder_iff.mpr reached
  rcases store.inlineHeld_cases cursor load source with same | ⟨value, kind, only, listed, held, foundValue, _, same⟩
  · rw [same]
    exact ⟨form, rfl, pending.listed, (List.nodup_cons.mp pending.distinct).2, fun pair among => pending.found pair (.tail _ among)⟩
  rw [same, Cursor.statements_remove]
  have loads : (⟨store, cursor.statements⟩ : Draft).Loads statement source := ⟨load, inStatement, foundLoad⟩
  have other : statement ≠ source := fun same => form.behind source listed source value held (.inl rfl) (same ▸ loads)
  have member : statement ∈ cursor.statements.erase source := (List.mem_erase_of_ne other).mpr pending.listed
  have regrowth := regrowth_held foundLoad listed held foundValue form.forest
  refine ⟨regrowth.treeForm form ?_ ?_, ?_, pending.inlined other⟩
  · intro listedLoad
    have treeLoad := form.forest.of_mem (List.mem_of_mem_erase listedLoad)
    exact absurd (form.forest.root_unique (List.mem_of_mem_erase listedLoad) pending.listed treeLoad.mem_preorder_self inStatement)
      apart
  · intro user memberUser here donor listedDonor dropped
    obtain rfl : donor = source := by
      by_contra differs
      exact dropped ((List.mem_erase_of_ne differs).mpr listedDonor)
    obtain ⟨early, late, split⟩ := List.append_of_mem listed
    have behind := form.behind.mem_behind split held (List.mem_of_mem_erase memberUser) ⟨load, here, foundLoad⟩
    change [donor, user].Sublist cursor.statements
    rw [split]
    exact pair_sublist_of_mem_right behind
  · refine regrowth.calls_eq [source] form.forest member inStatement (List.perm_cons_erase listed) ?_
    have treeSource := form.forest.of_mem listed
    have treeValue := treeSource.child held (by simp [Kind.children, Kind.operands] : value ∈ _)
    have treeLoad := (tree.node (List.mem_singleton_self statement) inStatement).1
    rw [regrowth.calls_spot form.forest member inStatement (transplant_held foundLoad listed held foundValue).kind?_spot rfl,
      Store.calls_cons load [source], treeLoad.calls_dupLoad foundLoad, treeSource.calls_dupStore held,
      treeValue.calls_root foundValue, zero_add]

theorem foldl_inlineHeld_calls {pairs : List (NodeId × NodeId)} (form : (⟨store, cursor.statements⟩ : Draft).TreeForm)
    (pending : Pending ⟨store, cursor.statements⟩ statement pairs) (apart : ∀ pair ∈ pairs, pair.1 ≠ statement) :
    let result := pairs.foldl (fun (state : Store × Cursor) pair => state.1.inlineHeld state.2 pair.1 pair.2) (store, cursor)
    (⟨result.1, result.2.statements⟩ : Draft).TreeForm ∧
      (⟨result.1, result.2.statements⟩ : Draft).calls = (⟨store, cursor.statements⟩ : Draft).calls := by
  induction pairs generalizing store cursor with
  | nil => exact ⟨form, rfl⟩
  | cons pair rest continues =>
    obtain ⟨formNext, same, pendingNext⟩ := inlineHeld_calls form pending (apart _ List.mem_cons_self)
    obtain ⟨formLast, sameLast⟩ := continues formNext pendingNext fun pair among => apart pair (.tail _ among)
    exact ⟨formLast, sameLast.trans same⟩

theorem inlineHeldBelow_calls (form : (⟨store, cursor.statements⟩ : Draft).TreeForm) (member : statement ∈ cursor.statements)
    (inside : root ∈ store.preorder statement) (apart : root ≠ statement) :
    let result := store.inlineHeldBelow cursor root
    (⟨result.1, result.2.statements⟩ : Draft).TreeForm ∧
      (⟨result.1, result.2.statements⟩ : Draft).calls = (⟨store, cursor.statements⟩ : Draft).calls := by
  have tree := form.forest.of_mem member
  refine foldl_inlineHeld_calls form ⟨member, ?_, fun pair among => ?_⟩ fun pair among => ?_
  · exact nodup_sourcesBelow (tree.node (List.mem_singleton_self _) inside).1
  · obtain ⟨below, found⟩ := mem_sourcesBelow.mp among
    exact ⟨found, (Store.reaches_of_mem_preorder inside).trans (Store.reaches_of_mem_preorder below)⟩
  · rintro rfl
    exact tree.not_mem_preorder inside apart (mem_sourcesBelow.mp among).1

/-! ## What a sweep leaves out -/

/-- What the steps of a sweep leave out, each as trees in the store that the step found. -/
def trailWithin (step : Store → Spot → Store × Cursor) (leaves : Store → Spot → List NodeId) :
    Nat → Store → Cursor → List Draft
  | 0, _, _ => []
  | _ + 1, _, ⟨[], _⟩ => []
  | bound + 1, store, ⟨current :: before, after⟩ =>
      let spot : Spot := ⟨before, current, after⟩
      ⟨store, leaves store spot⟩ :: trailWithin step leaves bound (step store spot).1 (step store spot).2

def trail (draft : Draft) (step : Store → Spot → Store × Cursor) (leaves : Store → Spot → List NodeId) : List Draft :=
  trailWithin step leaves draft.statements.length draft.store ⟨draft.statements.reverse, []⟩

def callsOf (drafts : List Draft) : Multiset Invocation := (drafts.map calls).sum

theorem callsOf_append (one other : List Draft) : callsOf (one ++ other) = callsOf one + callsOf other := by
  simp [callsOf]

theorem callsOf_eq_zero {drafts : List Draft} : callsOf drafts = 0 ↔ ∀ draft ∈ drafts, draft.calls = 0 := by
  induction drafts with
  | nil => simp [callsOf]
  | cons draft drafts continues =>
    unfold callsOf at continues ⊢
    rw [List.map_cons, List.sum_cons, add_eq_zero_iff_of_nonneg (Multiset.zero_le _) (Multiset.zero_le _), continues,
      List.forall_mem_cons]

def Accounts (before after : Draft) (left : Multiset Invocation) : Prop :=
  before.TreeForm → after.TreeForm ∧ after.calls + left = before.calls

theorem Accounts.refl (draft : Draft) : Accounts draft draft 0 := fun form => ⟨form, add_zero _⟩

theorem Accounts.trans {middle : Draft} {one other : Multiset Invocation} (first : Accounts before middle one)
    (second : Accounts middle after other) : Accounts before after (one + other) := by
  intro form
  obtain ⟨formMiddle, sameMiddle⟩ := first form
  obtain ⟨formLast, sameLast⟩ := second formMiddle
  exact ⟨formLast, by rw [← sameMiddle, ← sameLast, add_assoc, add_comm one other]⟩

theorem sweepWithin_accounts {step : Store → Spot → Store × Cursor} {leaves : Store → Spot → List NodeId}
    (steps : ∀ store spot, Accounts ⟨store, spot.keep.statements⟩ ⟨(step store spot).1, (step store spot).2.statements⟩
      (store.calls (leaves store spot))) (bound : Nat) (store : Store) (cursor : Cursor) :
    Accounts ⟨store, cursor.statements⟩ (Id.run (sweepWithin (fun store spot => pure (step store spot)) bound store cursor))
      (callsOf (trailWithin step leaves bound store cursor)) := by
  induction bound generalizing store cursor with
  | zero => exact .refl _
  | succ bound continues =>
    obtain ⟨pending, after⟩ := cursor
    cases pending with
    | nil => exact .refl _
    | cons current before =>
      have same : (⟨current :: before, after⟩ : Cursor).statements = (Spot.mk before current after).keep.statements := by
        simp [Cursor.statements, Spot.keep]
      rw [same]
      exact (steps store ⟨before, current, after⟩).trans (continues _ _)

theorem sweep_accounts {step : Store → Spot → Store × Cursor} {leaves : Store → Spot → List NodeId}
    (steps : ∀ store spot, Accounts ⟨store, spot.keep.statements⟩ ⟨(step store spot).1, (step store spot).2.statements⟩
      (store.calls (leaves store spot))) (draft : Draft) :
    Accounts draft (Id.run (draft.sweep fun store spot => pure (step store spot))) (callsOf (draft.trail step leaves)) := by
  have accounts := sweepWithin_accounts steps draft.statements.length draft.store ⟨draft.statements.reverse, []⟩
  rw [Cursor.statements, List.reverse_reverse, List.append_nil] at accounts
  exact accounts

end Draft

namespace CompoundAssignment

variable {store : Store} {statements : List NodeId}

def copy (store : Store) (spot : Spot) : List NodeId :=
  match store.kind? spot.current with
  | some (.write place value) =>
      match operands? store value with
      | some (_, lhs, _) => if store.readsPlace place lhs then place.operands else []
      | none => []
  | _ => []

def copyOf (store : Store) (id : NodeId) : List NodeId :=
  match store.kind? id with
  | some (.assign .plain target value) =>
      match operands? store value with
      | some (_, lhs, _) => if store.equal target lhs then [lhs] else []
      | none => []
  | _ => []

theorem step_cases (store : Store) (spot : Spot) : step store spot = (store, spot.keep) ∧ copy store spot = [] ∨
    ∃ place value op lhs rhs, store.kind? spot.current = some (.write place value) ∧
      store.kind? value = some (.binary op lhs rhs) ∧ copy store spot = place.operands ∧
      step store spot = (store.replace spot.current (.assign (.compound op) lhs rhs)).inlineHeldBelow spot.keep lhs := by
  unfold step copy
  cases written : store.kind? spot.current with
  | none => exact .inl ⟨rfl, rfl⟩
  | some kind =>
    cases kind with
    | write place value =>
      cases folded : operands? store value with
      | none => exact .inl (by simp [folded])
      | some made =>
        obtain ⟨op, lhs, rhs⟩ := made
        by_cases reads : store.readsPlace place lhs = true
        · exact .inr ⟨place, value, op, lhs, rhs, rfl, operands?_eq_some folded, by simp [folded, reads], by simp [folded, reads]⟩
        · exact .inl (by simp [folded, reads])
    | _ => exact .inl ⟨rfl, rfl⟩

theorem step_accounts (store : Store) (spot : Spot) :
    Draft.Accounts ⟨store, spot.keep.statements⟩ ⟨(step store spot).1, (step store spot).2.statements⟩
      (store.calls (copy store spot)) := by
  rcases step_cases store spot with ⟨same, left⟩ | ⟨place, value, op, lhs, rhs, written, binary, left, same⟩
  · rw [same, left]
    exact .refl _
  rw [same, left]
  intro form
  have member : spot.current ∈ spot.keep.statements := by simp [Spot.keep, Cursor.statements]
  have tree : store.Trees [spot.current] := form.forest.of_mem member
  have treeValue := tree.child written (by simp [Kind.children, Kind.operands] : value ∈ _)
  have here := tree.mem_preorder_self
  have regrowth := Draft.regrowth_seeds written (fold_prunes binary) form.forest (by rintro _ ⟨⟩)
  have changed : (store.replace spot.current (.assign (.compound op) lhs rhs)).kind? spot.current =
      some (.assign (.compound op) lhs rhs) := Store.kind?_replace_self (Store.lt_size_of_kind? written)
  have treeFold := regrowth.tree_spot form.forest member here
  have formFold := regrowth.treeForm form (fun _ _ held => by cases changed.symm.trans held)
    fun _ _ _ _ listed dropped => absurd listed dropped
  have gained : (store.replace spot.current (.assign (.compound op) lhs rhs)).calls [spot.current] = store.calls [lhs, rhs] :=
    (regrowth.calls_spot form.forest member here changed rfl).trans (zero_add _)
  have lost : store.calls [spot.current] = store.calls [lhs, rhs] + store.calls place.operands := by
    rw [tree.calls_write written, treeValue.calls_binary binary, add_comm]
  have accounted := regrowth.calls_add [] form.forest member here (.refl _) ((congrArg (· + _) gained).trans lost.symm)
  obtain ⟨inside, apart⟩ := treeFold.child_inside treeFold.mem_preorder_self changed
    (by simp [Kind.children, Kind.operands] : lhs ∈ _)
  obtain ⟨formLast, kept⟩ := Draft.inlineHeldBelow_calls formFold member inside apart
  exact ⟨formLast, kept ▸ accounted⟩

theorem foldNode_cases (store : Store) (id : NodeId) : foldNode store id = store ∧ copyOf store id = [] ∨
    ∃ target value op lhs rhs, store.kind? id = some (.assign .plain target value) ∧
      store.kind? value = some (.binary op lhs rhs) ∧ copyOf store id = [lhs] ∧
      foldNode store id = store.replace id (.assign (.compound op) target rhs) := by
  unfold foldNode copyOf
  cases found : store.kind? id with
  | none => exact .inl ⟨rfl, rfl⟩
  | some kind =>
    cases kind with
    | assign op target value =>
      cases op with
      | compound op => exact .inl ⟨rfl, rfl⟩
      | plain =>
        cases folded : operands? store value with
        | none => exact .inl (by simp [folded])
        | some made =>
          obtain ⟨op, lhs, rhs⟩ := made
          by_cases same : store.equal target lhs = true
          · exact .inr ⟨target, value, op, lhs, rhs, rfl, operands?_eq_some folded, by simp [folded, same],
              by simp [folded, same]⟩
          · exact .inl (by simp [folded, same])
    | _ => exact .inl ⟨rfl, rfl⟩

theorem foldNode_accounts {statement id : NodeId} (member : statement ∈ statements) (inside : id ∈ store.preorder statement) :
    Draft.Accounts ⟨store, statements⟩ ⟨foldNode store id, statements⟩ (store.calls (copyOf store id)) := by
  rcases foldNode_cases store id with ⟨same, left⟩ | ⟨target, value, op, lhs, rhs, assigned, binary, left, same⟩
  · rw [same, left]
    exact .refl _
  rw [same, left]
  intro form
  have treeStatement := form.forest.of_mem member
  have tree : store.Trees [id] := (treeStatement.node (List.mem_singleton_self statement) inside).1
  have treeValue := tree.child assigned (by simp [Kind.children, Kind.operands] : value ∈ _)
  have prunes : store.Prunes (Kind.assign .plain target value).children (Kind.assign (.compound op) target rhs).children :=
    .keep (.open_root binary (.drop (.keep .nil)))
  have regrowth := Draft.regrowth_seeds assigned prunes form.forest (by rintro _ ⟨⟩)
  have changed : (store.replace id (.assign (.compound op) target rhs)).kind? id = some (.assign (.compound op) target rhs) :=
    Store.kind?_replace_self (Store.lt_size_of_kind? assigned)
  have formFold := regrowth.treeForm form (fun _ _ held => by cases changed.symm.trans held)
    fun _ _ _ _ listed dropped => absurd listed dropped
  have gained : (store.replace id (.assign (.compound op) target rhs)).calls [id] = store.calls [target, rhs] :=
    (regrowth.calls_spot form.forest member inside changed rfl).trans (zero_add _)
  have lost : store.calls [id] = store.calls [target, rhs] + store.calls [lhs] := by
    rw [tree.calls_assign assigned, Store.calls_cons target, treeValue.calls_binary binary, Store.calls_cons lhs [rhs],
      Store.calls_cons target [rhs]]
    abel
  exact ⟨formFold, regrowth.calls_add [] form.forest member inside (.refl _) ((congrArg (· + _) gained).trans lost.symm)⟩

theorem foldNode_reaches {id root last : NodeId} (reached : (foldNode store id).Reaches root last) : store.Reaches root last := by
  rcases foldNode_cases store id with ⟨same, _⟩ | ⟨target, value, op, lhs, rhs, assigned, binary, _, same⟩
  · rwa [same] at reached
  rw [same] at reached
  refine Store.reaches_of_replace (fun child below => ?_) reached
  have ofTarget : store.Reaches id target := .tail (.refl id) assigned (by simp [Kind.children, Kind.operands])
  have ofValue : store.Reaches id value := .tail (.refl id) assigned (by simp [Kind.children, Kind.operands])
  have among : child = target ∨ child = rhs := by simpa [Kind.children, Kind.operands, Kind.bodies] using below
  rcases among with rfl | rfl
  · exact ofTarget
  · exact ofValue.tail binary (by simp [Kind.children, Kind.operands])

theorem reaches_foldNode {id root last : NodeId} (reached : store.Reaches root last) (apart : ¬ store.Reaches id last) :
    (foldNode store id).Reaches root last := by
  rcases foldNode_cases store id with ⟨same, _⟩ | ⟨target, value, op, lhs, rhs, assigned, binary, _, same⟩
  · rwa [same]
  · rw [same]
    exact Store.reaches_replace_of_not_reaches reached apart

def trailOf : List NodeId → Store → List Draft
  | [], _ => []
  | id :: rest, store => ⟨store, copyOf store id⟩ :: trailOf rest (foldNode store id)

/-- In post-order a node is visited before anything that could cut it off. -/
theorem foldl_accounts {ids : List NodeId} (inside : ∀ id ∈ ids, ∃ statement ∈ statements, id ∈ store.preorder statement)
    (ordered : ids.Pairwise fun earlier later => ¬ store.Reaches earlier later) :
    Draft.Accounts ⟨store, statements⟩ ⟨ids.foldl foldNode store, statements⟩ (Draft.callsOf (trailOf ids store)) := by
  induction ids generalizing store with
  | nil => exact .refl _
  | cons id rest continues =>
    intro form
    obtain ⟨statement, member, here⟩ := inside id List.mem_cons_self
    obtain ⟨ahead, ordered⟩ := List.pairwise_cons.mp ordered
    have first := foldNode_accounts member here
    obtain ⟨formNext, _⟩ := first form
    refine first.trans (continues (fun later among => ?_) (ordered.imp fun apart reached => apart (foldNode_reaches reached))) form
    obtain ⟨user, listed, below⟩ := inside later (.tail _ among)
    refine ⟨user, listed, (formNext.forest.of_mem listed).mem_preorder_iff.mpr ?_⟩
    exact reaches_foldNode (Store.reaches_of_mem_preorder below) (ahead later among)

/-- The copies of targets that the recovery leaves out, each as trees in the store that the fold found. -/
def copies (draft : Draft) : List Draft :=
  let swept := Id.run (draft.sweep fun store spot => pure (step store spot))
  draft.trail step copy ++ trailOf (swept.store.postorder swept.statements) swept.store

theorem recover_accounts (draft : Draft) : draft.Accounts (recover draft) (Draft.callsOf (copies draft)) := by
  intro form
  have first := Draft.sweep_accounts step_accounts draft
  unfold recover copies
  generalize Id.run (draft.sweep fun store spot => pure (step store spot)) = swept at first ⊢
  rw [Draft.callsOf_append]
  have inside (id : NodeId) (among : id ∈ swept.store.postorder swept.statements) :=
    List.mem_flatMap.mp (Store.postorder_perm.mem_iff.mp among)
  exact first.trans (foldl_accounts inside (first form).1.forest.postorder) form

end CompoundAssignment

namespace Increment

variable {store : Store} {early late : List NodeId} {current put value target : NodeId} {increment : Kind}

def copy (store : Store) (spot : Spot) : List NodeId :=
  match store.kind? spot.current, spot.after with
  | some (.dupStore value), put :: rest =>
      match store.kind? put, held? store spot.current value put,
          store.dupLoads spot.current (spot.before.reverse ++ spot.current :: rest) with
      | some (.write place _), some _, [] | some (.write place _), some _, [_] => place.operands
      | _, _, _ => []
  | _, _ => []

theorem Steps.calls {id lhs : NodeId} (steps : Steps store id lhs) (tree : store.Trees [id]) :
    store.calls [id] = store.calls [lhs] := by
  obtain ⟨op, rhs, literal, found, constant⟩ := steps
  have treeRight := tree.child found (by simp [Kind.children, Kind.operands] : rhs ∈ _)
  rw [tree.calls_binary found, Store.calls_cons lhs [rhs], treeRight.calls_literal constant, add_zero]

namespace Pair

theorem calls (pair : Pair store current put value target increment) (treeCurrent : store.Trees [current])
    (treePut : store.Trees [put]) {place : Place} {stored : NodeId} (write : store.kind? put = some (.write place stored)) :
    store.calls [current] = store.calls [target] ∧ store.calls [put] = store.calls place.operands := by
  have treeValue := treeCurrent.child pair.held (by simp [Kind.children, Kind.operands] : value ∈ _)
  have treeStored := treePut.child write (by simp [Kind.children, Kind.operands] : stored ∈ _)
  rw [treeCurrent.calls_dupStore pair.held, treePut.calls_write write]
  rcases pair.stepped place stored write with ⟨rfl, load, steps, loaded⟩ | ⟨steps, loaded⟩
  · have treeLoad : store.Trees [load] := by
      obtain ⟨op, rhs, literal, found, _⟩ := steps
      exact treeStored.child found (by simp [Kind.children, Kind.operands])
    rw [steps.calls treeStored, treeLoad.calls_dupLoad loaded, add_zero]
    exact ⟨rfl, rfl⟩
  · rw [steps.calls treeValue, treeStored.calls_dupLoad loaded, add_zero]
    exact ⟨rfl, rfl⟩

theorem calls_spot (pair : Pair store current put value target increment) : increment.calls = 0 := by
  obtain ⟨position, delta, rfl⟩ := pair.made
  rfl

theorem ne_dupStore (pair : Pair store current put value target increment) (held : NodeId) : increment ≠ .dupStore held := by
  obtain ⟨position, delta, rfl⟩ := pair.made
  rintro ⟨⟩

theorem accounts (pair : Pair store current put value target increment) {cursor : Cursor} {spot statement : NodeId} {old : Kind}
    {place : Place} {dropped : List NodeId} (form : (⟨store, early ++ current :: put :: late⟩ : Draft).TreeForm)
    (found : store.kind? spot = some old) (sub : cursor.statements.Sublist (early ++ current :: put :: late))
    (gone : current ∉ cursor.statements) (member : statement ∈ cursor.statements) (here : spot ∈ store.preorder statement)
    (first : ∀ statement ∈ cursor.statements, spot ∈ store.preorder statement → ∀ donor ∈ early ++ current :: put :: late,
      donor ∉ cursor.statements → [donor, statement].Sublist (early ++ current :: put :: late))
    (split : (early ++ current :: put :: late).Perm (dropped ++ cursor.statements))
    (lost : store.calls (spot :: dropped) = store.calls [target] + store.calls place.operands) :
    let result := (store.replace spot increment).inlineHeldBelow cursor target
    (⟨result.1, result.2.statements⟩ : Draft).TreeForm ∧
      (⟨result.1, result.2.statements⟩ : Draft).calls + store.calls place.operands =
        (⟨store, early ++ current :: put :: late⟩ : Draft).calls := by
  intro result
  have regrowth := pair.regrowth found sub gone form.forest
  have changed : (store.replace spot increment).kind? spot = some increment :=
    Store.kind?_replace_self (Store.lt_size_of_kind? found)
  have formFold : (⟨store.replace spot increment, cursor.statements⟩ : Draft).TreeForm :=
    regrowth.treeForm form (fun _ held same => pair.ne_dupStore held (Option.some_inj.mp (changed.symm.trans same))) first
  have gained : (store.replace spot increment).calls [spot] = store.calls [target] := by
    rw [regrowth.calls_spot form.forest member here changed pair.children, pair.calls_spot, zero_add]
  have accounted := regrowth.calls_add dropped form.forest member here split ((congrArg (· + _) gained).trans lost.symm)
  obtain ⟨inside, apart⟩ := (formFold.forest.of_mem member).child_inside (regrowth.mem_spot form.forest member here) changed
    (by simp [pair.children] : target ∈ _)
  obtain ⟨formLast, kept⟩ := Draft.inlineHeldBelow_calls formFold member inside apart
  exact ⟨formLast, kept ▸ accounted⟩

theorem accounts_put (pair : Pair store current put value target increment) {before : List NodeId} {place : Place}
    {stored : NodeId} (write : store.kind? put = some (.write place stored)) :
    let result := (store.replace put increment).inlineHeldBelow ⟨before, put :: late⟩ target
    Draft.Accounts ⟨store, before.reverse ++ current :: put :: late⟩ ⟨result.1, result.2.statements⟩
      (store.calls place.operands) := by
  intro result form
  have sub : (before.reverse ++ put :: late).Sublist (before.reverse ++ ([current] ++ put :: late)) := by simp
  have treePut : store.Trees [put] := form.forest.of_mem (by simp)
  obtain ⟨ofCurrent, ofPut⟩ := pair.calls (form.forest.of_mem (by simp)) treePut write
  refine pair.accounts form write sub (Draft.Forest.neighbours form.forest).2.2.1 (by simp [Cursor.statements])
    treePut.mem_preorder_self (fun statement listed inside donor listedDonor dropped => ?_)
    (List.perm_append_comm_assoc before.reverse [current] _) ?_
  · obtain rfl : statement = put := form.forest.root_unique (sub.subset listed) (by simp) inside treePut.mem_preorder_self
    obtain rfl : donor = current := by
      simp only [Cursor.statements, List.mem_append, List.mem_cons] at listedDonor dropped
      tauto
    exact Draft.pair_sublist_of_mem_right List.mem_cons_self
  · rw [Store.calls_cons put [current], ofPut, ofCurrent, add_comm]

theorem accounts_use (pair : Pair store current put value target increment) {before : List NodeId} {place : Place}
    {stored user use : NodeId} (write : store.kind? put = some (.write place stored))
    (used : store.dupLoads current (before.reverse ++ current :: late) = [(user, use)]) :
    let result := (store.replace use increment).inlineHeldBelow ⟨before, late⟩ target
    Draft.Accounts ⟨store, before.reverse ++ current :: put :: late⟩ ⟨result.1, result.2.statements⟩
      (store.calls place.operands) := by
  intro result form
  obtain ⟨listed, inUser, foundUse⟩ := Store.mem_dupLoads.mp (used ▸ List.mem_singleton_self (user, use))
  have sub : (before.reverse ++ late).Sublist (before.reverse ++ ([current, put] ++ late)) := by simp
  have neighbours := Draft.Forest.neighbours form.forest
  have apart : user ≠ current := by
    rintro rfl
    exact form.behind user (by simp) user value pair.held (.inl rfl) ⟨use, inUser, foundUse⟩
  have member : user ∈ before.reverse ++ late := by simpa [apart] using listed
  refine pair.accounts form foundUse sub neighbours.1 member inUser (fun statement listed inside donor listedDonor dropped => ?_)
    (List.perm_append_comm_assoc before.reverse [current, put] _) ?_
  · have behind : statement ∈ put :: late :=
      form.behind.mem_behind rfl pair.held (sub.subset listed) ⟨use, inside, foundUse⟩
    have later : statement ∈ late := (List.mem_cons.mp behind).resolve_left fun same => neighbours.2.1 (same ▸ listed)
    have cut : donor ∈ before.reverse ++ ([current, put] ++ late) := listedDonor
    exact Draft.pair_sublist_of_cut cut dropped later
  · obtain ⟨ofCurrent, ofPut⟩ := pair.calls (form.forest.of_mem (by simp)) (form.forest.of_mem (by simp)) write
    have treeUse := ((form.forest.of_mem (sub.subset member)).node (List.mem_singleton_self user) inUser).1
    rw [Store.calls_cons use, treeUse.calls_dupLoad foundUse, Store.calls_cons current [put], ofPut, ofCurrent, zero_add]

end Pair

theorem bump_accounts {load next : NodeId} {slot index : Slot} {type : ValueType} {delta : Int32} {position : IncrementPosition}
    (bump : store.kind? current = some (.bump slot delta)) (inNext : load ∈ store.preorder next)
    (found : store.kind? load = some (.read (.slot type index))) :
    Draft.Accounts ⟨store, early ++ current :: next :: late⟩
      ⟨(store.allocate load (.read (.slot type index))).2.replace load (.increment position store.size delta),
        early ++ next :: late⟩ 0 := by
  intro form
  have sub : (early ++ next :: late).Sublist (early ++ ([current] ++ next :: late)) := by simp
  have regrowth := regrowth_bump position delta found form.forest
  have member : next ∈ early ++ next :: late := by simp
  have treeCurrent : store.Trees [current] := form.forest.of_mem (by simp)
  have treeNext : store.Trees [next] := form.forest.of_mem (by simp)
  have treeLoad := (treeNext.node (List.mem_singleton_self next) inNext).1
  have inside := Store.lt_size_of_kind? found
  have changed : ((store.allocate load (.read (.slot type index))).2.replace load (.increment position store.size delta)).kind? load =
      some (.increment position store.size delta) :=
    Store.kind?_replace_self (Nat.lt_of_lt_of_le inside Store.size_le_allocate)
  have treeFold := regrowth.tree_spot form.forest member inNext
  have treeRead := treeFold.child changed (by simp [Kind.children, Kind.operands] : store.size ∈ _)
  refine ⟨regrowth.treeForm form (fun _ held same => by cases changed.symm.trans same) ?_, ?_⟩
  · intro statement listed inside donor listedDonor dropped
    obtain rfl : statement = next := form.forest.root_unique (sub.subset listed) (by simp) inside inNext
    obtain rfl : donor = current := by
      simp only [List.mem_append, List.mem_cons] at listedDonor dropped
      tauto
    exact Draft.pair_sublist_of_mem_right List.mem_cons_self
  · rw [add_zero]
    refine regrowth.calls_eq [current] form.forest member inNext (List.perm_append_comm_assoc early [current] _) ?_
    have ofRead := treeRead.calls_root (Store.kind?_replace_allocate inside inside)
    have ofLoad := treeLoad.calls_root found
    have ofBump := treeCurrent.calls_root bump
    rw [treeFold.calls_root changed, Store.calls_cons load]
    simp only [Kind.calls, Kind.children, Kind.operands, Place.operands, Kind.bodies, List.flatten_nil, List.append_nil,
      Store.calls_nil, add_zero, zero_add] at ofRead ofLoad ofBump ⊢
    rw [ofRead, ofLoad, ofBump, add_zero]

theorem step_cases (targets : List Offset) (store : Store) (spot : Spot) :
    step targets store spot = (store, spot.keep) ∧ copy store spot = [] ∨
      (∃ next rest load type index position slot delta, spot.after = next :: rest ∧
        store.kind? spot.current = some (.bump slot delta) ∧ load ∈ store.preorder next ∧
        store.kind? load = some (.read (.slot type index)) ∧ copy store spot = [] ∧ step targets store spot =
          ((store.allocate load (.read (.slot type index))).2.replace load (.increment position store.size delta),
            ⟨spot.before, next :: rest⟩)) ∨
      ∃ put rest value target increment place stored, spot.after = put :: rest ∧
        Pair store spot.current put value target increment ∧ store.kind? put = some (.write place stored) ∧
        copy store spot = place.operands ∧
        (step targets store spot = (store.replace put increment).inlineHeldBelow ⟨spot.before, put :: rest⟩ target ∨
          ∃ user use, store.dupLoads spot.current (spot.before.reverse ++ spot.current :: rest) = [(user, use)] ∧
            step targets store spot = (store.replace use increment).inlineHeldBelow ⟨spot.before, rest⟩ target) := by
  obtain ⟨before, current, after⟩ := spot
  cases located : store.node? current with
  | none => exact .inl (by simp [step, copy, Store.kind?, located])
  | some node =>
    have found := Store.kind?_of_node? located
    cases same : node.kind with
    | dupStore value =>
      rw [same] at found
      cases after with
      | nil => exact .inl (by simp [step, copy, foldHeld, found, located, same])
      | cons put rest =>
        cases folded : held? store current value put with
        | none => exact .inl (by simp [step, copy, foldHeld, found, located, same, folded])
        | some made =>
          obtain ⟨increment, target⟩ := made
          have pair := held?_eq_some found folded
          obtain ⟨place, stored, write⟩ := pair.write
          cases counted : store.dupLoads current (before.reverse ++ current :: rest) with
          | nil =>
            refine .inr (.inr ⟨put, rest, value, target, increment, place, stored, rfl, pair, write, ?_, .inl ?_⟩)
            · simp [copy, found, folded, write, counted]
            · simp [step, foldHeld, located, same, folded, counted]
          | cons first others =>
            obtain ⟨user, use⟩ := first
            cases others with
            | nil =>
              refine .inr (.inr ⟨put, rest, value, target, increment, place, stored, rfl, pair, write, ?_,
                .inr ⟨user, use, counted, ?_⟩⟩)
              · simp [copy, found, folded, write, counted]
              · simp [step, foldHeld, located, same, folded, counted]
            | cons => exact .inl (by simp [step, copy, foldHeld, found, located, same, folded, write, counted])
    | bump slot delta =>
      rw [same] at found
      have nothing : copy store ⟨before, current, after⟩ = [] := by simp [copy, found]
      by_cases single : delta = 1 ∨ delta = -1
      · have folds : step targets store ⟨before, current, after⟩ =
            foldBump targets store ⟨before, current, after⟩ node slot delta := by simp [step, located, same, single]
        rcases foldBump_cases targets store ⟨before, current, after⟩ node slot delta with
          stays | ⟨next, rest, load, type, index, position, split, inNext, isRead, moved⟩
        · exact .inl ⟨folds.trans stays, nothing⟩
        · exact .inr (.inl ⟨next, rest, load, type, index, position, slot, delta, split, found, inNext, isRead, nothing,
            folds.trans moved⟩)
      · exact .inl ⟨by simp [step, located, same, single], nothing⟩
    | _ => exact .inl (by simp [step, copy, found, located, same])

theorem step_accounts (targets : List Offset) (store : Store) (spot : Spot) :
    Draft.Accounts ⟨store, spot.keep.statements⟩ ⟨(step targets store spot).1, (step targets store spot).2.statements⟩
      (store.calls (copy store spot)) := by
  obtain ⟨before, current, after⟩ := spot
  rcases step_cases targets store ⟨before, current, after⟩ with
    ⟨same, left⟩ | ⟨next, rest, load, type, index, position, slot, delta, rfl, bump, inNext, isRead, left, same⟩ |
      ⟨put, rest, value, target, increment, place, stored, rfl, pair, write, left, same | ⟨user, use, used, same⟩⟩
  · rw [same, left]
    exact .refl _
  · rw [same, left]
    exact bump_accounts bump inNext isRead
  · rw [same, left]
    exact pair.accounts_put write
  · rw [same, left]
    exact pair.accounts_use write used

/-- The copies of targets that the recovery leaves out, each as trees in the store that the fold found. -/
def copies (handlers : List Handler) (draft : Draft) : List Draft := draft.trail (step (draft.jumpTargets handlers)) copy

theorem recover_accounts (handlers : List Handler) (draft : Draft) :
    draft.Accounts (recover handlers draft) (Draft.callsOf (copies handlers draft)) :=
  Draft.sweep_accounts (step_accounts _) draft

end Increment

namespace Draft

theorem Ordered.loadsBehind {draft : Draft} (ordered : draft.Ordered) : draft.LoadsBehind :=
  fun statement member source _ _ notEarlier => ordered statement member source notEarlier

/-- All calls are kept exactly if nothing that is left out calls anything. -/
theorem Accounts.calls_eq_iff {before after : Draft} {left : List Draft} (accounts : Accounts before after (callsOf left))
    (form : before.TreeForm) : after.calls = before.calls ↔ ∀ copy ∈ left, copy.calls = 0 := by
  rw [← (accounts form).2, eq_comm, add_eq_left, callsOf_eq_zero]

/-- The assignments, array literals and conditionals of a body call what the body called. Compound assignments and increments
call as much except for the copies of their targets that are left out, so they keep all calls exactly if those call nothing. -/
theorem recover_calls (handlers : List Handler) {draft : Draft} (form : draft.TreeForm) :
    (Assignment.recover draft).calls = draft.calls ∧ (ArrayLiteral.recover draft).calls = draft.calls ∧
      (∀ after, Conditional.recover draft = .ok after → after.calls = draft.calls) ∧
      ((CompoundAssignment.recover draft).calls + callsOf (CompoundAssignment.copies draft) = draft.calls ∧
        ((CompoundAssignment.recover draft).calls = draft.calls ↔
          ∀ copy ∈ CompoundAssignment.copies draft, copy.calls = 0)) ∧
      (Increment.recover handlers draft).calls + callsOf (Increment.copies handlers draft) = draft.calls ∧
        ((Increment.recover handlers draft).calls = draft.calls ↔ ∀ copy ∈ Increment.copies handlers draft, copy.calls = 0) := by
  refine ⟨(Assignment.recover_keepsCalls draft form.forest).2, (ArrayLiteral.recover_keepsCalls draft form.forest).2,
    fun after ran => (Conditional.recover_keepsCalls ran form.forest).2, ?_, ?_⟩
  · have accounts := CompoundAssignment.recover_accounts draft
    exact ⟨(accounts form).2, accounts.calls_eq_iff form⟩
  · have accounts := Increment.recover_accounts handlers draft
    exact ⟨(accounts form).2, accounts.calls_eq_iff form⟩

/-- `g().f = g().f + 2`, which evaluates `g()` twice. -/
def twoCalls : Draft where
  store := ⟨#[⟨0, none, .call .static 9 none []⟩, ⟨3, none, .call .static 9 none []⟩, ⟨6, none, .read (.field 8 1)⟩,
    ⟨9, none, .literal (.int 2)⟩, ⟨10, none, .binary .add 2 3⟩, ⟨11, none, .write (.field 8 0) 4⟩, ⟨14, none, .ret none⟩]⟩
  statements := [5, 6]

/-- `held := g().f; g().f = held + 1; return held`. -/
def twoCallsHeld : Draft where
  store := ⟨#[⟨0, none, .call .static 9 none []⟩, ⟨3, none, .read (.field 8 0)⟩, ⟨6, none, .dupStore 1⟩,
    ⟨7, none, .call .static 9 none []⟩, ⟨10, none, .dupLoad 2⟩, ⟨11, none, .literal (.int 1)⟩, ⟨12, none, .binary .add 4 5⟩,
    ⟨13, none, .write (.field 8 3) 6⟩, ⟨16, none, .dupLoad 2⟩, ⟨17, none, .ret (some 8)⟩]⟩
  statements := [2, 7, 9]

theorem twoCalls_treeForm : twoCalls.TreeForm where
  forest := Store.Lists.trees (.cons rfl (.cons rfl .nil (.cons rfl (.cons rfl (.cons rfl .nil .nil) (.cons rfl .nil .nil)) .nil))
    (.cons rfl .nil .nil)) (by decide)
  behind := Ordered.loadsBehind (by decide)

theorem twoCallsHeld_treeForm : twoCallsHeld.TreeForm where
  forest := Store.Lists.trees (.cons rfl (.cons rfl (.cons rfl .nil .nil) .nil)
    (.cons rfl (.cons rfl .nil (.cons rfl (.cons rfl .nil (.cons rfl .nil .nil)) .nil)) (.cons rfl (.cons rfl .nil .nil) .nil)))
    (by decide)
  behind := Ordered.loadsBehind (by decide)

-- The one comparison of each recovery is settled at a depth, then the rest evaluates.
theorem twoCalls_recover : CompoundAssignment.recover twoCalls =
    ⟨twoCalls.store.replace 5 (.assign (.compound .add) 2 3), [5, 6]⟩ := by
  have same : twoCalls.store.equal 0 1 = true := Store.equal_iff.mpr ⟨2, by decide⟩
  have step : CompoundAssignment.step twoCalls.store ⟨[], 5, [6]⟩ =
      (twoCalls.store.replace 5 (.assign (.compound .add) 2 3)).inlineHeldBelow ⟨[], [5, 6]⟩ 2 := by
    change (if (8 == 8 && twoCalls.store.equal 0 1) = true then _ else _) = _
    rw [same]
    rfl
  have swept : Id.run (twoCalls.sweep fun store spot => pure (CompoundAssignment.step store spot)) =
      ⟨twoCalls.store.replace 5 (.assign (.compound .add) 2 3), [5, 6]⟩ := by
    change Id.run (sweepWithin (fun store spot => (pure (CompoundAssignment.step store spot) : Id _)) 0
      (CompoundAssignment.step twoCalls.store ⟨[], 5, [6]⟩).1 (CompoundAssignment.step twoCalls.store ⟨[], 5, [6]⟩).2) = _
    rw [step]
    rfl
  rw [CompoundAssignment.recover, swept]
  rfl

theorem twoCallsHeld_held : Increment.held? twoCallsHeld.store 2 1 7 = some (.increment .post 1 1, 1) := by
  have same : twoCallsHeld.store.equal 3 0 = true := Store.equal_iff.mpr ⟨2, by decide⟩
  have posts : Increment.post? twoCallsHeld.store 2 1 (.field 8 3) 6 = some (1, 1) := by
    change (if (true && (8 == 8 && twoCallsHeld.store.equal 3 0)) = true then _ else _) = _
    rw [same]
    rfl
  have put : twoCallsHeld.store.kind? 7 = some (.write (.field 8 3) 6) := rfl
  simp only [Increment.held?, put, posts]

theorem twoCallsHeld_step : Increment.step [] twoCallsHeld.store ⟨[], 2, [7, 9]⟩ =
    (twoCallsHeld.store.replace 8 (.increment .post 1 1)).inlineHeldBelow ⟨[], [9]⟩ 1 := by
  have folds : Increment.step [] twoCallsHeld.store ⟨[], 2, [7, 9]⟩ = Increment.foldHeld twoCallsHeld.store ⟨[], 2, [7, 9]⟩ 1 := rfl
  rw [folds, Increment.foldHeld]
  simp only [twoCallsHeld_held]
  rfl

theorem twoCallsHeld_recover : Increment.recover [] twoCallsHeld =
    ⟨twoCallsHeld.store.replace 8 (.increment .post 1 1), [9]⟩ := by
  change Id.run (sweepWithin (fun store spot => (pure (Increment.step [] store spot) : Id _)) 0
    (Increment.step [] twoCallsHeld.store ⟨[], 2, [7, 9]⟩).1 (Increment.step [] twoCallsHeld.store ⟨[], 2, [7, 9]⟩).2) = _
  rw [twoCallsHeld_step]
  rfl

theorem twoCallsHeld_copies : Increment.copies [] twoCallsHeld =
    [⟨twoCallsHeld.store, []⟩, ⟨twoCallsHeld.store, []⟩, ⟨twoCallsHeld.store, [3]⟩] := by
  have left : Increment.copy twoCallsHeld.store ⟨[], 2, [7, 9]⟩ = [3] := by
    have source : twoCallsHeld.store.kind? 2 = some (.dupStore 1) := rfl
    have put : twoCallsHeld.store.kind? 7 = some (.write (.field 8 3) 6) := rfl
    simp only [Increment.copy, source, put, twoCallsHeld_held]
    rfl
  change [_, _, (⟨twoCallsHeld.store, Increment.copy twoCallsHeld.store ⟨[], 2, [7, 9]⟩⟩ : Draft)] = _
  rw [left]
  rfl

theorem twoCallsHeld_accounted : (Increment.recover [] twoCallsHeld).calls + {.call .static 9} = twoCallsHeld.calls ∧
    ∃ copy ∈ Increment.copies [] twoCallsHeld, copy.calls = {.call .static 9} := by
  obtain ⟨_, _, _, _, accounted, _⟩ := recover_calls [] twoCallsHeld_treeForm
  rw [twoCallsHeld_copies] at accounted ⊢
  exact ⟨accounted, ⟨twoCallsHeld.store, [3]⟩, by simp, by decide⟩

theorem recover_drops_call :
    (twoCalls.TreeForm ∧ twoCalls.calls = {.call .static 9, .call .static 9} ∧
      (CompoundAssignment.recover twoCalls).calls = {.call .static 9}) ∧
    twoCallsHeld.TreeForm ∧ twoCallsHeld.calls = {.call .static 9, .call .static 9} ∧
      (Increment.recover [] twoCallsHeld).calls = {.call .static 9} := by
  rw [twoCalls_recover, twoCallsHeld_recover]
  exact ⟨⟨twoCalls_treeForm, by decide, by decide⟩, twoCallsHeld_treeForm, by decide, by decide⟩

end Draft

end ClassLift
