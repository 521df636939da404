import ClassLift.Idiom.ClassLiteral
import ClassLift.Idiom.Conditional
import ClassLift.Proofs.Idiom.InPlace
import ClassLift.Proofs.Idiom.Overlooked

namespace ClassLift

variable {store grown changed : Store} {early late statements : List NodeId}

namespace ClassLiteral

variable {home : ClassId} {table last : ClassTable} {spot : Spot} {cursor : Cursor}
  {branch held put pending jump use read call : NodeId} {kind : Kind}

structure Cached (store grown : Store) (branch held put pending jump use read call : NodeId) (cache : PoolIndex) (kind : Kind) :
    Prop where
  held : store.kind? held = some (.dupStore call)
  called : ∃ method object arguments, store.kind? call = some (.call .static method object arguments)
  unheld : ∀ other ∈ [branch, put, pending, jump], ∀ value, store.kind? other ≠ some (.dupStore value)
  inside : read ∈ store.preorder use
  isRead : store.kind? read = some (.read (.static cache))
  sprouts : Sprouts store read kind grown

theorem tested?_eq_some {cache : PoolIndex} (tested : tested? store branch = some cache) (value : NodeId) :
    store.kind? branch ≠ some (.dupStore value) := by
  intro found
  simp [tested?, found] at tested

theorem heldCall?_eq_some {method : PoolIndex} {arguments : List NodeId} (called : heldCall? store held = some (method, arguments)) :
    ∃ call object, store.kind? held = some (.dupStore call) ∧ store.kind? call = some (.call .static method object arguments) := by
  unfold heldCall? at called
  split at called
  case h_2 => cases called
  case h_1 call found =>
    split at called
    case h_2 => cases called
    case h_1 foundCall =>
      cases called
      exact ⟨call, _, found, foundCall⟩

theorem isCacheRead_eq_true {cache : PoolIndex} {offset : Offset} {node : Node} (reads : isCacheRead cache offset node = true) :
    node.kind = .read (.static cache) := by
  unfold isCacheRead at reads
  split at reads
  case h_1 field same =>
    simp only [Bool.and_eq_true, beq_iff_eq] at reads
    rw [same, reads.2]
  case h_2 => simp at reads

theorem foldCached_ok (ran : foldCached home store spot table = (.ok (changed, cursor), last)) :
    changed = store ∧ cursor = spot.keep ∨ ∃ held put pending jump use rest read call cache kind grown,
      spot.after = held :: put :: pending :: jump :: use :: rest ∧
      Cached store grown spot.current held put pending jump use read call cache kind ∧
      changed = grown.replace read kind ∧ cursor = ⟨spot.before, use :: rest⟩ := by
  have stays {table last : ClassTable} (ran : (pure (store, spot.keep) : OnTable _) table = (.ok (changed, cursor), last)) :
      changed = store ∧ cursor = spot.keep := Prod.mk.inj (OnTable.return_ok ran).1
  unfold foldCached at ran
  rcases tested : tested? store spot.current with _ | cache
  · simp only [tested] at ran
    exact .inl (stays ran)
  simp only [tested] at ran
  match split : spot.after, ran with
  | [], ran | [_], ran | [_, _], ran | [_, _, _], ran | [_, _, _, _], ran => exact .inl (stays ran)
  | held :: put :: pending :: jump :: use :: rest, ran =>
    rcases called : heldCall? store held with _ | ⟨helper, arguments⟩
    · simp only [called] at ran
      exact .inl (stays ran)
    simp only [called, OnTable.pool_bind_ok, OnTable.read_bind_ok] at ran
    obtain ⟨_ | name, _, ran⟩ := ran
    · exact .inl (stays ran)
    rcases writes : isCacheWrite store cache held put with _ | _
    · simp only [writes] at ran
      exact .inl (stays ran)
    rcases first : second? store held pending with _ | second
    · simp only [writes, first] at ran
      exact .inl (stays ran)
    rcases jumps : (store.kind? jump).any Kind.isGoto with _ | _
    · simp only [writes, first, jumps] at ran
      exact .inl (stays ran)
    simp only [writes, first, jumps, Bool.not_true, Bool.false_eq_true, if_false] at ran
    rcases located : store.find? (isCacheRead cache second) use with _ | read
    · simp only [located] at ran
      exact absurd ran (by simp [throw_ok])
    simp only [located] at ran
    obtain ⟨⟨kind, grown⟩, _, made, ran⟩ := bind_ok.mp ran
    obtain ⟨_, _, _, ran⟩ := bind_ok.mp ran
    obtain ⟨_, _, _, ran⟩ := bind_ok.mp ran
    obtain ⟨same, _⟩ := OnTable.return_ok ran
    cases same
    obtain ⟨call, object, foundHeld, foundCall⟩ := heldCall?_eq_some called
    obtain ⟨inside, node, foundRead, reads⟩ := Store.find?_eq_some located
    have foundKind := isCacheRead_eq_true reads ▸ Store.kind?_of_node? foundRead
    refine .inr ⟨held, put, pending, jump, use, rest, read, call, cache, kind, grown, rfl, ?_, rfl, rfl⟩
    refine ⟨foundHeld, ⟨_, _, _, foundCall⟩, fun other among value found => ?_, inside, foundKind,
      literal_sprouts (Store.lt_size_of_kind? foundKind) made⟩
    simp only [List.mem_cons, List.not_mem_nil, or_false] at among
    rcases among with rfl | rfl | rfl | rfl
    · exact tested?_eq_some tested value found
    · simp [isCacheWrite, found] at writes
    · simp [second?, found] at first
    · simp [found, Kind.isGoto] at jumps

namespace Cached

variable {cache : PoolIndex} (cached : Cached store grown branch held put pending jump use read call cache kind)
include cached

theorem transplant (early late : List NodeId) : Draft.Transplant store grown
    (early ++ ([branch, held, put, pending, jump] ++ use :: late))
    (early ++ use :: late) read (.read (.static cache)) kind [] [] [] (· = read) Kind.Plain where
  found := cached.isRead
  fewer_sublist := (List.sublist_append_right _ _).append_left early
  own_sublist := List.nil_sublist _
  donors_sublist := List.nil_sublist _
  prunes := .nil
  adds := cached.sprouts.adds
  children child below := .inr (cached.sprouts.children child below)
  placed _ same := .inl same

theorem regrowth (forest : (⟨store, early ++ ([branch, held, put, pending, jump] ++ use :: late)⟩ : Draft).Forest) :
    Draft.Regrowth ⟨store, early ++ ([branch, held, put, pending, jump] ++ use :: late)⟩
      ⟨grown.replace read kind, early ++ use :: late⟩ read [] := by
  have transplant := cached.transplant early late
  refine transplant.regrowth forest (by simp) ?_ fun _ _ => ?_
  · rintro made source (rfl | plain) same
    · exact absurd same (cached.sprouts.plain source)
    · exact absurd same (plain source)
  · obtain ⟨below, lists, distinct, new⟩ :=
      cached.sprouts.listed (grown.replace read kind) fun other new _ => transplant.kind?_fresh new
    exact ⟨below, below, lists, by simp, distinct, new⟩

theorem sound : Draft.Sound ⟨store, early ++ branch :: held :: put :: pending :: jump :: use :: late⟩
    ⟨grown.replace read kind, early ++ use :: late⟩ := by
  have transplant := cached.transplant early late
  refine ⟨fun _ => transplant.rebuild.stems, fun forest => (cached.regrowth forest).forest forest, ?_, ?_⟩
  · intro forest ordered statement member source notEarlier loads
    refine absurd loads ((cached.regrowth forest).ordered_of_cut _ forest ordered ?_ statement member source notEarlier)
    intro statement member here
    have same : statement = use :=
      forest.root_unique (transplant.fewer_sublist.subset member) (by simp) here cached.inside
    exact same ▸ List.mem_cons_self
  · intro forest ordered tied statement member source loads
    have unheld (value : NodeId) : store.kind? read ≠ some (.dupStore value) := by simp [cached.isRead]
    refine ((cached.regrowth forest).held_or_cut _ forest tied unheld member loads).imp_right ?_
    rintro ⟨among, value, foundSource⟩
    obtain rfl : source = held := by
      by_contra apart
      exact cached.unheld source (by simpa [apart] using among) value foundSource
    obtain ⟨method, object, arguments, foundCall⟩ := cached.called
    rcases (cached.regrowth forest).loads forest member loads with
      ⟨id, inside, found, _⟩ | ⟨here, ⟨seed, chosen, _⟩ | ⟨id, changed, found⟩⟩
    · rcases List.mem_append.mp member with inEarly | behind
      · refine absurd ⟨id, inside, found⟩ (ordered statement (by simp [inEarly]) source (.inr ?_))
        exact List.append_cons early branch _ ▸ Draft.pair_sublist_of_mem_left (List.mem_append_left _ inEarly)
      · exact .lookup rfl cached.held foundCall behind ⟨id, inside, found⟩
    · cases chosen
    · exact absurd found (transplant.not_dupLoad cached.sprouts.plain changed)

end Cached

theorem foldCached_sound (ran : foldCached home store spot table = (.ok (changed, cursor), last)) :
    Draft.Sound ⟨store, spot.keep.statements⟩ ⟨changed, cursor.statements⟩ := by
  obtain ⟨before, current, after⟩ := spot
  rcases foldCached_ok ran with ⟨rfl, rfl⟩ |
    ⟨held, put, pending, jump, use, rest, read, call, cache, kind, grown, split, cached, rfl, rfl⟩
  · exact .refl _
  · cases split
    exact cached.sound

end ClassLiteral

/-! ## Conditional expressions -/

section Negate

variable {id other : NodeId} {kind : Kind}

theorem Kind.children_negateTest (kind : Kind) : kind.negateTest.children = kind.children := by
  cases kind with
  | branch test target => cases test <;> rfl
  | _ => rfl

theorem Kind.negateTest_eq_iff {made : Kind} (unbranched : made.isBranch = false) : kind.negateTest = made ↔ kind = made := by
  cases kind with
  | branch test target =>
    constructor
    · rintro rfl
      cases unbranched
    · rintro rfl
      cases unbranched
  | _ => exact .rfl

namespace Store

theorem kind?_negate_eq_some (unbranched : kind.isBranch = false) :
    (store.negate id).kind? other = some kind ↔ store.kind? other = some kind := by
  rw [kind?_negate]
  split
  case isTrue same => simp [same, Option.map_eq_some_iff, Kind.negateTest_eq_iff unbranched]
  case isFalse => rfl

theorem preorder_negate (root : NodeId) : (store.negate id).preorder root = store.preorder root := by
  have within (depth : Nat) (root : NodeId) : (store.negate id).preorderWithin depth root = store.preorderWithin depth root := by
    induction depth generalizing root with
    | zero => rfl
    | succ depth continues =>
      have same : (store.negate id).preorderWithin depth = store.preorderWithin depth := funext continues
      unfold preorderWithin
      rw [same, kind?_negate]
      by_cases atId : root = id
      · subst atId
        cases store.kind? root <;> simp [Kind.children_negateTest]
      · rw [if_neg atId]
  unfold preorder
  rw [size_negate, within]

theorem negate_replace (unbranched : kind.isBranch = false) :
    (store.negate id).replace other kind = (store.replace other kind).negate id := by
  have stays : kind.negateTest = kind := (Kind.negateTest_eq_iff unbranched).mpr rfl
  refine congrArg Store.mk (Array.ext_getElem? fun index => ?_)
  simp only [replace, negate, Array.getElem?_modify]
  by_cases first : id = index
  · by_cases second : other = index
    · simp [first, second, Function.comp_def, stays]
    · simp [first, second]
  · simp [first]

end Store

theorem Draft.Sound.negate {before : Draft} (sound : Sound before ⟨store, statements⟩) (found : store.kind? id = some kind)
    (unheld : ∀ value, kind ≠ .dupStore value) : Sound before ⟨store.negate id, statements⟩ := by
  have within : Stems ⟨store, statements⟩ ⟨store.negate id, statements⟩ ∧ Keeps ⟨store, statements⟩ ⟨store.negate id, statements⟩ := by
    rw [Store.negate_eq_replace found]
    refine Draft.within_seeds found ?_ unheld fun source same => ⟨id, ?_, .refl id⟩
    · rw [Kind.children_negateTest]
      exact .of_sublist (List.Sublist.refl _)
    · rw [found, (Kind.negateTest_eq_iff rfl).mp same]
  have loads {statement source : NodeId} (loads : (⟨store.negate id, statements⟩ : Draft).Loads statement source) :
      (⟨store, statements⟩ : Draft).Loads statement source := by
    obtain ⟨load, inside, found⟩ := loads
    exact ⟨load, Store.preorder_negate statement ▸ inside, (Store.kind?_negate_eq_some rfl).mp found⟩
  refine ⟨fun closed => ?_, fun forest => ?_, fun forest ordered statement member source notEarlier loaded => ?_,
    fun forest ordered tied statement member source loaded => ?_⟩
  · exact (sound.stems closed).trans within.1
  · exact within.2.forest (sound.forest forest)
  · exact sound.ordered forest ordered statement member source notEarlier (loads loaded)
  · refine (sound.tied forest ordered tied statement member source (loads loaded)).imp_left ?_
    rintro ⟨listed, value, found⟩
    exact ⟨listed, value, (Store.kind?_negate_eq_some rfl).mpr found⟩

end Negate

namespace Conditional

variable {spot : Spot} {cursor : Cursor} {branch pending jump use ifTrue ifFalse : NodeId} {second : Offset} {kind : Kind}

structure Choice (store : Store) (branch pending jump use ifTrue ifFalse : NodeId) (second : Offset) (kind : Kind) : Prop where
  first : store.kind? pending = some (.pendingConditional ifTrue second)
  branches : ∃ kind, store.kind? branch = some kind
  unheld : ∀ other ∈ [branch, pending, jump], ∀ value, store.kind? other ≠ some (.dupStore value)
  inside : ifFalse ∈ store.preorder use
  offset : store.offset? ifFalse = some second
  other : store.kind? ifFalse = some kind
  jumps : (store.kind? jump).any Kind.isGoto = true

theorem step_ok (ran : step store spot = .ok (changed, cursor)) :
    changed = store ∧ cursor = spot.keep ∨ ∃ pending jump use rest ifTrue ifFalse second kind,
      spot.after = pending :: jump :: use :: rest ∧
      Choice store spot.current pending jump use ifTrue ifFalse second kind ∧
      changed = fold store spot.current ifTrue ifFalse kind ∧ cursor = ⟨spot.before, use :: rest⟩ := by
  have stays {result : Store × Cursor} (same : (Except.ok result : Except MethodError _) = .ok (changed, cursor))
      (unchanged : result = (store, spot.keep)) : changed = store ∧ cursor = spot.keep := by
    cases same
    exact Prod.mk.inj unchanged
  unfold step at ran
  rcases branches : (store.kind? spot.current).any Kind.isBranch with _ | _
  · simp only [branches] at ran
    exact .inl (stays ran rfl)
  simp only [branches, Bool.not_true, Bool.false_eq_true, if_false] at ran
  match split : spot.after, ran with
  | [], ran | [_], ran => exact .inl (stays ran rfl)
  | pending :: jump :: rest, ran =>
    rcases first : pending? store pending with _ | ⟨ifTrue, second⟩
    · simp only [first] at ran
      exact .inl (stays ran rfl)
    rcases jumps : (store.kind? jump).any Kind.isGoto with _ | _
    · simp only [first, jumps] at ran
      exact .inl (stays ran rfl)
    simp only [first, jumps, Bool.not_true, Bool.false_eq_true, if_false] at ran
    cases rest with
    | nil => cases ran
    | cons use rest =>
      rcases located : store.find? (fun node => node.offset == second) use with _ | ifFalse
      · simp only [located] at ran
        exact .inl (stays ran rfl)
      obtain ⟨inside, node, found, here⟩ := Store.find?_eq_some located
      simp only [located, Store.kind?_of_node? found] at ran
      cases ran
      refine .inr ⟨pending, jump, use, rest, ifTrue, ifFalse, second, node.kind, rfl, ?_, rfl, rfl⟩
      have foundPending : store.kind? pending = some (.pendingConditional ifTrue second) := by
        unfold pending? at first
        split at first
        · cases first
          assumption
        · cases first
      obtain ⟨_, foundBranch⟩ : ∃ kind, store.kind? spot.current = some kind :=
        Option.isSome_iff_exists.mp (Option.isSome_of_any branches)
      refine ⟨foundPending, ⟨_, foundBranch⟩, fun other among value held => ?_, inside, ?_, Store.kind?_of_node? found, jumps⟩
      · simp only [List.mem_cons, List.not_mem_nil, or_false] at among
        rcases among with rfl | rfl | rfl
        · simp [held, Kind.isBranch] at branches
        · cases foundPending.symm.trans held
        · simp [held, Kind.isGoto] at jumps
      · simpa [Store.offset?, found] using here

namespace Choice

variable (choice : Choice store branch pending jump use ifTrue ifFalse second kind)
include choice

theorem transplant (early late : List NodeId) : Draft.Transplant store (store.allocate ifFalse kind).2
    (early ++ ([branch, pending, jump] ++ use :: late)) (early ++ use :: late) ifFalse kind
    (.conditional branch ifTrue store.size) kind.children [branch, pending] (kind.children ++ [branch, ifTrue])
    (· = ifFalse) (· = kind) := by
  have inside := Store.lt_size_of_kind? choice.other
  refine ⟨choice.other, (List.sublist_append_right _ _).append_left early, .refl _, ?_, ?_, ?_, ?_, fun _ same => .inl same⟩
  · have pair : [branch, pending].Sublist ([branch, pending, jump] ++ use :: late) := by simp
    exact pair.trans (List.sublist_append_right early _)
  · exact .append (.of_sublist (List.Sublist.refl _)) (.keep (.open_root choice.first (.keep .nil)))
  · exact .allocate .none inside rfl rfl fun child below => .inl (List.mem_append_left _ below)
  · intro child below
    have among : child = branch ∨ child = ifTrue ∨ child = store.size := by
      simpa [Kind.children, Kind.operands, Kind.bodies] using below
    rcases among with rfl | rfl | rfl
    · exact .inl (by simp)
    · exact .inl (by simp)
    · exact .inr ⟨Nat.le_refl _, Store.size_lt_allocate inside⟩

theorem regrowth (forest : (⟨store, early ++ ([branch, pending, jump] ++ use :: late)⟩ : Draft).Forest) :
    Draft.Regrowth ⟨store, early ++ ([branch, pending, jump] ++ use :: late)⟩
      ⟨(store.allocate ifFalse kind).2.replace ifFalse (.conditional branch ifTrue store.size), early ++ use :: late⟩ ifFalse
      (kind.children ++ [branch, ifTrue]) := by
  have transplant := choice.transplant early late
  have inside := Store.lt_size_of_kind? choice.other
  refine transplant.regrowth forest ?_ ?_ fun trees outside => ?_
  · intro donor among
    exact forest.not_mem_of_cut (by simp only [List.mem_cons, List.not_mem_nil, or_false] at among ⊢; tauto)
  · rintro made source (rfl | rfl) same
    · cases same
    · exact ⟨ifFalse, same ▸ choice.other, .inl (.refl ifFalse)⟩
  · obtain ⟨ofKind, others, _⟩ := trees.append_inv
    obtain ⟨ofBranch, ofTrue, _⟩ := others.cons_inv
    simp only [List.flatMap_append, List.flatMap_cons, List.flatMap_nil, List.append_nil, List.mem_append, not_or] at outside
    have listedBranch := transplant.lists ofBranch (by simpa using outside.2.1)
    have listedTrue := transplant.lists ofTrue (by simpa using outside.2.2)
    have listedMoved : Store.Lists _ [store.size] _ :=
      .cons (Store.kind?_replace_allocate inside inside) (transplant.lists ofKind outside.1) .nil
    refine ⟨_, [store.size], listedBranch.append (listedTrue.append listedMoved), ?_, by simp, by simp⟩
    have exchanged {values moved : List NodeId} : (values ++ store.size :: moved).Perm (store.size :: (moved ++ values)) :=
      List.perm_middle.trans (List.perm_append_comm.cons store.size)
    simpa using @exchanged (store.preorder branch ++ store.preorder ifTrue) (kind.children.flatMap store.preorder)

omit choice in
theorem fold_eq : fold store branch ifTrue ifFalse kind =
    ((store.allocate ifFalse kind).2.replace ifFalse (.conditional branch ifTrue store.size)).negate branch := by
  rw [← Store.negate_replace rfl, ← Store.allocate_fst]
  rfl

theorem sound : Draft.Sound ⟨store, early ++ branch :: pending :: jump :: use :: late⟩
    ⟨fold store branch ifTrue ifFalse kind, early ++ use :: late⟩ := by
  have transplant := choice.transplant early late
  have inside := Store.lt_size_of_kind? choice.other
  rw [fold_eq]
  have folded : Draft.Sound ⟨store, early ++ ([branch, pending, jump] ++ use :: late)⟩
      ⟨(store.allocate ifFalse kind).2.replace ifFalse (.conditional branch ifTrue store.size), early ++ use :: late⟩ := by
    refine ⟨fun _ => transplant.rebuild.stems, fun forest => (choice.regrowth forest).forest forest, ?_, ?_⟩
    · intro forest ordered statement member source notEarlier loads
      refine absurd loads ((choice.regrowth forest).ordered_of_cut _ forest ordered ?_ statement member source notEarlier)
      intro statement member here
      have same : statement = use :=
        forest.root_unique (transplant.fewer_sublist.subset member) (by simp) here choice.inside
      exact same ▸ List.mem_cons_self
    · intro forest ordered tied statement member source loads
      by_cases moved : source = ifFalse ∧ source ∈ early ++ ([branch, pending, jump] ++ use :: late) ∧
          ∃ value, store.kind? source = some (.dupStore value)
      · obtain ⟨rfl, listed, value, held⟩ := moved
        have tree : store.Trees [source] := forest.of_mem listed
        obtain rfl : source = use := forest.root_unique listed (by simp) tree.mem_preorder_self choice.inside
        exact .inr (.conditional rfl choice.first held choice.offset)
      · refine .inl ((choice.regrowth forest).held forest tied member loads fun value listed held => ⟨?_, fun same => ?_⟩)
        · refine Or.resolve_right ?_ fun among : source ∈ [branch, pending, jump] => choice.unheld source among value held
          simp only [List.mem_append] at listed ⊢
          tauto
        · exact moved ⟨same, listed, value, held⟩
  by_cases same : branch = ifFalse
  · subst same
    exact folded.negate transplant.kind?_spot (by rintro _ ⟨⟩)
  · obtain ⟨old, found⟩ := choice.branches
    refine folded.negate ((transplant.rebuild.kind? (Store.lt_size_of_kind? found) same).trans found) ?_
    rintro value rfl
    exact choice.unheld branch (by simp) value found

end Choice

theorem step_sound (ran : step store spot = .ok (changed, cursor)) :
    Draft.Sound ⟨store, spot.keep.statements⟩ ⟨changed, cursor.statements⟩ := by
  obtain ⟨before, current, after⟩ := spot
  rcases step_ok ran with ⟨rfl, rfl⟩ | ⟨pending, jump, use, rest, ifTrue, ifFalse, second, kind, split, choice, rfl, rfl⟩
  · exact .refl _
  · cases split
    exact choice.sound

end Conditional

/-! ## The store of the enclosing instance -/

theorem OuterInstance.dropOuterStore_sound (file : ClassFile) (method : Nat) (draft : Draft) :
    Draft.Sound draft (dropOuterStore file method draft) := by
  unfold dropOuterStore
  split
  case h_2 => exact .refl _
  case h_1 outerField declared _ _ =>
    split
    case isFalse => exact .refl _
    case isTrue =>
      have sub : (draft.statements.eraseP (isOuterStore draft.store outerField.reference)).Sublist draft.statements :=
        List.eraseP_sublist
      refine .of_keeps ⟨sub, Nat.le_refl _, fun _ _ => rfl, ?_, ?_⟩ ⟨?_, ?_, ?_⟩
      · exact fun closed statement member => closed statement (sub.subset member)
      · exact fun _ statement member id reached => ⟨statement, sub.subset member, id, reached, rfl, .inl rfl⟩
      · exact fun forest => forest.sublist sub
      · exact fun _ ordered statement member source notEarlier =>
          ordered statement (sub.subset member) source (notEarlier.imp_right (·.trans sub))
      · intro _ _ tied statement member source loads
        obtain ⟨listed, value, held⟩ := tied statement (sub.subset member) source loads
        refine ⟨(List.mem_eraseP_of_neg ?_).mpr listed, value, held⟩
        simp [isOuterStore, held]

end ClassLift
