import ClassLift.Proofs.Idiom.Preservation
import Mathlib.Data.List.Chain

namespace ClassLift

def Store.Precedes (store : Store) (one other : NodeId) : Prop :=
  ∀ left right, store.Reaches one left → store.Reaches other right → ∀ start stop,
    store.offset? left = some start → store.offset? right = some stop → start < stop

namespace Draft

variable {before after first last draft : Draft} {kept : List NodeId}

/-- A node from below `passed` or an earlier statement, at an offset not behind `passed`, gets below a later statement. -/
inductive CarriesOver (before after : Draft) : NodeId → Prop
  | intro {passed source target origin id : NodeId} {offset own : Offset}
      (listed : source ∈ before.statements) (notLater : source = passed ∨ [source, passed].Sublist before.statements)
      (later : [passed, target].Sublist after.statements)
      (was : before.store.Reaches source origin) (now : after.store.Reaches target id)
      (same : id = origin ∨ before.store.size ≤ id) (foundBefore : before.store.offset? origin = some offset)
      (found : after.store.offset? id = some offset) (foundPassed : after.store.offset? passed = some own)
      (notBehind : offset ≤ own) : CarriesOver before after passed

/-- Everything in later statements stands behind these statements. -/
def Behind (kept : List NodeId) (draft : Draft) : Prop :=
  ∀ passed ∈ kept, ∀ target, [passed, target].Sublist draft.statements → ∀ id, draft.store.Reaches target id →
    ∀ own offset, draft.store.offset? passed = some own → draft.store.offset? id = some offset → own < offset

theorem pairwise_precedes (closed : draft.Closed) (spread : draft.statements.IsChain draft.store.Precedes) :
    draft.statements.Pairwise draft.store.Precedes := by
  let Near (one other : NodeId) : Prop := draft.store.Precedes one other ∧ other < draft.store.size
  have near : draft.statements.IsChain Near :=
    spread.imp_of_mem_imp fun one other _ member precedes => ⟨precedes, closed other member other (.refl other)⟩
  have trans : Trans Near Near Near := by
    refine ⟨fun {one middle other} first second => ⟨fun left right reachedLeft reachedRight start stop starts stops => ?_, second.2⟩⟩
    obtain ⟨node, located⟩ := Store.node?_isSome first.2
    have between : draft.store.offset? middle = some node.offset := by simp [Store.offset?, located]
    exact UInt32.lt_trans (first.1 left middle reachedLeft (.refl middle) start _ starts between)
      (second.1 middle right (.refl middle) reachedRight _ stop between stops)
  exact near.pairwise.imp fun both => both.1

theorem behind_of_precedes (spread : draft.statements.Pairwise draft.store.Precedes) : Behind kept draft := by
  intro passed _ target pair id reached own offset foundPassed foundId
  have precedes := List.pairwise_pair.mp (spread.sublist pair)
  exact precedes passed id (.refl passed) reached own offset foundPassed foundId

theorem pair_sublist_total {list : List NodeId} {one other : NodeId} (first : one ∈ list) (second : other ∈ list) :
    one = other ∨ [one, other].Sublist list ∨ [other, one].Sublist list := by
  obtain ⟨left, right, rfl⟩ := List.append_of_mem first
  rcases List.mem_append.mp second with early | late
  · exact .inr (.inr (pair_sublist_of_mem_left early))
  · rcases List.mem_cons.mp late with rfl | late
    · exact .inl rfl
    · exact .inr (.inl (pair_sublist_of_mem_right late))

theorem Stems.carriesOver (stems : Stems before after) (closed : before.Closed) (behind : Behind kept before)
    (spoiled : ¬ Behind kept after) : ∃ passed ∈ kept, CarriesOver before after passed := by
  simp only [Behind, not_forall] at spoiled
  obtain ⟨passed, isKept, target, pair, id, reached, own, offset, foundPassed, foundId, notBehind⟩ := spoiled
  obtain ⟨source, listed, origin, reachedOrigin, sameOffset, sameId⟩ :=
    stems.origin closed target (pair.subset (by simp)) id reached
  have listedPassed : passed ∈ before.statements := stems.statements.subset (pair.subset (by simp))
  have foundOrigin := sameOffset.symm.trans foundId
  have notBehind := UInt32.not_lt.mp notBehind
  rcases pair_sublist_total listed listedPassed with same | earlier | later
  · exact ⟨passed, isKept, listed, .inl same, pair, reachedOrigin, reached, sameId, foundOrigin, foundId, foundPassed,
      notBehind⟩
  · exact ⟨passed, isKept, listed, .inr earlier, pair, reachedOrigin, reached, sameId, foundOrigin, foundId, foundPassed,
      notBehind⟩
  · -- what comes from a later statement was behind already
    have foundBefore := (stems.offset passed (closed passed listedPassed passed (.refl passed))).symm.trans foundPassed
    have wasBehind := behind passed isKept source later origin reachedOrigin own offset foundBefore foundOrigin
    exact absurd wasBehind (UInt32.not_lt.mpr notBehind)

theorem Folds.closed (folds : Folds first last) (closed : first.Closed) : last.Closed := by
  induction folds with
  | refl => exact closed
  | tail _ fold continues => exact (fold.sound.stems continues).closed continues

theorem pairwise_startOffset (closed : draft.Closed) (behind : Behind draft.statements draft) :
    (draft.statements.map draft.store.startOffset).Pairwise (· ≤ ·) := by
  rw [List.pairwise_map]
  refine List.pairwise_iff_forall_sublist.mpr fun {passed target} pair => ?_
  have insidePassed := closed passed (pair.subset (by simp)) passed (.refl passed)
  have insideTarget := closed target (pair.subset (by simp)) target (.refl target)
  obtain ⟨id, inside, starts⟩ := (Store.startOffset_spec insideTarget).1
  obtain ⟨node, located⟩ := Store.node?_isSome insidePassed
  have own : draft.store.offset? passed = some node.offset := by simp [Store.offset?, located]
  have before := (Store.startOffset_spec insidePassed).2 passed (Store.mem_preorder_of_lt_size insidePassed) _ own
  have after := behind passed (pair.subset (by simp)) target pair id (Store.reaches_of_mem_preorder inside) _ _ own starts
  exact UInt32.le_trans before (UInt32.le_of_lt after)

theorem Forest.isChain_precedes (forest : draft.Forest)
    (chain : draft.statements.IsChain fun one other => ∀ left ∈ draft.store.preorder one,
      ∀ right ∈ draft.store.preorder other,
        (draft.store.offset? left).all fun start => (draft.store.offset? right).all fun stop => start < stop) :
    draft.statements.IsChain draft.store.Precedes := by
  refine chain.imp_of_mem_imp fun one other first second apart left right reachedLeft reachedRight start stop starts stops => ?_
  have insideLeft := (Store.Trees.of_mem forest first).mem_preorder_iff.mpr reachedLeft
  have insideRight := (Store.Trees.of_mem forest second).mem_preorder_iff.mpr reachedRight
  simpa [starts, stops] using apart left insideLeft right insideRight

end Draft

namespace ClassTable

variable {table after : ClassTable} {home : ClassId} {index : Nat} {method : Method} {code : Code}
  {warnings : List Warning}

/-- If the raw statements stand one behind the other, the recovered ones still start in order, unless a fold on the way carries
a node over one of them. -/
theorem recover_starts_in_order (ran : table.recover home = .ok (after, warnings))
    (given : table.method? home index = some method) (unflagged : method.flagged = false) (body : method.code = some code)
    (closed : code.raw.Closed) (spread : code.instructions.IsChain code.store.Precedes) :
    ∃ result folded, after.method? home index = some result ∧ result.code = some folded ∧
      ((folded.statements.map folded.store.startOffset).Pairwise (· ≤ ·) ∨
        ∃ draft next, Draft.Folds code.raw draft ∧ draft.Fold next ∧ next.Folds folded.draft ∧
          ∃ passed ∈ folded.statements, draft.CarriesOver next passed) := by
  obtain ⟨result, found, folded, bodyAfter, folds⟩ := recover_method ran given unflagged body
  refine ⟨result, folded, found, bodyAfter, ?_⟩
  have start : Draft.Behind folded.statements code.raw := Draft.behind_of_precedes (Draft.pairwise_precedes closed spread)
  rcases folds.kept_or_spoiled start with kept | ⟨draft, next, before, fold, rest, holds, spoiled⟩
  · exact .inl (Draft.pairwise_startOffset (folds.closed closed) kept)
  · have closedDraft := before.closed closed
    exact .inr ⟨draft, next, before, fold, rest, (fold.sound.stems closedDraft).carriesOver closedDraft holds spoiled⟩

/-- An object that is built before a statement and used behind it. -/
def builtAhead : Code where
  store := ⟨#[⟨0, none, .allocate 2⟩, ⟨3, none, .dupStore 0⟩, ⟨4, none, .dupLoad 1⟩, ⟨5, none, .read (.slot .reference 0)⟩,
    ⟨6, none, .call .special 12 (some 2) [3]⟩, ⟨9, none, .bump 1 5⟩, ⟨12, none, .dupLoad 1⟩, ⟨13, none, .ret (some 6)⟩]⟩
  maxLocals := 4
  instructions := [1, 4, 5, 7]

def builtAheadFolded : Code :=
  { builtAhead with store := builtAhead.store.replace 6 (.construct 12 [3]), statements := [5, 7] }

theorem recover_builtAhead : (linked builtAhead).recover 0 = .ok (linked builtAheadFolded, []) := rfl

theorem builtAhead_forest : builtAhead.raw.Forest :=
  Store.Lists.trees (.cons rfl (.cons rfl .nil .nil) (.cons rfl (.cons rfl .nil (.cons rfl .nil .nil))
    (.cons rfl .nil (.cons rfl (.cons rfl .nil .nil) .nil)))) (by decide)

theorem builtAhead_precedes : builtAhead.instructions.IsChain builtAhead.store.Precedes :=
  builtAhead_forest.isChain_precedes (by decide)

theorem builtAhead_carriesOver :
    ∃ draft next, Draft.Folds builtAhead.raw draft ∧ draft.Fold next ∧ next.Folds builtAheadFolded.draft ∧
      ∃ passed ∈ builtAheadFolded.statements, draft.CarriesOver next passed := by
  obtain ⟨result, folded, found, body, outcome⟩ :=
    recover_starts_in_order recover_builtAhead (show (linked builtAhead).method? 0 0 = some _ from rfl) rfl rfl
      builtAhead_forest.closed builtAhead_precedes
  cases found
  cases body
  exact outcome.resolve_left (by decide)

/-- The construction at 5 is carried over the statement at 9. -/
theorem recover_starts_swapped :
    (linked builtAhead).recover 0 = .ok (linked builtAheadFolded, []) ∧ builtAhead.raw.Closed ∧
      builtAhead.instructions.IsChain builtAhead.store.Precedes ∧
      builtAheadFolded.statements.map builtAheadFolded.store.startOffset = [9, 5] :=
  ⟨recover_builtAhead, builtAhead_forest.closed, builtAhead_precedes, rfl⟩

end ClassTable

end ClassLift
