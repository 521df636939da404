import ClassLift.Proofs.Idiom.Overlooked

namespace ClassLift

theorem Cursor.statements_remove (cursor : Cursor) (id : NodeId) :
    (cursor.remove id).statements = cursor.statements.erase id := by
  unfold remove statements
  by_cases early : id ∈ cursor.before
  · simp [early, List.erase_append_left]
  · simp [early, List.erase_append_right]

namespace Store

variable {store : Store} {cursor : Cursor} {load source : NodeId}

theorem inlineHeld_cases (store : Store) (cursor : Cursor) (load source : NodeId) :
    store.inlineHeld cursor load source = (store, cursor) ∨
      ∃ value kind only, source ∈ cursor.statements ∧ store.kind? source = some (.dupStore value) ∧
        store.kind? value = some kind ∧ store.dupLoads source cursor.statements = [only] ∧
        store.inlineHeld cursor load source = (store.replace load kind, cursor.remove source) := by
  unfold inlineHeld
  split
  case isFalse => exact .inl rfl
  case isTrue listed =>
    split
    case h_2 => exact .inl rfl
    case h_1 value held =>
      split
      case h_2 => exact .inl rfl
      case h_1 kind only found counted =>
        exact .inr ⟨value, kind, only, by simpa using listed, held, found, counted, rfl⟩

end Store

namespace Draft

variable {store : Store} {cursor : Cursor} {load source value statement : NodeId} {statements : List NodeId} {kind old : Kind}

theorem transplant_held (found : store.kind? load = some old) (listed : source ∈ statements)
    (held : store.kind? source = some (.dupStore value)) (foundValue : store.kind? value = some kind) :
    Transplant store store statements (statements.erase source) load old kind [] [source] kind.children (· = load)
      Kind.Plain where
  found := found
  fewer_sublist := List.erase_sublist
  own_sublist := List.nil_sublist _
  donors_sublist := List.singleton_sublist.mpr listed
  prunes := .open_root held (.open_root foundValue (.of_sublist (List.Sublist.refl _)))
  adds := .none
  children _ below := .inl below
  placed _ same := .inl same

theorem regrowth_held (found : store.kind? load = some old) (listed : source ∈ statements)
    (held : store.kind? source = some (.dupStore value)) (foundValue : store.kind? value = some kind)
    (forest : (⟨store, statements⟩ : Draft).Forest) :
    Regrowth ⟨store, statements⟩ ⟨store.replace load kind, statements.erase source⟩ load kind.children := by
  have transplant := transplant_held found listed held foundValue
  refine transplant.regrowth forest ?_ ?_ fun trees apart => ⟨_, [], transplant.lists trees apart, .refl _, .nil, by simp⟩
  · simpa using fun inside : source ∈ statements.erase source => (List.Nodup.mem_erase_iff forest.nodup).mp inside |>.1 rfl
  · rintro made repeated (rfl | plain) same
    · subst same
      have child : value ∈ (Kind.dupStore value).children := by simp [Kind.children, Kind.operands]
      exact ⟨value, foundValue, .inr ⟨source, List.mem_singleton_self source, .tail (.refl source) held child⟩⟩
    · exact absurd same (plain repeated)

/-- What is under way of the values below a root: loads that stand in a statement of the draft, each for its source. -/
structure Pending (draft : Draft) (statement : NodeId) (loads : List (NodeId × NodeId)) : Prop where
  listed : statement ∈ draft.statements
  distinct : (loads.map Prod.fst).Nodup
  found : ∀ pair ∈ loads, draft.store.kind? pair.1 = some (.dupLoad pair.2) ∧ draft.store.Reaches statement pair.1

theorem reaches_replace_leaf {root id : NodeId} (leaf : store.kind? load = some (.dupLoad source))
    (reached : store.Reaches root id) : (store.replace load kind).Reaches root id := by
  refine Relation.ReflTransGen.mono (fun parent child step => ?_) root id reached
  obtain ⟨found, foundParent, below⟩ := step
  have apart : parent ≠ load := by
    rintro rfl
    cases foundParent.symm.trans leaf
    cases below
  refine ⟨found, ?_, below⟩
  rw [Store.kind?, Store.node?_replace, if_neg apart]
  exact foundParent

variable {rest : List (NodeId × NodeId)}

theorem Pending.inlined (pending : Pending ⟨store, statements⟩ statement ((load, source) :: rest)) (apart : statement ≠ source) :
    Pending ⟨store.replace load kind, statements.erase source⟩ statement rest := by
  obtain ⟨listed, distinct, found⟩ := pending
  obtain ⟨foundLoad, _⟩ := found _ List.mem_cons_self
  obtain ⟨fresh, distinct⟩ := List.nodup_cons.mp distinct
  refine ⟨(List.mem_erase_of_ne apart).mpr listed, distinct, fun pair among => ?_⟩
  obtain ⟨foundPair, reachedPair⟩ := found pair (.tail _ among)
  have other : pair.1 ≠ load := fun same => fresh (same ▸ List.mem_map.mpr ⟨pair, among, rfl⟩)
  refine ⟨?_, reaches_replace_leaf foundLoad reachedPair⟩
  rw [Store.kind?, Store.node?_replace, if_neg other]
  exact foundPair

theorem inlineHeld_stems (inside : load < store.size) :
    Stems ⟨store, cursor.statements⟩
      ⟨(store.inlineHeld cursor load source).1, (store.inlineHeld cursor load source).2.statements⟩ ∧
    (store.inlineHeld cursor load source).1.size = store.size := by
  rcases store.inlineHeld_cases cursor load source with same | ⟨value, kind, only, listed, held, foundValue, _, same⟩
  · rw [same]
    exact ⟨.refl _, rfl⟩
  · obtain ⟨node, located⟩ := Store.node?_isSome inside
    rw [same, Cursor.statements_remove]
    exact ⟨(transplant_held (Store.kind?_of_node? located) listed held foundValue).rebuild.stems, Store.size_replace⟩

theorem inlineHeld_forest (inside : load < store.size) (forest : (⟨store, cursor.statements⟩ : Draft).Forest) :
    (⟨(store.inlineHeld cursor load source).1, (store.inlineHeld cursor load source).2.statements⟩ : Draft).Forest := by
  rcases store.inlineHeld_cases cursor load source with same | ⟨value, kind, only, listed, held, foundValue, _, same⟩
  · rwa [same]
  · obtain ⟨node, located⟩ := Store.node?_isSome inside
    rw [same, Cursor.statements_remove]
    exact (regrowth_held (Store.kind?_of_node? located) listed held foundValue forest).forest forest

/-- The load that a value goes to is the only one, so it stands behind the value and nothing else names it. -/
theorem inlineHeld_step (forest : (⟨store, cursor.statements⟩ : Draft).Forest)
    (ordered : (⟨store, cursor.statements⟩ : Draft).Ordered)
    (pending : Pending ⟨store, cursor.statements⟩ statement ((load, source) :: rest)) :
    let after : Draft := ⟨(store.inlineHeld cursor load source).1, (store.inlineHeld cursor load source).2.statements⟩
    after.Ordered ∧ ((⟨store, cursor.statements⟩ : Draft).Tied → after.Tied) ∧ Pending after statement rest := by
  obtain ⟨listedStatement, distinctLoads, found⟩ := pending
  obtain ⟨foundLoad, reached⟩ := found _ List.mem_cons_self
  obtain ⟨_, distinct⟩ := List.nodup_cons.mp distinctLoads
  have inStatement : load ∈ store.preorder statement := (forest.of_mem listedStatement).mem_preorder_iff.mpr reached
  rcases store.inlineHeld_cases cursor load source with same | ⟨value, kind, only, listed, held, foundValue, counted, same⟩
  · rw [same]
    exact ⟨ordered, id, listedStatement, distinct, fun pair among => found pair (.tail _ among)⟩
  · rw [same, Cursor.statements_remove]
    have regrowth := regrowth_held foundLoad listed held foundValue forest
    have selfless : ¬ (⟨store, cursor.statements⟩ : Draft).Loads source source := ordered source listed source (.inl rfl)
    have below {id : NodeId} (reached : store.Reaches value id) : id ∈ store.preorder source := by
      have child : value ∈ (Kind.dupStore value).children := by simp [Kind.children, Kind.operands]
      exact (forest.of_mem listed).mem_preorder_iff.mpr ((Store.Reaches.tail (.refl source) held child).trans reached)
    have apart : statement ≠ source := fun same => selfless ⟨load, same ▸ inStatement, foundLoad⟩
    refine ⟨?_, fun tied => ?_, ?_⟩
    · refine regrowth.ordered_of_early forest ordered fun statement member here donor listedDonor dropped => ?_
      have memberBefore := List.mem_of_mem_erase member
      obtain rfl : donor = source := by
        by_contra other
        exact dropped ((List.mem_erase_of_ne other).mpr listedDonor)
      obtain ⟨early, late, split⟩ := List.append_of_mem listed
      have behind := ordered.mem_behind split memberBefore ⟨load, here, foundLoad⟩
      change [donor, statement].Sublist cursor.statements
      rw [split]
      exact pair_sublist_of_mem_right behind
    · intro user member repeated loads
      have memberBefore := List.mem_of_mem_erase member
      refine regrowth.held forest tied member loads fun holder listedHolder foundHolder => ⟨?_, ?_⟩
      · refine (List.mem_erase_of_ne fun same => ?_).mpr listedHolder
        subst same
        rcases regrowth.loads forest member loads with
          ⟨id, inside, foundId, other, _⟩ | ⟨_, ⟨seed, chosen, id, inside, foundId⟩ | ⟨id, changed, foundId⟩⟩
        · have one := Store.mem_dupLoads.mpr ⟨memberBefore, inside, foundId⟩
          have two := Store.mem_dupLoads.mpr ⟨listedStatement, inStatement, foundLoad⟩
          rw [counted, List.mem_singleton] at one two
          exact other (congrArg Prod.snd (one.trans two.symm))
        · exact selfless ⟨id, below ((Store.Reaches.tail (.refl value) foundValue chosen).trans
            (Store.reaches_of_mem_preorder inside)), foundId⟩
        · have old : id < store.size := by simpa using Store.lt_size_of_kind? foundId
          obtain rfl := changed.resolve_right (Nat.not_le.mpr old)
          have copied := (Store.kind?_replace_self old).symm.trans foundId
          exact selfless ⟨value, below (.refl value), foundValue.trans copied⟩
      · rintro rfl
        cases foundLoad.symm.trans foundHolder
    · exact Pending.inlined ⟨listedStatement, distinctLoads, found⟩ apart

theorem foldl_inlineHeld (store : Store) (cursor : Cursor) {pairs : List (NodeId × NodeId)}
    (inside : ∀ pair ∈ pairs, pair.1 < store.size) :
    let result := pairs.foldl (fun (state : Store × Cursor) pair => state.1.inlineHeld state.2 pair.1 pair.2) (store, cursor)
    Stems ⟨store, cursor.statements⟩ ⟨result.1, result.2.statements⟩ ∧
      ((⟨store, cursor.statements⟩ : Draft).Forest → (⟨result.1, result.2.statements⟩ : Draft).Forest) ∧
      (∀ statement, (⟨store, cursor.statements⟩ : Draft).Forest → (⟨store, cursor.statements⟩ : Draft).Ordered →
        Pending ⟨store, cursor.statements⟩ statement pairs →
          (⟨result.1, result.2.statements⟩ : Draft).Ordered ∧
            ((⟨store, cursor.statements⟩ : Draft).Tied → (⟨result.1, result.2.statements⟩ : Draft).Tied)) := by
  induction pairs generalizing store cursor with
  | nil => exact ⟨.refl _, id, fun _ _ ordered _ => ⟨ordered, id⟩⟩
  | cons pair rest continues =>
    obtain ⟨load, source⟩ := pair
    have here := inside _ List.mem_cons_self
    obtain ⟨stems, size⟩ : _ ∧ (store.inlineHeld cursor load source).1.size = store.size := inlineHeld_stems here
    have insideRest : ∀ pair ∈ rest, pair.1 < (store.inlineHeld cursor load source).1.size :=
      fun pair among => size ▸ inside pair (.tail _ among)
    obtain ⟨stemsRest, forestRest, keepsRest⟩ := continues _ (store.inlineHeld cursor load source).2 insideRest
    refine ⟨stems.trans stemsRest, fun forest => forestRest (inlineHeld_forest here forest), ?_⟩
    intro statement forest ordered pending
    obtain ⟨orderedNext, tiedNext, pendingNext⟩ := inlineHeld_step forest ordered pending
    obtain ⟨orderedLast, tiedLast⟩ := keepsRest statement (inlineHeld_forest here forest) orderedNext pendingNext
    exact ⟨orderedLast, tiedLast ∘ tiedNext⟩

theorem mem_sourcesBelow {root id : NodeId} :
    (id, source) ∈ store.sourcesBelow root ↔ id ∈ store.preorder root ∧ store.kind? id = some (.dupLoad source) := by
  unfold Store.sourcesBelow
  rw [List.mem_filterMap]
  constructor
  · rintro ⟨other, inside, same⟩
    split at same
    · cases same
      exact ⟨inside, ‹_›⟩
    · cases same
  · rintro ⟨inside, found⟩
    exact ⟨id, inside, by simp [found]⟩

theorem nodup_sourcesBelow {root : NodeId} (tree : store.Trees [root]) : ((store.sourcesBelow root).map Prod.fst).Nodup := by
  unfold Store.sourcesBelow
  rw [List.map_filterMap]
  refine tree.preorder_nodup.filterMap fun one other id first second => ?_
  rw [Option.mem_def, Option.map_eq_some_iff] at first second
  obtain ⟨_, first, rfl⟩ := first
  obtain ⟨_, second, same⟩ := second
  split at first
  · cases first
    split at second
    · cases second
      exact same.symm
    · cases second
  · cases first

variable (store cursor)

theorem inlineHeldBelow_spec (root : NodeId) :
    let result := store.inlineHeldBelow cursor root
    Stems ⟨store, cursor.statements⟩ ⟨result.1, result.2.statements⟩ ∧
      ((⟨store, cursor.statements⟩ : Draft).Forest → (⟨result.1, result.2.statements⟩ : Draft).Forest) ∧
      (∀ statement ∈ cursor.statements, store.Reaches statement root → (⟨store, cursor.statements⟩ : Draft).Forest →
        (⟨store, cursor.statements⟩ : Draft).Ordered →
          (⟨result.1, result.2.statements⟩ : Draft).Ordered ∧
            ((⟨store, cursor.statements⟩ : Draft).Tied → (⟨result.1, result.2.statements⟩ : Draft).Tied)) := by
  have inside : ∀ pair ∈ store.sourcesBelow root, pair.1 < store.size :=
    fun pair among => Store.lt_size_of_kind? (mem_sourcesBelow.mp among).2
  obtain ⟨stems, forests, keeps⟩ := foldl_inlineHeld store cursor inside
  refine ⟨stems, forests, fun statement member reached forest ordered => keeps statement forest ordered ⟨member, ?_, ?_⟩⟩
  · have tree := forest.of_mem member
    exact nodup_sourcesBelow (tree.node (List.mem_singleton_self _) (tree.mem_preorder_iff.mpr reached)).1
  · intro pair among
    obtain ⟨inside, found⟩ := mem_sourcesBelow.mp among
    exact ⟨found, reached.trans (Store.reaches_of_mem_preorder inside)⟩

variable {store cursor}

theorem sound_inlineHeldBelow {before : Draft} {root : NodeId} (stems : Stems before ⟨store, cursor.statements⟩)
    (keeps : Keeps before ⟨store, cursor.statements⟩)
    (above : before.Forest → before.Ordered → ∃ statement ∈ cursor.statements, store.Reaches statement root) :
    Sound before ⟨(store.inlineHeldBelow cursor root).1, (store.inlineHeldBelow cursor root).2.statements⟩ := by
  obtain ⟨later, forests, rest⟩ := inlineHeldBelow_spec store cursor root
  refine .of_keeps (stems.trans later) ⟨forests ∘ keeps.forest, fun forest ordered => ?_, fun forest ordered tied => ?_⟩
  all_goals
    obtain ⟨statement, member, reached⟩ := above forest ordered
    have spec := rest statement member reached (keeps.forest forest) (keeps.ordered forest ordered)
  · exact spec.1
  · exact spec.2 (keeps.tied forest ordered tied)

end Draft

end ClassLift
