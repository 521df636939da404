import ClassLift.Idiom.Draft
import ClassLift.Proofs.Body.Tree

/-!
# Rebuilding one node of a draft

Every idiom is recovered by changing what stands at one node, the *spot*, and dropping statements whose parts went there.
`Draft.Rebuild` says what such a change may do: below the spot stand new nodes and trees of the draft before, the *seeds*. It
follows that everything in the draft after stands at an offset of the draft before. `Draft.Regrowth` is the same change in a
draft of trees: the seeds come from below the spot or from dropped statements and do not overlap. Then

* a forest stays a forest;
* loads of held values stay behind the statement that holds the value, if what is dropped stood before the spot;
* loads of held values keep naming a statement, if what is dropped or rebuilt is loaded nowhere any more.
-/

namespace ClassLift

namespace Store

structure Extends (before after : Store) : Prop where
  size_le : before.size ≤ after.size
  node? : ∀ id, id < before.size → after.node? id = before.node? id

namespace Extends

variable {before middle after store : Store} {roots : List NodeId} {root id : NodeId}

theorem refl (store : Store) : Extends store store := ⟨Nat.le_refl _, fun _ _ => rfl⟩

theorem trans (first : Extends before middle) (second : Extends middle after) : Extends before after where
  size_le := Nat.le_trans first.size_le second.size_le
  node? id old := (second.node? id (Nat.lt_of_lt_of_le old first.size_le)).trans (first.node? id old)

theorem allocate {kind : Kind} {copy : NodeId} (made : before.allocate id kind = (copy, after)) : Extends before after := by
  obtain rfl : (before.allocate id kind).2 = after := congrArg Prod.snd made
  exact ⟨size_le_allocate, fun _ => node?_allocate_of_lt⟩

theorem kind? (extended : Extends before after) (old : id < before.size) : after.kind? id = before.kind? id := by
  simp [Store.kind?, extended.node? id old]

theorem reaches (extended : Extends before after) (closed : ∀ id, before.Reaches root id → id < before.size)
    (reached : after.Reaches root id) : before.Reaches root id := by
  induction reached with
  | refl => exact .refl root
  | tail _ step continues =>
    obtain ⟨kind, found, below⟩ := step
    rw [extended.kind? (closed _ continues)] at found
    exact continues.tail found below

theorem trees (extended : Extends before after) (trees : before.Trees roots) : after.Trees roots := by
  refine (trees.listed.congr fun id among => ?_).trees trees.distinct
  obtain ⟨root, member, inside⟩ := List.mem_flatMap.mp among
  exact extended.kind? (trees.lt_size member inside)

theorem preorder (extended : Extends before after) (tree : before.Trees [root]) : after.preorder root = before.preorder root := by
  have listed : before.Lists [root] (before.preorder root) := by simpa using tree.listed
  have same : after.Lists [root] (before.preorder root) :=
    listed.congr fun id among => extended.kind? (tree.lt_size (List.mem_singleton_self root) among)
  simpa using same.flatMap_preorder tree.preorder_nodup

theorem duplicateWithin {depth : Nat} {copy : NodeId} (copied : before.duplicateWithin depth id = some (copy, after)) :
    Extends before after := by
  induction depth generalizing id copy after with
  | zero => cases copied
  | succ depth continues =>
    unfold Store.duplicateWithin at copied
    split at copied
    case h_1 field object found =>
      obtain ⟨⟨copiedObject, middle⟩, inner, made⟩ := Option.map_eq_some_iff.mp copied
      exact (continues inner).trans (allocate made)
    case h_7 => cases copied
    all_goals exact allocate (Option.some_inj.mp copied)

end Extends

end Store

namespace Draft

def Closed (draft : Draft) : Prop :=
  ∀ statement ∈ draft.statements, ∀ id, draft.store.Reaches statement id → id < draft.store.size

/-- Every statement is a tree, and no node belongs to two of them. -/
def Forest (draft : Draft) : Prop := draft.store.Trees draft.statements

def Loads (draft : Draft) (statement source : NodeId) : Prop :=
  ∃ id ∈ draft.store.preorder statement, draft.store.kind? id = some (.dupLoad source)

/-- No statement repeats the value of itself or of a later one. -/
def Ordered (draft : Draft) : Prop :=
  ∀ statement ∈ draft.statements, ∀ source,
    source = statement ∨ [statement, source].Sublist draft.statements → ¬ draft.Loads statement source

def Tied (draft : Draft) : Prop :=
  ∀ statement ∈ draft.statements, ∀ source, draft.Loads statement source →
    source ∈ draft.statements ∧ ∃ value, draft.store.kind? source = some (.dupStore value)

theorem Forest.closed {draft : Draft} (forest : draft.Forest) : draft.Closed := fun _ member _ reached =>
  forest.lt_size member ((forest.of_mem member).mem_preorder_iff.mpr reached)

theorem Forest.not_mem_of_cut {store : Store} {early block late : List NodeId} {statement : NodeId}
    (forest : (⟨store, early ++ (block ++ late)⟩ : Draft).Forest) (among : statement ∈ block) : statement ∉ early ++ late := by
  have distinct := Store.Trees.nodup forest
  simp only [List.nodup_append', List.disjoint_append_right] at distinct
  obtain ⟨_, ⟨_, _, blockLate⟩, earlyBlock, _⟩ := distinct
  intro kept
  rcases List.mem_append.mp kept with kept | kept
  · exact earlyBlock kept among
  · exact blockLate among kept

theorem Forest.neighbours {store : Store} {early late : List NodeId} {one other : NodeId}
    (forest : (⟨store, early ++ one :: other :: late⟩ : Draft).Forest) :
    one ∉ early ++ late ∧ other ∉ early ++ late ∧ one ∉ early ++ other :: late ∧ other ∉ early ++ one :: late := by
  have distinct := Store.Trees.nodup forest
  simp only [List.nodup_append', List.nodup_cons, List.disjoint_cons_right, List.mem_append, List.mem_cons] at distinct ⊢
  tauto

/-! ## Positions in the list of statements -/

section Position

variable {list before after : List NodeId} {first second third : NodeId}

theorem pair_sublist_of_mem_left (member : first ∈ before) : [first, second].Sublist (before ++ second :: after) :=
  (List.singleton_sublist.mpr member).append (List.singleton_sublist.mpr List.mem_cons_self)

theorem pair_sublist_of_mem_right (member : second ∈ after) : [first, second].Sublist (before ++ first :: after) :=
  ((List.singleton_sublist.mpr member).cons_cons first).trans (List.sublist_append_right before _)

theorem mem_right_of_not_earlier (member : second ∈ before ++ first :: after)
    (later : ¬(first = second ∨ [second, first].Sublist (before ++ first :: after))) : second ∈ after := by
  rcases List.mem_append.mp member with inBefore | inRest
  · exact absurd (.inr (pair_sublist_of_mem_left inBefore)) later
  · exact (List.mem_cons.mp inRest).resolve_left fun same => later (.inl same.symm)

theorem mem_left_of_pair (apart : first ≠ second) (notAfter : second ∉ after)
    (pair : [first, second].Sublist (before ++ second :: after)) : first ∈ before := by
  obtain ⟨left, right, split, inBefore, inRest⟩ := List.sublist_append_iff.mp pair
  cases left with
  | nil =>
    subst split
    cases inRest with
    | cons _ sub => exact absurd (sub.subset (List.mem_cons_of_mem _ List.mem_cons_self)) notAfter
    | cons_cons => exact absurd rfl apart
  | cons head tail =>
    obtain ⟨rfl, _⟩ := List.cons.inj split
    exact inBefore.subset List.mem_cons_self

theorem mem_left_of_pair_sublist (distinct : (before ++ second :: after).Nodup)
    (pair : [first, second].Sublist (before ++ second :: after)) : first ∈ before := by
  have apart : first ≠ second := by
    rintro rfl
    simpa using distinct.sublist pair
  rw [List.nodup_append', List.nodup_cons] at distinct
  exact mem_left_of_pair apart distinct.2.1.1 pair

theorem mem_right_of_pair_sublist (distinct : (before ++ first :: after).Nodup)
    (pair : [first, second].Sublist (before ++ first :: after)) : second ∈ after := by
  have reversed : (before ++ first :: after).reverse = after.reverse ++ first :: before.reverse := by simp
  refine List.mem_reverse.mp (mem_left_of_pair_sublist (reversed ▸ List.nodup_reverse.mpr distinct) ?_)
  exact reversed ▸ pair.reverse

theorem pair_sublist_trans (distinct : list.Nodup) (one : [first, second].Sublist list)
    (other : [second, third].Sublist list) : [first, third].Sublist list := by
  obtain ⟨before, after, rfl⟩ := List.append_of_mem (other.subset List.mem_cons_self)
  have left := List.singleton_sublist.mpr (mem_left_of_pair_sublist distinct one)
  have right := List.singleton_sublist.mpr (mem_right_of_pair_sublist distinct other)
  exact left.append (right.cons second)

theorem pair_sublist_of_cut {block : List NodeId} (listed : first ∈ before ++ (block ++ after))
    (dropped : first ∉ before ++ after) (behind : second ∈ after) : [first, second].Sublist (before ++ (block ++ after)) := by
  have inBlock : first ∈ block := by
    simp only [List.mem_append, not_or] at listed dropped
    tauto
  exact ((List.singleton_sublist.mpr inBlock).append (List.singleton_sublist.mpr behind)).trans
    (List.sublist_append_right before _)

end Position

/-! ## One change -/

structure Rebuild (before after : Draft) (spot : NodeId) (seeds : List NodeId) : Prop where
  statements : after.statements.Sublist before.statements
  size_le : before.store.size ≤ after.store.size
  node : ∀ id, id < before.store.size → id ≠ spot → after.store.node? id = before.store.node? id
  offset : after.store.offset? spot = before.store.offset? spot
  children : ∀ id kind, id = spot ∨ before.store.size ≤ id → after.store.kind? id = some kind →
    ∀ child ∈ kind.children, child ∈ seeds ∨ before.store.size ≤ child ∧ child < after.store.size
  planted : ∀ statement ∈ after.statements, before.store.Reaches statement spot → ∀ seed ∈ seeds,
    ∃ earlier ∈ before.statements, before.store.Reaches earlier seed
  fresh : ∀ statement ∈ after.statements, before.store.Reaches statement spot → ∀ id, before.store.size ≤ id →
    id < after.store.size → ∃ earlier ∈ before.statements, ∃ origin, before.store.Reaches earlier origin ∧
      after.store.offset? id = before.store.offset? origin

namespace Rebuild

variable {before after : Draft} {spot statement id source : NodeId} {seeds : List NodeId}

theorem kind? (rebuild : Rebuild before after spot seeds) (old : id < before.store.size) (apart : id ≠ spot) :
    after.store.kind? id = before.store.kind? id := by
  simp [Store.kind?, rebuild.node id old apart]

theorem offset? (rebuild : Rebuild before after spot seeds) (old : id < before.store.size) :
    after.store.offset? id = before.store.offset? id := by
  by_cases same : id = spot
  · rw [same, rebuild.offset]
  · simp [Store.offset?, rebuild.node id old same]

theorem mem_before (rebuild : Rebuild before after spot seeds) (member : statement ∈ after.statements) :
    statement ∈ before.statements :=
  rebuild.statements.subset member

theorem reaches (rebuild : Rebuild before after spot seeds) (closed : before.Closed) (member : statement ∈ after.statements)
    (reached : after.store.Reaches statement id) :
    before.store.Reaches statement id ∨ before.store.Reaches statement spot ∧
      (before.store.size ≤ id ∧ id < after.store.size ∨ ∃ seed ∈ seeds, before.store.Reaches seed id) := by
  have changed {id child : NodeId} {kind : Kind} (here : before.store.Reaches statement spot)
      (place : id = spot ∨ before.store.size ≤ id) (found : after.store.kind? id = some kind)
      (below : child ∈ kind.children) : before.store.Reaches statement spot ∧
        (before.store.size ≤ child ∧ child < after.store.size ∨ ∃ seed ∈ seeds, before.store.Reaches seed child) := by
    rcases rebuild.children _ _ place found child below with seed | fresh
    · exact ⟨here, .inr ⟨child, seed, .refl child⟩⟩
    · exact ⟨here, .inl fresh⟩
  induction reached with
  | refl => exact .inl (.refl statement)
  | @tail id child _ step continues =>
    obtain ⟨kind, found, below⟩ := step
    rcases continues with reached | ⟨here, fresh | ⟨seed, chosen, reached⟩⟩
    · by_cases same : id = spot
      · exact .inr (changed (same ▸ reached) (.inl same) found below)
      · rw [rebuild.kind? (closed statement (rebuild.mem_before member) id reached) same] at found
        exact .inl (reached.tail found below)
    · exact .inr (changed here (.inr fresh.1) found below)
    · by_cases same : id = spot
      · exact .inr (changed here (.inl same) found below)
      · obtain ⟨earlier, listed, above⟩ := rebuild.planted statement member here seed chosen
        rw [rebuild.kind? (closed earlier listed id (above.trans reached)) same] at found
        exact .inr ⟨here, .inr ⟨seed, chosen, reached.tail found below⟩⟩

theorem closed (rebuild : Rebuild before after spot seeds) (closed : before.Closed) : after.Closed := by
  intro statement member id reached
  have old {earlier : NodeId} (listed : earlier ∈ before.statements) (reached : before.store.Reaches earlier id) :
      id < after.store.size :=
    Nat.lt_of_lt_of_le (closed earlier listed id reached) rebuild.size_le
  rcases rebuild.reaches closed member reached with reached | ⟨here, fresh | ⟨seed, chosen, reached⟩⟩
  · exact old (rebuild.mem_before member) reached
  · exact fresh.2
  · obtain ⟨earlier, listed, above⟩ := rebuild.planted statement member here seed chosen
    exact old listed (above.trans reached)

theorem origin (rebuild : Rebuild before after spot seeds) (closed : before.Closed) (member : statement ∈ after.statements)
    (reached : after.store.Reaches statement id) :
    ∃ earlier ∈ before.statements, ∃ origin, before.store.Reaches earlier origin ∧
      after.store.offset? id = before.store.offset? origin ∧ (id = origin ∨ before.store.size ≤ id) := by
  rcases rebuild.reaches closed member reached with reached | ⟨here, fresh | ⟨seed, chosen, reached⟩⟩
  · have listed := rebuild.mem_before member
    exact ⟨statement, listed, id, reached, rebuild.offset? (closed statement listed id reached), .inl rfl⟩
  · obtain ⟨earlier, listed, origin, reached, offset⟩ := rebuild.fresh statement member here id fresh.1 fresh.2
    exact ⟨earlier, listed, origin, reached, offset, .inr fresh.1⟩
  · obtain ⟨earlier, listed, above⟩ := rebuild.planted statement member here seed chosen
    have whole := above.trans reached
    exact ⟨earlier, listed, id, whole, rebuild.offset? (closed earlier listed id whole), .inl rfl⟩

end Rebuild

/-- Everything in the draft after stands at an offset of the draft before: it is a node of it or a new one. -/
structure Stems (before after : Draft) : Prop where
  statements : after.statements.Sublist before.statements
  size_le : before.store.size ≤ after.store.size
  offset : ∀ id, id < before.store.size → after.store.offset? id = before.store.offset? id
  closed : before.Closed → after.Closed
  origin : before.Closed → ∀ statement ∈ after.statements, ∀ id, after.store.Reaches statement id →
    ∃ earlier ∈ before.statements, ∃ origin, before.store.Reaches earlier origin ∧
      after.store.offset? id = before.store.offset? origin ∧ (id = origin ∨ before.store.size ≤ id)

namespace Stems

variable {before middle after : Draft}

theorem refl (draft : Draft) : Stems draft draft where
  statements := List.Sublist.refl _
  size_le := Nat.le_refl _
  offset _ _ := rfl
  closed := id
  origin _ statement member id reached := ⟨statement, member, id, reached, rfl, .inl rfl⟩

theorem trans (first : Stems before middle) (second : Stems middle after) : Stems before after where
  statements := second.statements.trans first.statements
  size_le := Nat.le_trans first.size_le second.size_le
  offset id old := (second.offset id (Nat.lt_of_lt_of_le old first.size_le)).trans (first.offset id old)
  closed := second.closed ∘ first.closed
  origin closed statement member id reached := by
    obtain ⟨between, listed, via, reachedVia, offset, same⟩ := second.origin (first.closed closed) statement member id reached
    obtain ⟨earlier, listedEarlier, origin, reachedOrigin, offsetVia, sameVia⟩ := first.origin closed between listed via reachedVia
    refine ⟨earlier, listedEarlier, origin, reachedOrigin, offset.trans offsetVia, ?_⟩
    rcases same with rfl | new
    · exact sameVia
    · exact .inr (Nat.le_trans first.size_le new)

end Stems

theorem Rebuild.stems {before after : Draft} {spot : NodeId} {seeds : List NodeId}
    (rebuild : Rebuild before after spot seeds) : Stems before after where
  statements := rebuild.statements
  size_le := rebuild.size_le
  offset _ old := rebuild.offset? old
  closed := rebuild.closed
  origin closed _ member _ reached := rebuild.origin closed member reached

structure Keeps (before after : Draft) : Prop where
  forest : before.Forest → after.Forest
  ordered : before.Forest → before.Ordered → after.Ordered
  tied : before.Forest → before.Ordered → before.Tied → after.Tied

theorem Keeps.refl (draft : Draft) : Keeps draft draft := ⟨id, fun _ => id, fun _ _ => id⟩

section Extends

variable {before after : Store} {statements : List NodeId}

theorem Stems.of_extends (extended : before.Extends after) (closed : (⟨before, statements⟩ : Draft).Closed) :
    Stems ⟨before, statements⟩ ⟨after, statements⟩ := by
  have within {statement id : NodeId} (member : statement ∈ statements) (reached : after.Reaches statement id) :=
    extended.reaches (closed statement member) reached
  refine ⟨.refl _, extended.size_le, fun id old => ?_, fun _ statement member id reached => ?_,
    fun _ statement member id reached => ?_⟩
  · simp [Store.offset?, extended.node? id old]
  · exact Nat.lt_of_lt_of_le (closed statement member id (within member reached)) extended.size_le
  · have old := closed statement member id (within member reached)
    exact ⟨statement, member, id, within member reached, by simp [Store.offset?, extended.node? id old], .inl rfl⟩

theorem Keeps.of_extends (extended : before.Extends after) : Keeps ⟨before, statements⟩ ⟨after, statements⟩ := by
  have loads {statement source : NodeId} (forest : (⟨before, statements⟩ : Draft).Forest) (member : statement ∈ statements)
      (loads : (⟨after, statements⟩ : Draft).Loads statement source) : (⟨before, statements⟩ : Draft).Loads statement source := by
    obtain ⟨id, inside, found⟩ := loads
    rw [extended.preorder (forest.of_mem member)] at inside
    rw [extended.kind? (forest.lt_size member inside)] at found
    exact ⟨id, inside, found⟩
  refine ⟨extended.trees, fun forest ordered statement member source notEarlier loaded => ?_,
    fun forest _ tied statement member source loaded => ?_⟩
  · exact ordered statement member source notEarlier (loads forest member loaded)
  · obtain ⟨listed, value, held⟩ := tied statement member source (loads forest member loaded)
    exact ⟨listed, value, (extended.kind? (Store.lt_size_of_kind? held)).trans held⟩

end Extends

/-- A tree that stood below the spot or in a dropped statement. -/
inductive Part (before after : Draft) (spot : NodeId) : NodeId → Prop
  | own {id : NodeId} (inside : id ∈ before.store.preorder spot) : Part before after spot id
  | donated {id donor : NodeId} (member : donor ∈ before.statements) (dropped : donor ∉ after.statements)
      (inside : id ∈ before.store.preorder donor) : Part before after spot id

/-- The tree at the spot after a change, made of the seeds and new nodes. -/
structure Grown (before after : Draft) (spot : NodeId) (seeds : List NodeId) : Prop where
  trees : before.store.Trees seeds
  apart : spot ∉ seeds.flatMap before.store.preorder
  parts : ∀ seed ∈ seeds, Part before after spot seed
  listed : ∃ kind below fresh, after.store.kind? spot = some kind ∧ after.store.Lists kind.children below ∧
    below.Perm (fresh ++ seeds.flatMap before.store.preorder) ∧ fresh.Nodup ∧ ∀ id ∈ fresh, before.store.size ≤ id

structure Regrowth (before after : Draft) (spot : NodeId) (seeds : List NodeId) : Prop
    extends Rebuild before after spot seeds where
  grown : ∀ statement ∈ after.statements, spot ∈ before.store.preorder statement → Grown before after spot seeds
  /-- What the spot or a new node repeats was repeated below the spot or in a dropped statement. -/
  repeats : ∀ statement ∈ after.statements, spot ∈ before.store.preorder statement →
    ∀ id source, id = spot ∨ before.store.size ≤ id → after.store.kind? id = some (.dupLoad source) →
      ∃ origin, before.store.kind? origin = some (.dupLoad source) ∧ Part before after spot origin

namespace Regrowth

variable {before after : Draft} {spot statement id source : NodeId} {seeds : List NodeId}

theorem nodup_exchange {left own right below : List NodeId} (distinct : (left ++ spot :: (own ++ right)).Nodup)
    (grown : below.Nodup) (apart : spot ∉ below) (outside : ∀ id ∈ below, id ∉ left ∧ id ∉ right) :
    (left ++ spot :: (below ++ right)).Nodup := by
  simp only [List.nodup_append', List.nodup_cons, List.mem_append, List.disjoint_cons_right, List.disjoint_append_right]
    at distinct ⊢
  obtain ⟨distinctLeft, ⟨spotApart, _, distinctRight, _⟩, spotLeft, _, leftRight⟩ := distinct
  refine ⟨distinctLeft, ⟨?_, grown, distinctRight, fun id among => (outside id among).2⟩, spotLeft, ?_, leftRight⟩
  · rintro (among | among)
    · exact apart among
    · exact spotApart (.inr among)
  · exact fun id around among => (outside id among).1 around

/-- A statement without the spot is what it was. In the one with the spot the part below the spot is exchanged for new nodes
and the seeds. -/
theorem tree (regrowth : Regrowth before after spot seeds) (forest : before.Forest) (member : statement ∈ after.statements) :
    after.store.Trees [statement] ∧
      (spot ∉ before.store.preorder statement ∧
          after.store.preorder statement = before.store.preorder statement ∨
        ∃ left own right below fresh, before.store.preorder spot = spot :: own ∧
          before.store.preorder statement = left ++ spot :: (own ++ right) ∧
          after.store.preorder spot = spot :: below ∧ after.store.preorder statement = left ++ spot :: (below ++ right) ∧
          below.Perm (fresh ++ seeds.flatMap before.store.preorder) ∧ ∀ id ∈ fresh, before.store.size ≤ id) := by
  have memberBefore := regrowth.mem_before member
  have tree := forest.of_mem memberBefore
  have listed : before.store.Lists [statement] (before.store.preorder statement) := by simpa using tree.listed
  have distinct := tree.preorder_nodup
  have old (id : NodeId) (inside : id ∈ before.store.preorder statement) : id < before.store.size :=
    forest.lt_size memberBefore inside
  by_cases here : spot ∈ before.store.preorder statement
  · obtain ⟨trees, apart, parts, changed, below, fresh, foundChanged, listedBelow, composed, distinctFresh, new⟩ :=
      regrowth.grown statement member here
    obtain ⟨kind, own, left, right, found, listedOwn, order, exchange⟩ := listed.split here
    obtain ⟨spotTree, _⟩ := tree.node (List.mem_singleton_self statement) here
    rw [order] at distinct
    have distinctOwn : own.Nodup := by
      simp only [List.nodup_append', List.nodup_cons] at distinct
      exact distinct.2.1.2.1
    have spotOrder : before.store.preorder spot = spot :: own := by
      rw [(spotTree.children found).1, listedOwn.flatMap_preorder distinctOwn]
    have around (id : NodeId) (side : id ∈ left ++ right) :
        id ∈ before.store.preorder statement ∧ id ∉ before.store.preorder spot := by
      rw [order, spotOrder]
      simp only [List.nodup_append', List.nodup_cons, List.disjoint_cons_right, List.disjoint_append_right,
        List.mem_append] at distinct
      rcases List.mem_append.mp side with side | side
      · refine ⟨by simp [side], fun inside => ?_⟩
        rcases List.mem_cons.mp inside with rfl | inside
        · exact distinct.2.2.1 side
        · exact distinct.2.2.2.1 side inside
      · refine ⟨by simp [side], fun inside => ?_⟩
        rcases List.mem_cons.mp inside with rfl | inside
        · exact distinct.2.1.1 (.inr side)
        · exact distinct.2.1.2.2.2 inside side
    have spotSelf : spot ∈ before.store.preorder spot := by simp [spotOrder]
    have whole := exchange after.store changed below (fun id side => regrowth.kind? (old id (around id side).1)
      fun same => (around id side).2 (same ▸ spotSelf)) foundChanged listedBelow
    have planted (id : NodeId) (among : id ∈ seeds.flatMap before.store.preorder) : id < before.store.size ∧
        id ∉ left ++ right := by
      obtain ⟨seed, chosen, inside⟩ := List.mem_flatMap.mp among
      refine ⟨trees.lt_size chosen inside, fun side => ?_⟩
      cases parts seed chosen with
      | own below => exact (around id side).2 (spotTree.preorder_subset below inside)
      | donated donor dropped below =>
        have inDonor := (forest.of_mem donor).preorder_subset below inside
        exact forest.disjoint donor memberBefore (fun same => dropped (same ▸ member)) inDonor (around id side).1
    have distinctBelow : below.Nodup := by
      rw [composed.nodup_iff, List.nodup_append']
      exact ⟨distinctFresh, trees.distinct, fun id isNew among => Nat.not_lt.mpr (new id isNew) (planted id among).1⟩
    have outside (id : NodeId) (among : id ∈ below) : id ≠ spot ∧ id ∉ left ++ right := by
      rcases List.mem_append.mp (composed.mem_iff.mp among) with isNew | among
      · exact ⟨fun same => Nat.not_lt.mpr (new id isNew) (same ▸ old spot here),
          fun side => Nat.not_lt.mpr (new id isNew) (old id (around id side).1)⟩
      · exact ⟨fun same => apart (same ▸ among), (planted id among).2⟩
    have distinctWhole : (left ++ spot :: (below ++ right)).Nodup := nodup_exchange distinct distinctBelow
      (fun among => (outside spot among).1 rfl) (fun id among => by simpa using (outside id among).2)
    have grownOrder : after.store.preorder statement = left ++ spot :: (below ++ right) := by
      simpa using whole.flatMap_preorder distinctWhole
    have grownTree := whole.trees distinctWhole
    obtain ⟨grownSpot, _⟩ := grownTree.node (List.mem_singleton_self statement) (grownOrder ▸ by simp : spot ∈ after.store.preorder statement)
    have grownSpotOrder : after.store.preorder spot = spot :: below := by
      rw [(grownSpot.children foundChanged).1, listedBelow.flatMap_preorder distinctBelow]
    exact ⟨grownTree, .inr ⟨left, own, right, below, fresh, spotOrder, order, grownSpotOrder, grownOrder, composed, new⟩⟩
  · have whole : after.store.Lists [statement] (before.store.preorder statement) :=
      listed.congr fun id among => regrowth.kind? (old id among) (fun same => here (same ▸ among))
    refine ⟨whole.trees distinct, .inl ⟨here, ?_⟩⟩
    simpa using whole.flatMap_preorder distinct

theorem mem_preorder (regrowth : Regrowth before after spot seeds) (forest : before.Forest)
    (member : statement ∈ after.statements) (inside : id ∈ after.store.preorder statement) :
    id ∈ before.store.preorder statement ∧
        (spot ∈ before.store.preorder statement → id ∈ before.store.preorder spot → id = spot) ∨
      spot ∈ before.store.preorder statement ∧
        (before.store.size ≤ id ∨ ∃ seed ∈ seeds, id ∈ before.store.preorder seed) := by
  obtain ⟨_, ⟨away, order⟩ | ⟨left, own, right, below, fresh, spotOrder, order, _, grown, composed, new⟩⟩ :=
    regrowth.tree forest member
  · exact .inl ⟨order ▸ inside, fun here => absurd here away⟩
  · have distinct := (forest.of_mem (regrowth.mem_before member)).preorder_nodup
    rw [order] at distinct
    simp only [List.nodup_append', List.nodup_cons, List.disjoint_cons_right, List.disjoint_append_right,
      List.mem_append] at distinct
    rw [grown, List.mem_append, List.mem_cons, List.mem_append] at inside
    rw [order, spotOrder]
    rcases inside with side | same | among | side
    · refine .inl ⟨by simp [side], fun _ within => ?_⟩
      rcases List.mem_cons.mp within with same | within
      · exact same
      · exact absurd within (distinct.2.2.2.1 side)
    · exact .inl ⟨by simp [same], fun _ _ => same⟩
    · refine .inr ⟨by simp, ?_⟩
      rcases List.mem_append.mp (composed.mem_iff.mp among) with isNew | among
      · exact .inl (new id isNew)
      · exact .inr (List.mem_flatMap.mp among)
    · refine .inl ⟨by simp [side], fun _ within => ?_⟩
      rcases List.mem_cons.mp within with same | within
      · exact same
      · exact absurd side (distinct.2.1.2.2.2 within)

theorem planted_outside (regrowth : Regrowth before after spot seeds) (forest : before.Forest)
    {one other : NodeId} (first : one ∈ after.statements) (second : other ∈ after.statements) (apart : one ≠ other)
    (here : spot ∈ before.store.preorder one)
    (among : before.store.size ≤ id ∨ ∃ seed ∈ seeds, id ∈ before.store.preorder seed) :
    id ∉ before.store.preorder other := by
  have firstBefore := regrowth.mem_before first
  have secondBefore := regrowth.mem_before second
  rcases among with new | ⟨seed, chosen, inside⟩
  · exact fun elsewhere => Nat.not_lt.mpr new (forest.lt_size secondBefore elsewhere)
  · cases (regrowth.grown one first here).parts seed chosen with
    | own below =>
      have tree := forest.of_mem firstBefore
      obtain ⟨spotTree, _⟩ := tree.node (List.mem_singleton_self one) here
      have inOne := tree.preorder_subset here (spotTree.preorder_subset below inside)
      exact forest.disjoint firstBefore secondBefore apart inOne
    | donated donor dropped below =>
      have inDonor := (forest.of_mem donor).preorder_subset below inside
      exact forest.disjoint donor secondBefore (fun same => dropped (same ▸ second)) inDonor

theorem forest (regrowth : Regrowth before after spot seeds) (forest : before.Forest) : after.Forest := by
  refine .of_forall (fun statement member => (regrowth.tree forest member).1)
    (forest.nodup.sublist regrowth.statements) ?_
  intro one first other second apart id inside elsewhere
  have firstBefore := regrowth.mem_before first
  have secondBefore := regrowth.mem_before second
  rcases regrowth.mem_preorder forest first inside with ⟨inOne, _⟩ | ⟨here, among⟩
  · rcases regrowth.mem_preorder forest second elsewhere with ⟨inOther, _⟩ | ⟨here, among⟩
    · exact forest.disjoint firstBefore secondBefore apart inOne inOther
    · exact regrowth.planted_outside forest second first (Ne.symm apart) here among inOne
  · rcases regrowth.mem_preorder forest second elsewhere with ⟨inOther, _⟩ | ⟨alsoHere, _⟩
    · exact regrowth.planted_outside forest first second apart here among inOther
    · exact forest.disjoint firstBefore secondBefore apart here alsoHere

theorem loads (regrowth : Regrowth before after spot seeds) (forest : before.Forest) (member : statement ∈ after.statements)
    (loads : after.Loads statement source) :
    (∃ id ∈ before.store.preorder statement, before.store.kind? id = some (.dupLoad source) ∧ id ≠ spot ∧
        (spot ∈ before.store.preorder statement → id ∉ before.store.preorder spot)) ∨
      spot ∈ before.store.preorder statement ∧
        ((∃ seed ∈ seeds, ∃ id ∈ before.store.preorder seed, before.store.kind? id = some (.dupLoad source)) ∨
          ∃ id, (id = spot ∨ before.store.size ≤ id) ∧ after.store.kind? id = some (.dupLoad source)) := by
  obtain ⟨id, inside, found⟩ := loads
  have memberBefore := regrowth.mem_before member
  rcases regrowth.mem_preorder forest member inside with ⟨insideBefore, outside⟩ | ⟨here, new | ⟨seed, chosen, inSeed⟩⟩
  · by_cases same : id = spot
    · exact .inr ⟨same ▸ insideBefore, .inr ⟨id, .inl same, found⟩⟩
    · have foundBefore := (regrowth.kind? (forest.lt_size memberBefore insideBefore) same).symm.trans found
      exact .inl ⟨id, insideBefore, foundBefore, same, fun here inSpot => same (outside here inSpot)⟩
  · exact .inr ⟨here, .inr ⟨id, .inr new, found⟩⟩
  · have grown := regrowth.grown statement member here
    have apart : id ≠ spot := fun same => grown.apart (List.mem_flatMap.mpr ⟨seed, chosen, same ▸ inSeed⟩)
    have foundBefore := (regrowth.kind? (grown.trees.lt_size chosen inSeed) apart).symm.trans found
    exact .inr ⟨here, .inl ⟨seed, chosen, id, inSeed, foundBefore⟩⟩

theorem loads_before (regrowth : Regrowth before after spot seeds) (forest : before.Forest)
    (member : statement ∈ after.statements) (loads : after.Loads statement source) :
    before.Loads statement source ∨ spot ∈ before.store.preorder statement ∧
      ∃ donor ∈ before.statements, donor ∉ after.statements ∧ before.Loads donor source := by
  have tree := forest.of_mem (regrowth.mem_before member)
  have ofPart {id origin : NodeId} (here : spot ∈ before.store.preorder statement) (part : Part before after spot origin)
      (inside : id ∈ before.store.preorder origin) (found : before.store.kind? id = some (.dupLoad source)) :
      before.Loads statement source ∨ spot ∈ before.store.preorder statement ∧
        ∃ donor ∈ before.statements, donor ∉ after.statements ∧ before.Loads donor source := by
    cases part with
    | own below =>
      have inStatement := tree.preorder_subset here below
      exact .inl ⟨id, tree.preorder_subset inStatement inside, found⟩
    | donated donor dropped below =>
      exact .inr ⟨here, _, donor, dropped, id, (forest.of_mem donor).preorder_subset below inside, found⟩
  rcases regrowth.loads forest member loads with
    ⟨id, inside, found, _⟩ | ⟨here, ⟨seed, chosen, id, inside, found⟩ | ⟨id, changed, found⟩⟩
  · exact .inl ⟨id, inside, found⟩
  · exact ofPart here ((regrowth.grown statement member here).parts seed chosen) inside found
  · obtain ⟨origin, foundBefore, part⟩ := regrowth.repeats statement member here id source changed found
    refine ofPart here part ?_ foundBefore
    cases part with
    | own below =>
      have inStatement := tree.preorder_subset here below
      exact (tree.node (List.mem_singleton_self _) inStatement).1.mem_preorder_self
    | donated donor _ below =>
      exact ((forest.of_mem donor).node (List.mem_singleton_self _) below).1.mem_preorder_self

theorem ordered (regrowth : Regrowth before after spot seeds) (forest : before.Forest) (ordered : before.Ordered)
    (early : ∀ statement ∈ after.statements, spot ∈ before.store.preorder statement →
      ∀ source, source = statement ∨ [statement, source].Sublist after.statements →
        ∀ donor ∈ before.statements, donor ∉ after.statements → ¬ before.Loads donor source) :
    after.Ordered := by
  intro statement member source notEarlier loads
  rcases regrowth.loads_before forest member loads with loads | ⟨here, donor, listed, dropped, loads⟩
  · exact ordered statement (regrowth.mem_before member) source
      (notEarlier.imp_right (·.trans regrowth.statements)) loads
  · exact early statement member here source notEarlier donor listed dropped loads

theorem ordered_of_early (regrowth : Regrowth before after spot seeds) (forest : before.Forest) (ordered : before.Ordered)
    (early : ∀ statement ∈ after.statements, spot ∈ before.store.preorder statement → ∀ donor ∈ before.statements,
      donor ∉ after.statements → [donor, statement].Sublist before.statements) : after.Ordered := by
  refine regrowth.ordered forest ordered fun statement member here source notEarlier donor listed dropped => ?_
  refine ordered donor listed source (.inr ?_)
  have first := early statement member here donor listed dropped
  rcases notEarlier with rfl | second
  · exact first
  · exact pair_sublist_trans forest.nodup first (second.trans regrowth.statements)

theorem held (regrowth : Regrowth before after spot seeds) (forest : before.Forest) (tied : before.Tied)
    (member : statement ∈ after.statements) (loads : after.Loads statement source)
    (kept : ∀ value, source ∈ before.statements → before.store.kind? source = some (.dupStore value) →
      source ∈ after.statements ∧ source ≠ spot) :
    source ∈ after.statements ∧ ∃ value, after.store.kind? source = some (.dupStore value) := by
  have heldBefore : source ∈ before.statements ∧ ∃ value, before.store.kind? source = some (.dupStore value) := by
    rcases regrowth.loads_before forest member loads with loads | ⟨_, donor, listed, _, loads⟩
    · exact tied statement (regrowth.mem_before member) source loads
    · exact tied donor listed source loads
  obtain ⟨listed, value, found⟩ := heldBefore
  obtain ⟨stays, apart⟩ := kept value listed found
  exact ⟨stays, value, (regrowth.kind? (Store.lt_size_of_kind? found) apart).trans found⟩

section Cut

variable {early late : List NodeId} (block : List NodeId) {store changed : Store}

/-- A block of statements is dropped from before the one with the spot. -/
theorem ordered_of_cut (regrowth : Regrowth ⟨store, early ++ (block ++ late)⟩ ⟨changed, early ++ late⟩ spot seeds)
    (forest : (⟨store, early ++ (block ++ late)⟩ : Draft).Forest)
    (ordered : (⟨store, early ++ (block ++ late)⟩ : Draft).Ordered)
    (behind : ∀ statement ∈ early ++ late, spot ∈ store.preorder statement → statement ∈ late) :
    (⟨changed, early ++ late⟩ : Draft).Ordered :=
  regrowth.ordered_of_early forest ordered fun statement member here _ listed dropped =>
    pair_sublist_of_cut listed dropped (behind statement member here)

/-- Loads lose their statement only to the block, unless the spot itself holds a value. -/
theorem held_or_cut (regrowth : Regrowth ⟨store, early ++ (block ++ late)⟩ ⟨changed, early ++ late⟩ spot seeds)
    (forest : (⟨store, early ++ (block ++ late)⟩ : Draft).Forest) (tied : (⟨store, early ++ (block ++ late)⟩ : Draft).Tied)
    (unheld : ∀ value, store.kind? spot ≠ some (.dupStore value)) (member : statement ∈ early ++ late)
    (loads : (⟨changed, early ++ late⟩ : Draft).Loads statement source) :
    (source ∈ early ++ late ∧ ∃ value, changed.kind? source = some (.dupStore value)) ∨
      source ∈ block ∧ ∃ value, store.kind? source = some (.dupStore value) := by
  by_cases cut : source ∈ block ∧ ∃ value, store.kind? source = some (.dupStore value)
  · exact .inr cut
  · refine .inl (regrowth.held forest tied member loads fun value listed found => ⟨?_, ?_⟩)
    · have apart : source ∉ block := fun among => cut ⟨among, value, found⟩
      simpa [apart] using listed
    · rintro rfl
      exact unheld value found

end Cut

end Regrowth

end Draft

end ClassLift
