import ClassLift.Proofs.Idiom.Rebuild

namespace ClassLift

namespace Store

/-- `grown` is `store` with added nodes, of the given kinds and at the position of the given origins. Directly below them
stand seeds and other added nodes. -/
inductive Adds (store : Store) (seeds : List NodeId) (origins : NodeId → Prop) (kinds : Kind → Prop) : Store → Prop
  | none : Adds store seeds origins kinds store
  | allocate {grown : Store} {origin : NodeId} {kind : Kind} (adds : Adds store seeds origins kinds grown)
      (inside : origin < store.size) (from_origin : origins origin) (of_kind : kinds kind)
      (children : ∀ child ∈ kind.children, child ∈ seeds ∨ store.size ≤ child ∧ child < grown.size) :
      Adds store seeds origins kinds (grown.allocate origin kind).2

namespace Adds

variable {store grown : Store} {seeds : List NodeId} {origins : NodeId → Prop} {kinds : Kind → Prop} {id : NodeId}
  {kind : Kind}

theorem size_le (adds : store.Adds seeds origins kinds grown) : store.size ≤ grown.size := by
  induction adds with
  | none => exact Nat.le_refl _
  | allocate _ _ _ _ _ continues => exact Nat.le_trans continues size_le_allocate

theorem node? (adds : store.Adds seeds origins kinds grown) (old : id < store.size) : grown.node? id = store.node? id := by
  induction adds with
  | none => rfl
  | allocate adds _ _ _ _ continues => rw [node?_allocate_of_lt (Nat.lt_of_lt_of_le old adds.size_le), continues]

theorem kind? (adds : store.Adds seeds origins kinds grown) (old : id < store.size) : grown.kind? id = store.kind? id := by
  simp [Store.kind?, adds.node? old]

theorem fresh (adds : store.Adds seeds origins kinds grown) (new : store.size ≤ id) (located : id < grown.size) :
    ∃ kind origin, grown.kind? id = some kind ∧ kinds kind ∧ origins origin ∧ grown.offset? id = store.offset? origin ∧
      ∀ child ∈ kind.children, child ∈ seeds ∨ store.size ≤ child ∧ child < grown.size := by
  induction adds with
  | none => exact absurd located (Nat.not_lt.mpr new)
  | @allocate grown origin kind adds inside fromOrigin ofKind children continues =>
    obtain ⟨node, place⟩ := node?_isSome inside
    have placeGrown := (adds.node? inside).trans place
    have size : (grown.allocate origin kind).2.size = grown.size + 1 := by
      simp [Store.allocate, placeGrown, Store.size]
    have wider {child : NodeId} (below : child ∈ seeds ∨ store.size ≤ child ∧ child < grown.size) :
        child ∈ seeds ∨ store.size ≤ child ∧ child < (grown.allocate origin kind).2.size :=
      below.imp_right fun bounds => ⟨bounds.1, Nat.lt_of_lt_of_le bounds.2 size_le_allocate⟩
    rcases Nat.lt_or_ge id grown.size with earlier | last
    · have same : (grown.allocate origin kind).2.node? id = grown.node? id := node?_allocate_of_lt earlier
      obtain ⟨earlierKind, earlierOrigin, found, ofKind, fromOrigin, offset, children⟩ := continues earlier
      refine ⟨earlierKind, earlierOrigin, ?_, ofKind, fromOrigin, ?_, fun child below => wider (children child below)⟩
      · rwa [Store.kind?, same]
      · rwa [Store.offset?, same]
    · rw [size] at located
      obtain rfl : id = grown.size := Nat.le_antisymm (Nat.lt_succ_iff.mp located) last
      have added : (grown.allocate origin kind).2.node? grown.size = some { node with kind } := node?_allocate_self placeGrown
      refine ⟨kind, origin, kind?_of_node? added, ofKind, fromOrigin, ?_, fun child below => wider (children child below)⟩
      simp [Store.offset?, added, place]

end Adds

/-- The seeds are what is left of the trees at the roots after some nodes were opened and some trees left out. -/
inductive Prunes (store : Store) : List NodeId → List NodeId → Prop
  | nil : Prunes store [] []
  | keep {root : NodeId} {rest seeds : List NodeId} (others : Prunes store rest seeds) :
      Prunes store (root :: rest) (root :: seeds)
  | drop {root : NodeId} {rest seeds : List NodeId} (others : Prunes store rest seeds) :
      Prunes store (root :: rest) seeds
  | crack {root : NodeId} {rest below others : List NodeId} {kind : Kind} (found : store.kind? root = some kind)
      (inner : Prunes store kind.children below) (outer : Prunes store rest others) :
      Prunes store (root :: rest) (below ++ others)

namespace Prunes

variable {store : Store} {roots more seeds others : List NodeId} {root seed : NodeId} {kind : Kind}

theorem append (first : store.Prunes roots seeds) (second : store.Prunes more others) :
    store.Prunes (roots ++ more) (seeds ++ others) := by
  induction first with
  | nil => exact second
  | keep _ continues => exact .keep continues
  | drop _ continues => exact .drop continues
  | crack found inner _ _ continues =>
    rw [List.append_assoc]
    exact .crack found inner continues

theorem of_sublist (sub : seeds.Sublist roots) : store.Prunes roots seeds := by
  induction sub with
  | slnil => exact .nil
  | cons _ _ continues => exact .drop continues
  | cons_cons _ _ continues => exact .keep continues

theorem open_root (found : store.kind? root = some kind) (inner : store.Prunes kind.children seeds) :
    store.Prunes [root] seeds := by
  simpa using Prunes.crack found inner .nil

theorem append_inv {left : List NodeId} (prunes : store.Prunes (roots ++ more) left) :
    ∃ seeds others, store.Prunes roots seeds ∧ store.Prunes more others ∧ left = seeds ++ others := by
  induction roots generalizing left with
  | nil => exact ⟨[], left, .nil, prunes, rfl⟩
  | cons root rest continues =>
    cases prunes with
    | keep behind =>
      obtain ⟨seeds, others, first, second, rfl⟩ := continues behind
      exact ⟨root :: seeds, others, .keep first, second, rfl⟩
    | drop behind =>
      obtain ⟨seeds, others, first, second, rfl⟩ := continues behind
      exact ⟨seeds, others, .drop first, second, rfl⟩
    | crack found inner behind =>
      obtain ⟨seeds, others, first, second, rfl⟩ := continues behind
      exact ⟨_ ++ seeds, others, .crack found inner first, second, by simp⟩

theorem trans (first : store.Prunes roots seeds) (second : store.Prunes seeds others) : store.Prunes roots others := by
  induction first generalizing others with
  | nil => exact second
  | keep _ continues =>
    cases second with
    | keep behind => exact .keep (continues behind)
    | drop behind => exact .drop (continues behind)
    | crack found inner behind => exact .crack found inner (continues behind)
  | drop _ continues => exact .drop (continues second)
  | crack found _ _ below behind =>
    obtain ⟨left, right, inner, outer, rfl⟩ := second.append_inv
    exact .crack found (below inner) (behind outer)

theorem reaches (prunes : store.Prunes roots seeds) (chosen : seed ∈ seeds) : ∃ root ∈ roots, store.Reaches root seed := by
  induction prunes with
  | nil => cases chosen
  | @keep root _ _ _ continues =>
    rcases List.mem_cons.mp chosen with rfl | chosen
    · exact ⟨seed, List.mem_cons_self, .refl seed⟩
    · obtain ⟨root, member, reached⟩ := continues chosen
      exact ⟨root, .tail _ member, reached⟩
  | drop _ continues =>
    obtain ⟨root, member, reached⟩ := continues chosen
    exact ⟨root, .tail _ member, reached⟩
  | @crack root _ _ _ _ found _ _ below behind =>
    rcases List.mem_append.mp chosen with chosen | chosen
    · obtain ⟨child, member, reached⟩ := below chosen
      exact ⟨root, List.mem_cons_self, (Reaches.tail (.refl root) found member).trans reached⟩
    · obtain ⟨root, member, reached⟩ := behind chosen
      exact ⟨root, .tail _ member, reached⟩

theorem trees (prunes : store.Prunes roots seeds) (trees : store.Trees roots) :
    store.Trees seeds ∧ seeds.flatMap store.preorder ⊆ roots.flatMap store.preorder := by
  induction prunes with
  | nil => exact ⟨.nil, fun _ inside => inside⟩
  | @keep root rest seeds _ continues =>
    obtain ⟨first, others, apart⟩ := trees.cons_inv
    obtain ⟨left, subset⟩ := continues others
    refine ⟨.cons first left fun id inside among => apart id inside (subset among), ?_⟩
    simp only [List.flatMap_cons]
    exact List.append_subset.mpr ⟨List.subset_append_left _ _, fun id among => List.mem_append_right _ (subset among)⟩
  | drop _ continues =>
    obtain ⟨_, others, _⟩ := trees.cons_inv
    obtain ⟨left, subset⟩ := continues others
    exact ⟨left, fun id among => List.mem_append_right _ (subset among)⟩
  | @crack root rest below others kind found _ _ ofChildren ofRest =>
    obtain ⟨first, outer, apart⟩ := trees.cons_inv
    obtain ⟨order, inner, _⟩ := first.children found
    obtain ⟨leftBelow, subsetBelow⟩ := ofChildren inner
    obtain ⟨leftOthers, subsetOthers⟩ := ofRest outer
    have within (id : NodeId) (among : id ∈ below.flatMap store.preorder) : id ∈ store.preorder root :=
      order ▸ List.mem_cons_of_mem root (subsetBelow among)
    refine ⟨leftBelow.append leftOthers fun id inBelow inOthers => apart id (within id inBelow) (subsetOthers inOthers), ?_⟩
    rw [List.flatMap_append, List.flatMap_cons]
    exact List.append_subset.mpr ⟨fun id among => List.mem_append_left _ (within id among),
      fun id among => List.mem_append_right _ (subsetOthers among)⟩

end Prunes

end Store

def Kind.Plain (kind : Kind) : Prop := ∀ source, kind ≠ .dupLoad source

namespace Draft

/-- A change at one node. The seeds come from below the spot (`own`) and from statements (`donors`). -/
structure Transplant (store grown : Store) (statements fewer : List NodeId) (spot : NodeId) (old kind : Kind)
    (own donors seeds : List NodeId) (origins : NodeId → Prop) (kinds : Kind → Prop) : Prop where
  found : store.kind? spot = some old
  fewer_sublist : fewer.Sublist statements
  own_sublist : own.Sublist old.children
  donors_sublist : donors.Sublist statements
  prunes : store.Prunes (own ++ donors) seeds
  adds : store.Adds seeds origins kinds grown
  children : ∀ child ∈ kind.children, child ∈ seeds ∨ store.size ≤ child ∧ child < grown.size
  placed : ∀ origin, origins origin → origin = spot ∨ ∃ earlier ∈ statements, store.Reaches earlier origin

variable {store grown : Store} {statements fewer own donors seeds : List NodeId} {origins : NodeId → Prop}
  {kinds : Kind → Prop} {spot id : NodeId} {kind old : Kind}

namespace Transplant

theorem node?_of_ne (apart : id ≠ spot) : (grown.replace spot kind).node? id = grown.node? id := by
  rw [Store.node?_replace, if_neg apart]

variable (transplant : Transplant store grown statements fewer spot old kind own donors seeds origins kinds)
include transplant

theorem inside : spot < store.size := Store.lt_size_of_kind? transplant.found

theorem ne_spot (new : store.size ≤ id) : id ≠ spot := fun same => Nat.not_lt.mpr new (same ▸ transplant.inside)

theorem kind?_spot : (grown.replace spot kind).kind? spot = some kind :=
  Store.kind?_replace_self (Nat.lt_of_lt_of_le transplant.inside transplant.adds.size_le)

theorem kind?_fresh (new : store.size ≤ id) : (grown.replace spot kind).kind? id = grown.kind? id := by
  rw [Store.kind?, node?_of_ne (transplant.ne_spot new)]
  rfl

theorem rebuild : Rebuild ⟨store, statements⟩ ⟨grown.replace spot kind, fewer⟩ spot seeds := by
  have adds := transplant.adds
  refine ⟨transplant.fewer_sublist, by simpa using adds.size_le, ?_, ?_, ?_, ?_, ?_⟩
  · exact fun id old apart => (node?_of_ne apart).trans (adds.node? old)
  · obtain ⟨node, located⟩ := Store.node?_isSome transplant.inside
    simp [Store.offset?, Store.node?_replace, adds.node? transplant.inside, located]
  · intro id made changed found child below
    rw [Store.size_replace]
    by_cases same : id = spot
    · subst same
      rw [transplant.kind?_spot, Option.some_inj] at found
      exact transplant.children child (found ▸ below)
    · have new := changed.resolve_left same
      rw [transplant.kind?_fresh new] at found
      obtain ⟨added, _, foundAdded, _, _, _, children⟩ := adds.fresh new (Store.lt_size_of_kind? found)
      obtain rfl : added = made := Option.some_inj.mp (foundAdded.symm.trans found)
      exact children child below
  · intro statement member here seed chosen
    obtain ⟨root, among, reached⟩ := transplant.prunes.reaches chosen
    rcases List.mem_append.mp among with among | among
    · have below := here.tail transplant.found (transplant.own_sublist.subset among)
      exact ⟨statement, transplant.fewer_sublist.subset member, below.trans reached⟩
    · exact ⟨root, transplant.donors_sublist.subset among, reached⟩
  · intro statement member here id new located
    rw [Store.size_replace] at located
    obtain ⟨_, origin, _, _, fromOrigin, offset, _⟩ := adds.fresh new located
    have offset : (grown.replace spot kind).offset? id = store.offset? origin := by
      rw [Store.offset?, node?_of_ne (transplant.ne_spot new)]
      exact offset
    rcases transplant.placed origin fromOrigin with rfl | ⟨earlier, listed, reached⟩
    · exact ⟨statement, transplant.fewer_sublist.subset member, origin, here, offset⟩
    · exact ⟨earlier, listed, origin, reached, offset⟩

theorem lists {roots : List NodeId} (trees : store.Trees roots) (apart : spot ∉ roots.flatMap store.preorder) :
    (grown.replace spot kind).Lists roots (roots.flatMap store.preorder) := by
  refine trees.listed.congr fun id inside => ?_
  obtain ⟨root, member, below⟩ := List.mem_flatMap.mp inside
  exact transplant.rebuild.kind? (trees.lt_size member below) fun same => apart (same ▸ inside)

theorem planted (forest : (⟨store, statements⟩ : Draft).Forest) (dropped : ∀ donor ∈ donors, donor ∉ fewer)
    {statement : NodeId} (member : statement ∈ fewer) (here : spot ∈ store.preorder statement) :
    store.Trees seeds ∧ spot ∉ seeds.flatMap store.preorder ∧
      ∀ seed ∈ seeds, Part ⟨store, statements⟩ ⟨grown.replace spot kind, fewer⟩ spot seed := by
  have memberBefore := transplant.fewer_sublist.subset member
  obtain ⟨tree, _⟩ := forest.node memberBefore here
  obtain ⟨order, inner, outside⟩ := tree.children transplant.found
  have ownInside {id : NodeId} (among : id ∈ own.flatMap store.preorder) : id ∈ store.preorder spot ∧ id ≠ spot := by
    obtain ⟨child, chosen, below⟩ := List.mem_flatMap.mp among
    exact tree.mem_preorder_of_child transplant.found (transplant.own_sublist.subset chosen) below
  have donorsOutside {id : NodeId} (among : id ∈ donors.flatMap store.preorder) : id ∉ store.preorder statement := by
    obtain ⟨donor, chosen, below⟩ := List.mem_flatMap.mp among
    exact forest.disjoint (transplant.donors_sublist.subset chosen) memberBefore
      (fun same => dropped donor chosen (same ▸ member)) below
  have roots : store.Trees (own ++ donors) := by
    refine (inner.sublist transplant.own_sublist).append (forest.sublist transplant.donors_sublist) ?_
    intro id inOwn inDonors
    exact donorsOutside inDonors ((forest.of_mem memberBefore).preorder_subset here (ownInside inOwn).1)
  obtain ⟨trees, subset⟩ := transplant.prunes.trees roots
  rw [List.flatMap_append] at subset
  refine ⟨trees, fun among => ?_, fun seed chosen => ?_⟩
  · rcases List.mem_append.mp (subset among) with among | among
    · exact (ownInside among).2 rfl
    · exact donorsOutside among here
  · have self := List.mem_flatMap.mpr ⟨seed, chosen, (trees.of_mem chosen).mem_preorder_self⟩
    rcases List.mem_append.mp (subset self) with among | among
    · exact .own (ownInside among).1
    · obtain ⟨donor, among, below⟩ := List.mem_flatMap.mp among
      exact .donated (transplant.donors_sublist.subset among) (dropped donor among) below

theorem regrowth (forest : (⟨store, statements⟩ : Draft).Forest) (dropped : ∀ donor ∈ donors, donor ∉ fewer)
    (repeats : ∀ made source, made = kind ∨ kinds made → made = .dupLoad source → ∃ origin,
      store.kind? origin = some (.dupLoad source) ∧ (store.Reaches spot origin ∨ ∃ donor ∈ donors, store.Reaches donor origin))
    (listed : store.Trees seeds → spot ∉ seeds.flatMap store.preorder →
      ∃ below fresh, (grown.replace spot kind).Lists kind.children below ∧
        below.Perm (fresh ++ seeds.flatMap store.preorder) ∧ fresh.Nodup ∧ ∀ id ∈ fresh, store.size ≤ id) :
    Regrowth ⟨store, statements⟩ ⟨grown.replace spot kind, fewer⟩ spot seeds := by
  refine ⟨transplant.rebuild, fun statement member here => ?_, fun statement member here id source changed found => ?_⟩
  · obtain ⟨trees, apart, parts⟩ := transplant.planted forest dropped member here
    obtain ⟨below, fresh, lists, composed, distinct, new⟩ := listed trees apart
    exact ⟨trees, apart, parts, kind, below, fresh, transplant.kind?_spot, lists, composed, distinct, new⟩
  · obtain ⟨made, allowed, same⟩ : ∃ made, (made = kind ∨ kinds made) ∧ made = .dupLoad source := by
      by_cases same : id = spot
      · subst same
        exact ⟨kind, .inl rfl, Option.some_inj.mp (transplant.kind?_spot.symm.trans found)⟩
      · have new := changed.resolve_left same
        rw [transplant.kind?_fresh new] at found
        obtain ⟨added, _, foundAdded, ofKind, _⟩ := transplant.adds.fresh new (Store.lt_size_of_kind? found)
        exact ⟨added, .inr ofKind, Option.some_inj.mp (foundAdded.symm.trans found)⟩
    obtain ⟨origin, foundOrigin, reached | ⟨donor, chosen, reached⟩⟩ := repeats made source allowed same
    · obtain ⟨tree, _⟩ := forest.node (transplant.fewer_sublist.subset member) here
      exact ⟨origin, foundOrigin, .own (tree.mem_preorder_iff.mpr reached)⟩
    · have listedDonor := transplant.donors_sublist.subset chosen
      exact ⟨origin, foundOrigin, .donated listedDonor (dropped donor chosen)
        ((forest.of_mem listedDonor).mem_preorder_iff.mpr reached)⟩

end Transplant

theorem Transplant.not_dupLoad
    (transplant : Transplant store grown statements fewer spot old kind own donors seeds origins Kind.Plain)
    (plain : kind.Plain) {source : NodeId} (changed : id = spot ∨ store.size ≤ id) :
    (grown.replace spot kind).kind? id ≠ some (.dupLoad source) := by
  intro found
  by_cases same : id = spot
  · subst same
    exact plain source (Option.some_inj.mp (transplant.kind?_spot.symm.trans found))
  · have new := changed.resolve_left same
    rw [transplant.kind?_fresh new] at found
    obtain ⟨added, _, foundAdded, ofKind, _⟩ := transplant.adds.fresh new (Store.lt_size_of_kind? found)
    exact ofKind source (Option.some_inj.mp (foundAdded.symm.trans found))

theorem Transplant.inPlace (found : store.kind? spot = some old) (prunes : store.Prunes old.children seeds)
    (adds : store.Adds seeds (· = spot) kinds grown)
    (children : ∀ child ∈ kind.children, child ∈ seeds ∨ store.size ≤ child ∧ child < grown.size) :
    Transplant store grown statements statements spot old kind old.children [] seeds (· = spot) kinds :=
  ⟨found, .refl _, .refl _, List.nil_sublist _, by simpa using prunes, adds, children, fun _ same => .inl same⟩

theorem Transplant.regrowth_within
    (transplant : Transplant store grown statements statements spot old kind own [] seeds origins Kind.Plain)
    (forest : (⟨store, statements⟩ : Draft).Forest)
    (repeats : ∀ source, kind = .dupLoad source →
      ∃ origin, store.kind? origin = some (.dupLoad source) ∧ store.Reaches spot origin)
    (listed : store.Trees seeds → spot ∉ seeds.flatMap store.preorder →
      ∃ below fresh, (grown.replace spot kind).Lists kind.children below ∧
        below.Perm (fresh ++ seeds.flatMap store.preorder) ∧ fresh.Nodup ∧ ∀ id ∈ fresh, store.size ≤ id) :
    Regrowth ⟨store, statements⟩ ⟨grown.replace spot kind, statements⟩ spot seeds := by
  refine transplant.regrowth forest (by simp) (fun made source allowed same => ?_) listed
  rcases allowed with rfl | plain
  · obtain ⟨origin, found, reached⟩ := repeats source same
    exact ⟨origin, found, .inl reached⟩
  · exact absurd same (plain source)

theorem Transplant.within
    (transplant : Transplant store grown statements statements spot old kind own [] seeds origins Kind.Plain)
    (unheld : ∀ value, old ≠ .dupStore value)
    (repeats : ∀ source, kind = .dupLoad source →
      ∃ origin, store.kind? origin = some (.dupLoad source) ∧ store.Reaches spot origin)
    (listed : store.Trees seeds → spot ∉ seeds.flatMap store.preorder →
      ∃ below fresh, (grown.replace spot kind).Lists kind.children below ∧
        below.Perm (fresh ++ seeds.flatMap store.preorder) ∧ fresh.Nodup ∧ ∀ id ∈ fresh, store.size ≤ id) :
    Stems ⟨store, statements⟩ ⟨grown.replace spot kind, statements⟩ ∧
      Keeps ⟨store, statements⟩ ⟨grown.replace spot kind, statements⟩ := by
  have regrowth (forest : (⟨store, statements⟩ : Draft).Forest) := transplant.regrowth_within forest repeats listed
  refine ⟨transplant.rebuild.stems, fun forest => (regrowth forest).forest forest, fun forest ordered => ?_,
    fun forest _ tied => ?_⟩
  · exact (regrowth forest).ordered forest ordered fun _ _ _ _ _ donor listed dropped => absurd listed dropped
  · intro statement member source loads
    refine (regrowth forest).held forest tied member loads fun value listed found => ⟨listed, fun same => ?_⟩
    rw [same, transplant.found, Option.some_inj] at found
    exact unheld value found

theorem regrowth_seeds (found : store.kind? spot = some old) (prunes : store.Prunes old.children kind.children)
    (forest : (⟨store, statements⟩ : Draft).Forest)
    (repeats : ∀ source, kind = .dupLoad source →
      ∃ origin, store.kind? origin = some (.dupLoad source) ∧ store.Reaches spot origin) :
    Regrowth ⟨store, statements⟩ ⟨store.replace spot kind, statements⟩ spot kind.children := by
  have transplant : Transplant store store statements statements spot old kind old.children [] kind.children (· = spot)
      Kind.Plain :=
    .inPlace found prunes .none fun _ below => .inl below
  exact transplant.regrowth_within forest repeats
    fun trees apart => ⟨_, [], transplant.lists trees apart, .refl _, .nil, by simp⟩

theorem within_seeds (found : store.kind? spot = some old) (prunes : store.Prunes old.children kind.children)
    (unheld : ∀ value, old ≠ .dupStore value)
    (repeats : ∀ source, kind = .dupLoad source →
      ∃ origin, store.kind? origin = some (.dupLoad source) ∧ store.Reaches spot origin) :
    Stems ⟨store, statements⟩ ⟨store.replace spot kind, statements⟩ ∧
      Keeps ⟨store, statements⟩ ⟨store.replace spot kind, statements⟩ := by
  have transplant : Transplant store store statements statements spot old kind old.children [] kind.children (· = spot)
      Kind.Plain :=
    .inPlace found prunes .none fun _ below => .inl below
  exact transplant.within unheld repeats fun trees apart => ⟨_, [], transplant.lists trees apart, .refl _, .nil, by simp⟩

end Draft

end ClassLift
