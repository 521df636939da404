import ClassLift.Proofs.Action
import ClassLift.Proofs.Body.Reach
import ClassLift.Proofs.Idiom.Rebuild

namespace ClassLift

variable {ε σ : Type}

namespace Store

/-- The listed nodes may have changed and nodes may have been added; nothing else has changed. -/
structure Spares (ids : List NodeId) (before after : Store) : Prop where
  size_le : before.size ≤ after.size
  kind? : ∀ id < before.size, id ∉ ids → after.kind? id = before.kind? id

namespace Spares

variable {ids more : List NodeId} {before middle after : Store} {id : NodeId} {kind : Kind}

theorem refl (ids : List NodeId) (store : Store) : Spares ids store store := ⟨Nat.le_refl _, fun _ _ _ => rfl⟩

theorem trans (first : Spares ids before middle) (second : Spares more middle after) : Spares (ids ++ more) before after := by
  refine ⟨Nat.le_trans first.size_le second.size_le, fun id old outside => ?_⟩
  rw [List.mem_append, not_or] at outside
  rw [second.kind? id (Nat.lt_of_lt_of_le old first.size_le) outside.2, first.kind? id old outside.1]

theorem replace (grows : before.size ≤ middle.size) (same : ∀ other < before.size, middle.node? other = before.node? other)
    (id : NodeId) (kind : Kind) : Spares [id] before (middle.replace id kind) := by
  refine ⟨by rwa [size_replace], fun other old outside => ?_⟩
  rw [kind?_replace_of_ne (fun equal => outside (List.mem_singleton.mpr equal)), Store.kind?, same other old]
  rfl

theorem foldlM {step : Store → NodeId → ExceptT ε (StateM σ) Store}
    (steps : ∀ {store id state changed last}, step store id state = (.ok changed, last) → Spares [id] store changed)
    {state last : σ} (ran : ids.foldlM step before state = (.ok after, last)) : Spares ids before after := by
  induction ids generalizing before state with
  | nil =>
    obtain ⟨rfl, _⟩ := pure_ok.mp ran
    exact .refl [] _
  | cons id rest continues =>
    rw [List.foldlM_cons] at ran
    obtain ⟨changed, middle, stepped, ran⟩ := bind_ok.mp ran
    exact (steps stepped).trans (continues ran)

end Spares

variable {store : Store} {roots : List NodeId} {root id other : NodeId}

namespace Trees

variable (tree : store.Trees [id])
include tree

theorem postorderWithin_eq {depth : Nat} (deep : (store.preorder id).length ≤ depth) (bounded : depth ≤ store.size) :
    store.postorderWithin depth id = store.postorder [id] := by
  have listed : store.Lists [id] (store.preorder id) := by simpa using tree.listed
  have whole := listed.flatMap_preorderWithin deep
  rw [List.flatMap_singleton] at whole
  rw [Store.postorder, List.flatMap_singleton]
  refine (postorderWithin_sublist bounded).eq_of_length ?_
  rw [postorderWithin_perm.length_eq, postorderWithin_perm.length_eq, whole]
  rfl

theorem postorder_sublist (member : root ∈ roots) (reached : store.Reaches root id) :
    (store.postorder [id]).Sublist (store.postorder roots) := by
  have distinct := tree.preorder_nodup
  have self := tree.mem_preorder_self
  have known (other : NodeId) (inside : other ∈ store.preorder id) := tree.lt_size List.mem_cons_self inside
  -- Nothing strictly below the root of a tree leads back to it, so there is room for all of the tree.
  have visited := postorderWithin_sublist_postorder ((store.preorder id).erase id).toFinset member reached (known id self)
    (fun other among => known other (List.mem_of_mem_erase (List.mem_toFinset.mp among)))
    (fun other among way => by
      obtain ⟨apart, below⟩ := distinct.mem_erase_iff.mp (List.mem_toFinset.mp among)
      have inner := (tree.node List.mem_cons_self below).1
      exact tree.not_mem_preorder below apart (inner.mem_preorder_iff.mpr way))
  have room : ((store.preorder id).erase id).toFinset.card + 1 = (store.preorder id).length := by
    rw [List.toFinset_card_of_nodup (distinct.erase id), List.length_erase_of_mem self]
    exact Nat.sub_add_cancel (List.length_pos_of_mem self)
  have bounded : (store.preorder id).length ≤ store.size := by simpa using tree.listed.length_le_size tree.distinct
  rwa [room, tree.postorderWithin_eq (Nat.le_refl _) bounded] at visited

theorem pair_sublist_postorder (below : other ∈ store.preorder id) (apart : other ≠ id) :
    [other, id].Sublist (store.postorder [id]) := by
  obtain ⟨kind, _, found, _⟩ := Lists.singleton_iff.mp tree.listed
  obtain ⟨depth, same⟩ := Nat.exists_eq_add_one_of_ne_zero (Nat.ne_zero_of_lt (lt_size_of_kind? found))
  have among : other ∈ store.postorder [id] := postorder_perm.mem_iff.mpr (by simpa using below)
  rw [Store.postorder, List.flatMap_singleton, same] at among ⊢
  simp only [postorderWithin, found] at among ⊢
  exact Draft.pair_sublist_of_mem_left ((List.mem_append.mp among).resolve_right fun last => apart (List.mem_singleton.mp last))

theorem postorder_split (once : ∀ other ∈ store.preorder id, (store.postorder roots).count other = 1) {before after : List NodeId}
    (order : store.postorder roots = before ++ id :: after) :
    id ∉ before ∧ id ∉ after ∧ ∀ other, store.Reaches id other → other ≠ id → other ∈ before ∧ other ∉ after := by
  rw [order] at once
  have alone := once id tree.mem_preorder_self
  rw [List.count_append, List.count_cons_self] at alone
  have notBefore : id ∉ before := List.count_eq_zero.mp (by omega)
  have notAfter : id ∉ after := List.count_eq_zero.mp (by omega)
  refine ⟨notBefore, notAfter, fun other reached apart => ?_⟩
  have below := tree.mem_preorder_iff.mpr reached
  have visited : id ∈ store.postorder roots := order ▸ List.mem_append_right before List.mem_cons_self
  obtain ⟨root, member, way, _⟩ := mem_postorder_iff_reaches.mp visited
  have pair := (tree.pair_sublist_postorder below apart).trans (tree.postorder_sublist member way)
  have early := Draft.mem_left_of_pair apart notAfter (order ▸ pair)
  refine ⟨early, fun late => ?_⟩
  have single := once other below
  rw [List.count_append, List.count_cons_of_ne (Ne.symm apart)] at single
  have inBefore := List.count_pos_iff.mpr early
  have inAfter := List.count_pos_iff.mpr late
  omega

end Trees

end Store

theorem foldlM_visit {α β : Type} {step : β → α → ExceptT ε (StateM σ) β} {before after : List α} {element : α} {value result : β}
    {state last : σ} (ran : (before ++ element :: after).foldlM step value state = (.ok result, last)) :
    ∃ reached middle next later, before.foldlM step value state = (.ok reached, middle) ∧
      step reached element middle = (.ok next, later) ∧ after.foldlM step next later = (.ok result, last) := by
  rw [List.foldlM_append] at ran
  obtain ⟨reached, middle, first, ran⟩ := bind_ok.mp ran
  rw [List.foldlM_cons] at ran
  obtain ⟨next, later, stepped, ran⟩ := bind_ok.mp ran
  exact ⟨reached, middle, next, later, first, stepped, ran⟩

namespace Store

/-- A visit to a node in the course of a walk: the nodes visited before and after it, the stores and states around it. -/
structure Visit (step : Store → NodeId → ExceptT ε (StateM σ) Store) (origin : Store) (first : σ) (id : NodeId)
    (result : Store) (last : σ) where
  before : List NodeId
  after : List NodeId
  store : Store
  state : σ
  changed : Store
  next : σ
  walked : before.foldlM step origin first = (.ok store, state)
  stepped : step store id state = (.ok changed, next)
  rest : after.foldlM step changed next = (.ok result, last)
  tree : origin.Trees [id]
  untouched : store.kind? id = origin.kind? id
  spares : Spares after changed result
  notAfter : id ∉ after
  below : ∀ other, origin.Reaches id other → other ≠ id → other ∈ before ∧ other ∉ after

theorem Trees.visit {step : Store → NodeId → ExceptT ε (StateM σ) Store} {origin result : Store} {roots : List NodeId}
    {id : NodeId} {first last : σ} (tree : origin.Trees [id])
    (once : ∀ other ∈ origin.preorder id, (origin.postorder roots).count other = 1)
    (steps : ∀ {store id state changed last}, step store id state = (.ok changed, last) → Spares [id] store changed)
    (ran : (origin.postorder roots).foldlM step origin first = (.ok result, last)) :
    ∃ visit : Visit step origin first id result last, origin.postorder roots = visit.before ++ id :: visit.after := by
  have self := tree.mem_preorder_self
  have among : id ∈ origin.postorder roots := List.count_pos_iff.mp (by rw [once id self]; exact Nat.one_pos)
  obtain ⟨before, after, order⟩ := List.append_of_mem among
  obtain ⟨notBefore, notAfter, below⟩ := tree.postorder_split once order
  rw [order] at ran
  obtain ⟨store, state, changed, next, walked, stepped, rest⟩ := foldlM_visit ran
  refine ⟨⟨before, after, store, state, changed, next, walked, stepped, rest, tree, ?_, .foldlM steps rest, notAfter, below⟩,
    order⟩
  exact (Spares.foldlM steps walked).kind? id (tree.lt_size List.mem_cons_self self) notBefore

end Store

end ClassLift
