import ClassLift.Proofs.Body.Acyclic
import ClassLift.Proofs.Body.Tree
import Mathlib.Data.List.Flatten

namespace ClassLift

open Relation in
/-- A way that leaves its start can be cut so that it does not come back there. -/
theorem reflTransGen_avoid {edge : NodeId → NodeId → Prop} {first last : NodeId} (way : ReflTransGen edge first last) :
    last = first ∨ ∃ second, edge first second ∧ second ≠ first ∧
      ReflTransGen (fun one other => edge one other ∧ other ≠ first) second last := by
  induction way with
  | refl => exact .inl rfl
  | @tail middle last _ step continues =>
    by_cases back : last = first
    · exact .inl back
    · rcases continues with rfl | ⟨second, start, apart, onward⟩
      · exact .inr ⟨last, step, back, .refl⟩
      · exact .inr ⟨second, start, apart, onward.tail ⟨step, back⟩⟩

namespace Store

variable {store : Store} {root id : NodeId} {depth : Nat}

theorem exists_childRank (store : Store) :
    ∃ rank : NodeId → Nat, (∀ id, rank id ≤ store.size) ∧ (∀ id < store.size, 0 < rank id) ∧
      ∀ parent child, store.Child parent child → ¬Relation.TransGen store.Child parent parent → rank child < rank parent := by
  refine exists_rank fun parent child step => ?_
  obtain ⟨kind, found, _⟩ := step
  exact lt_size_of_kind? found

/-! ## Room below a visited node -/

theorem postorderWithin_sublist {more : Nat} (deeper : depth ≤ more) :
    (store.postorderWithin depth id).Sublist (store.postorderWithin more id) := by
  induction depth generalizing id more with
  | zero => exact List.nil_sublist _
  | succ depth continues =>
    obtain ⟨more, rfl⟩ := Nat.exists_eq_add_one_of_ne_zero (Nat.ne_zero_of_lt deeper)
    unfold postorderWithin
    cases store.kind? id with
    | none => exact .refl _
    | some kind =>
      exact (List.Sublist.flatMap_right _ fun child _ => continues (Nat.le_of_succ_le_succ deeper)).append (.refl _)

theorem postorderWithin_sublist_of_way {allowed : Finset NodeId} (room : Nat)
    (way : Relation.ReflTransGen (fun one other => store.Child one other ∧ other ∈ allowed) root id) (start : root ∈ allowed) :
    (store.postorderWithin (room + 1) id).Sublist (store.postorderWithin (allowed.card + room) root) := by
  induction count : allowed.card generalizing allowed root with
  | zero => exact absurd start (Finset.card_eq_zero.mp count ▸ Finset.notMem_empty root)
  | succ depth continues =>
    rcases reflTransGen_avoid way with rfl | ⟨child, ⟨⟨kind, found, below⟩, among⟩, apart, onward⟩
    · exact postorderWithin_sublist (by omega)
    · have fewer : (allowed.erase root).card = depth := by
        rw [Finset.card_erase_of_mem start, count, Nat.add_sub_cancel]
      have shorter : Relation.ReflTransGen (fun one other => store.Child one other ∧ other ∈ allowed.erase root) child id := by
        refine Relation.ReflTransGen.mono ?_ child id onward
        rintro one other ⟨⟨step, member⟩, away⟩
        exact ⟨step, Finset.mem_erase.mpr ⟨away, member⟩⟩
      have visited := continues shorter (Finset.mem_erase.mpr ⟨apart, among⟩) fewer
      rw [Nat.add_right_comm]
      simp only [postorderWithin, found]
      exact (visited.trans (List.sublist_flatten_of_mem (List.mem_map_of_mem below))).trans (List.sublist_append_left _ _)

/-- A node is visited with room for as many levels below it as there are nodes from which it cannot be reached. -/
theorem postorderWithin_sublist_postorder {roots : List NodeId} (aside : Finset NodeId) (member : root ∈ roots)
    (reached : store.Reaches root id) (inside : id < store.size) (known : ∀ other ∈ aside, other < store.size)
    (apart : ∀ other ∈ aside, ¬ store.Reaches other id) :
    (store.postorderWithin (aside.card + 1) id).Sublist (store.postorder roots) := by
  have way : Relation.ReflTransGen (fun one other => store.Child one other ∧ other ∈ Finset.range store.size \ aside) root id ∧
      root ∈ Finset.range store.size \ aside := by
    have allowed (other : NodeId) (located : other < store.size) (onward : store.Reaches other id) :
        other ∈ Finset.range store.size \ aside :=
      Finset.mem_sdiff.mpr ⟨Finset.mem_range.mpr located, fun among => apart other among onward⟩
    clear member
    induction reached using Relation.ReflTransGen.head_induction_on with
    | refl => exact ⟨.refl, allowed id inside (.refl id)⟩
    | head step rest continues =>
      obtain ⟨kind, found, below⟩ := step
      exact ⟨.head ⟨⟨kind, found, below⟩, continues.2⟩ continues.1,
        allowed _ (lt_size_of_kind? found) (.head ⟨kind, found, below⟩ rest)⟩
  have total : (Finset.range store.size \ aside).card + aside.card = store.size := by
    rw [Finset.card_sdiff_add_card_eq_card fun other among => Finset.mem_range.mpr (known other among), Finset.card_range]
  have visited := postorderWithin_sublist_of_way aside.card way.1 way.2
  rw [total] at visited
  exact visited.trans (List.sublist_flatten_of_mem (List.mem_map_of_mem member))

/-! ## What is visited -/

theorem postorderWithin_perm : (store.postorderWithin depth root).Perm (store.preorderWithin depth root) := by
  induction depth generalizing root with
  | zero => exact .refl _
  | succ depth continues =>
    unfold postorderWithin preorderWithin
    cases store.kind? root with
    | none => exact .refl _
    | some kind => exact (List.perm_append_singleton root _).trans (.cons root (.flatMap_left _ fun _ _ => continues))

theorem postorder_perm {roots : List NodeId} : (store.postorder roots).Perm (roots.flatMap store.preorder) :=
  .flatMap_left roots fun _ _ => postorderWithin_perm

theorem mem_preorder_iff_reaches : id ∈ store.preorder root ↔ store.Reaches root id ∧ id < store.size := by
  constructor
  · exact reaches_of_mem_preorderWithin
  · rintro ⟨reached, inside⟩
    obtain ⟨node, located⟩ := node?_isSome inside
    have here : id ∈ store.postorderWithin 1 id := by simp [postorderWithin, kind?_of_node? located]
    have visited := postorderWithin_sublist_postorder ∅ (List.mem_singleton_self root) reached inside (by simp) (by simp)
    rw [postorder, List.flatMap_singleton] at visited
    exact postorderWithin_perm.mem_iff.mp (visited.subset here)

theorem mem_postorder_iff_reaches {roots : List NodeId} :
    id ∈ store.postorder roots ↔ ∃ root ∈ roots, store.Reaches root id ∧ id < store.size := by
  rw [postorder_perm.mem_iff, List.mem_flatMap]
  exact exists_congr fun root => and_congr_right fun _ => mem_preorder_iff_reaches

end Store

end ClassLift
