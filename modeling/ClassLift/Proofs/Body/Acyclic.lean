import ClassLift.Proofs.Body.Store
import Mathlib.Data.Finset.Card
import Mathlib.Logic.Relation

namespace ClassLift

open Relation in
theorem exists_rank {edge : NodeId → NodeId → Prop} {size : Nat}
    (inside : ∀ parent child, edge parent child → parent < size) :
    ∃ rank : NodeId → Nat, (∀ id, rank id ≤ size) ∧ (∀ id < size, 0 < rank id) ∧
      ∀ parent child, edge parent child → ¬TransGen edge parent parent → rank child < rank parent := by
  classical
  -- The rank counts the nodes that can be reached. A parent reaches what its child reaches and itself; the child does not.
  let below (id : NodeId) : Finset Nat := {other ∈ Finset.range size | ReflTransGen edge id other}
  have mem_below (id other : NodeId) : other ∈ below id ↔ other < size ∧ ReflTransGen edge id other := by simp [below]
  refine ⟨fun id => (below id).card, ?_, ?_, ?_⟩
  · intro id
    calc (below id).card ≤ (Finset.range size).card := Finset.card_filter_le _ _
      _ = size := Finset.card_range size
  · intro id known
    exact Finset.card_pos.mpr ⟨id, (mem_below id id).mpr ⟨known, .refl⟩⟩
  · intro parent child step acyclic
    refine Finset.card_lt_card (Finset.ssubset_iff_of_subset ?_ |>.mpr ⟨parent, ?_, ?_⟩)
    · intro other member
      obtain ⟨known, reached⟩ := (mem_below child other).mp member
      exact (mem_below parent other).mpr ⟨known, .head step reached⟩
    · exact (mem_below parent parent).mpr ⟨inside parent child step, .refl⟩
    · intro member
      exact acyclic (.head' step ((mem_below child parent).mp member).2)

theorem not_transGen_of_descending {edge : NodeId → NodeId → Prop}
    (descending : ∀ parent child, edge parent child → child < parent) (id : NodeId) : ¬Relation.TransGen edge id id := by
  intro cycle
  have falls : ∀ last, Relation.TransGen edge id last → last < id := by
    intro last way
    induction way with
    | single step => exact descending _ _ step
    | tail _ step earlier => exact (descending _ _ step).trans earlier
  exact Nat.lt_irrefl id (falls id cycle)

namespace Store

/-- One node names another, as an operand or as the store that a repeated value comes from. -/
def Link (store : Store) (parent child : NodeId) : Prop := ∃ kind, store.kind? parent = some kind ∧ child ∈ kind.links

def Acyclic (store : Store) : Prop := ∀ id, ¬Relation.TransGen store.Link id id

variable {store : Store}

theorem exists_linkRank (store : Store) :
    ∃ rank : NodeId → Nat, (∀ id, rank id ≤ store.size) ∧ (∀ id < store.size, 0 < rank id) ∧
      ∀ parent child, store.Link parent child → ¬Relation.TransGen store.Link parent parent → rank child < rank parent := by
  refine exists_rank fun parent child step => ?_
  obtain ⟨kind, found, _⟩ := step
  exact lt_size_of_kind? found

theorem acyclic_of_descending (descending : ∀ parent child, store.Link parent child → child < parent) :
    store.Acyclic :=
  not_transGen_of_descending descending

end Store

end ClassLift
