import ClassLift.Proofs.Body.Store
import Mathlib.Order.Defs.Unbundled

namespace ClassLift

namespace Store

def position? (store : Store) (id : NodeId) : Option (Offset × Option UInt32) :=
  (store.node? id).map fun node => (node.offset, node.line)

structure Grows (before after : Store) : Prop where
  kept : ∀ id place, before.position? id = some place → after.position? id = some place
  added : ∀ id place, after.position? id = some place → ∃ origin, before.position? origin = some place

namespace Grows

variable {before middle after store : Store} {id origin : NodeId} {kind : Kind}

theorem refl (store : Store) : store.Grows store := ⟨fun _ _ stands => stands, fun id _ stands => ⟨id, stands⟩⟩

theorem trans (first : before.Grows middle) (second : middle.Grows after) : before.Grows after := by
  refine ⟨fun id place stands => second.kept id place (first.kept id place stands), fun id place stands => ?_⟩
  obtain ⟨between, stands⟩ := second.added id place stands
  exact first.added between place stands

theorem of_position? (same : ∀ id, after.position? id = before.position? id) : before.Grows after :=
  ⟨fun id _ stands => (same id).trans stands, fun id _ stands => ⟨id, (same id).symm.trans stands⟩⟩

theorem replace (store : Store) (id : NodeId) (kind : Kind) : store.Grows (store.replace id kind) := by
  refine of_position? fun other => ?_
  rw [position?, position?, node?_replace]
  by_cases same : other = id
  · simp [same, Function.comp_def]
  · simp [same]

theorem negate (store : Store) (id : NodeId) : store.Grows (store.negate id) := by
  refine of_position? fun other => ?_
  rw [position?, position?, node?_negate]
  by_cases same : other = id
  · simp [same, Function.comp_def]
  · simp [same]

theorem allocate (store : Store) (origin : NodeId) (kind : Kind) : store.Grows (store.allocate origin kind).2 := by
  constructor
  · intro id place stands
    obtain ⟨node, located, rfl⟩ := Option.map_eq_some_iff.mp stands
    rw [position?, node?_allocate_of_lt (lt_size_of_node? located), located]
    rfl
  · intro id place stands
    cases found : store.node? origin with
    | none => exact ⟨id, by rwa [Store.allocate, found] at stands⟩
    | some node =>
      obtain ⟨added, located, rfl⟩ := Option.map_eq_some_iff.mp stands
      rw [Store.allocate, found] at located
      simp only [node?, Array.getElem?_push] at located
      by_cases new : id = store.nodes.size
      · rw [if_pos new, Option.some_inj] at located
        exact ⟨origin, by rw [position?, found, ← located]; rfl⟩
      · rw [if_neg new] at located
        exact ⟨id, Option.map_eq_some_iff.mpr ⟨added, located, rfl⟩⟩

end Grows

end Store

end ClassLift
