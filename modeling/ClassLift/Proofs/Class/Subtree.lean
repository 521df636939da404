import ClassLift.Proofs.Class.Nesting

namespace ClassLift

namespace ClassTable

open Relation

/-- A class and the classes around it, up to one that stands alone. -/
inductive Enclosed (table : ClassTable) : ClassId → List ClassId → Prop
  | alone {id : ClassId} (alone : table.outerOf? id = none) : Enclosed table id [id]
  | inside {id outer : ClassId} {chain : List ClassId} (inside : table.outerOf? id = some outer)
      (further : Enclosed table outer chain) : Enclosed table id (id :: chain)

variable {table : ClassTable} {root id outer : ClassId} {pending order : List ClassId}

/-! ## Enclosing classes -/

namespace Built

variable (built : table.Built)
include built

theorem enclosed_outerChainWithin {depth : Nat} (some_depth : 0 < depth) (deep : ∀ outer, table.outerOf? id = some outer → id < depth) :
    table.Enclosed id (table.outerChainWithin depth id) := by
  induction depth generalizing id with
  | zero => exact absurd some_depth (Nat.lt_irrefl 0)
  | succ depth continues =>
    rw [outerChainWithin, ← outerOf?]
    cases around : table.outerOf? id with
    | none => exact .alone around
    | some outer =>
      have shallow : outer < depth := Nat.lt_of_lt_of_le (built.outer_lt around) (Nat.le_of_lt_succ (deep outer around))
      exact .inside around (continues (Nat.zero_lt_of_lt shallow) fun _ _ => shallow)

theorem mem_enclosed_iff (enclosed : table.Enclosed id order) : root ∈ order ↔ table.Within root id := by
  induction enclosed with
  | @alone id alone =>
    rw [List.mem_singleton]
    constructor
    · rintro rfl
      exact .refl
    · intro way
      rcases ReflTransGen.cases_tail way with same | ⟨outer, _, step⟩
      · exact same.symm
      · exact absurd (alone.symm.trans (built.mem_innerOf_iff.mp step)) (Option.some_ne_none outer).symm
  | @inside id outer chain around _ continues =>
    rw [List.mem_cons, continues]
    constructor
    · rintro (rfl | way)
      · exact .refl
      · exact .tail way (built.mem_innerOf_iff.mpr around)
    · intro way
      rcases ReflTransGen.cases_tail way with same | ⟨parent, way, step⟩
      · exact .inl same.symm
      · cases around.symm.trans (built.mem_innerOf_iff.mp step)
        exact .inr way

end Built

/-! ## The walk -/

theorem Lists.mem_of_within (listed : table.Lists pending order) {top : ClassId} (among : top ∈ pending)
    (way : table.Within top id) : id ∈ order := by
  induction listed generalizing top with
  | nil => cases among
  | @cons first pending below rest _ _ inside others =>
    rw [List.cons_append, List.mem_cons, List.mem_append]
    rcases List.mem_cons.mp among with rfl | later
    · rcases ReflTransGen.cases_head way with same | ⟨child, step, way⟩
      · exact .inl same.symm
      · exact .inr (.inl (inside step way))
    · exact .inr (.inr (others later way))

theorem Lists.unique {another : List ClassId} (first : table.Lists pending order) (second : table.Lists pending another) :
    order = another := by
  rw [← first.subtreeFrom_eq (Nat.le_max_left order.length another.length)]
  exact second.subtreeFrom_eq (Nat.le_max_right order.length another.length)

theorem Nested.subtree_eq (nested : table.Nested) (inside : root < table.size) :
    table.subtree root = root :: (table.innerOf root).flatMap table.subtree := by
  have below (pending : List ClassId) (known : ∀ id ∈ pending, id < table.size) :
      table.Lists pending (pending.flatMap table.subtree) := by
    induction pending with
    | nil => exact .nil
    | cons id rest continues =>
      obtain ⟨here, known⟩ := List.forall_mem_cons.mp known
      exact (nested.lists_subtree here).1.append (continues known)
  have inner := below (table.innerOf root) fun child among => (nested.later root child among).2
  simpa using (nested.lists_subtree inside).1.unique (.cons inner .nil)

/-- The loop over pending classes ends, so that further steps add nothing, and what it gives is the recursive order. -/
theorem Built.subtree_preorder (built : table.Built) (inside : root < table.size) :
    (∀ id, table.innerOf id = (List.range table.size).filter fun child => table.outerOf? child = some id) ∧
      table.subtree root = root :: (table.innerOf root).flatMap table.subtree ∧
      (∀ steps ≥ table.size, table.subtreeFrom steps [root] = table.subtree root) ∧
      (table.subtree root).Nodup ∧
      ∀ id, (id ∈ table.subtree root ↔ root ∈ table.outerChain id) ∧ table.Enclosed id (table.outerChain id) := by
  have nested := built.nested
  obtain ⟨listed, bounded⟩ := nested.lists_subtree inside
  refine ⟨built.innerOf_eq, nested.subtree_eq inside, fun steps enough => listed.subtreeFrom_eq (Nat.le_trans bounded enough),
    nested.nodup_of_lists listed (List.pairwise_singleton _ _), fun id => ?_⟩
  have enclosed : table.Enclosed id (table.outerChain id) :=
    built.enclosed_outerChainWithin (Nat.zero_lt_of_lt inside) fun _ => lt_size_of_outerOf?
  refine ⟨?_, enclosed⟩
  rw [built.mem_enclosed_iff enclosed]
  constructor
  · intro among
    obtain ⟨top, single, way⟩ := listed.within among
    cases List.mem_singleton.mp single
    exact way
  · exact listed.mem_of_within (List.mem_singleton_self root)

/-- The class 3 is nested in 1 and comes after 2, which stands beside 1. -/
def crossed : ClassTable := (((empty.insert {} none).insert {} (some 0)).insert {} (some 0)).insert {} (some 1)

theorem crossed_subtree : crossed.Built ∧ crossed.subtree 0 = [0, 1, 3, 2] ∧ 3 ∈ crossed.subtree 1 ∧ 3 ∉ crossed.subtree 2 := by
  have built : crossed.Built := by
    refine .insert (.insert (.insert (.insert .empty ?_ ?_) ?_ ?_) ?_ ?_) ?_ ?_ <;> simp [size_insert]
  obtain ⟨_, _, _, _, first⟩ := built.subtree_preorder (show 1 < crossed.size by decide)
  obtain ⟨_, _, _, _, second⟩ := built.subtree_preorder (show 2 < crossed.size by decide)
  exact ⟨built, rfl, (first 3).1.mpr (by decide), mt (second 3).1.mp (by decide)⟩

end ClassTable

end ClassLift
