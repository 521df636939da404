import ClassLift.Class.Table
import Mathlib.Data.List.Perm.Basic
import Mathlib.Data.List.Perm.Subperm
import Mathlib.Logic.Relation

/-!
# Nested classes

Classes are nested in each other like the nodes of a forest, and nested classes come later in the table. So the size of the table is
enough for a walk over a class and the classes nested in it. If nested classes change places, so does their order in the walk, and
nothing else.
-/

namespace ClassLift

open Relation

/-- A class whose fields and nested classes stand in another order. `place` says where in the table the nested classes are now. -/
structure ClassFile.Rearranged (place : ClassId → ClassId) (file moved : ClassFile) : Prop where
  fields : moved.fields.toList.Perm file.fields.toList
  inner : moved.inner.Perm (file.inner.map place)
  rest : { moved with
    fields := file.fields, inner := file.inner, outer := file.outer, outerField := file.outerField } = file

namespace ClassTable

def innerOf (table : ClassTable) (id : ClassId) : List ClassId := (table.get? id).elim [] ClassFile.inner

/-- A class is nested in one class at most, once, and comes later than that. -/
structure Nested (table : ClassTable) : Prop where
  later : ∀ id, ∀ child ∈ table.innerOf id, id < child ∧ child < table.size
  distinct : ∀ id, (table.innerOf id).Nodup
  apart : ∀ one other child, child ∈ table.innerOf one → child ∈ table.innerOf other → one = other

variable {table other : ClassTable} {root id outer child : ClassId} {pending order : List ClassId}

/-! ## Tables that are built class by class -/

/-- Tables made by insertion: a class comes without nested ones, and stands alone or in a class that is already there. -/
inductive Built : ClassTable → Prop
  | empty : Built empty
  | insert {table : ClassTable} {file : ClassFile} {outer : Option ClassId} (built : Built table) (bare : file.inner = [])
      (known : ∀ id, outer = some id → id < table.size) : Built (table.insert file outer)

def outerOf? (table : ClassTable) (id : ClassId) : Option ClassId := (table.get? id).bind ClassFile.outer

theorem lt_size_of_outerOf? (around : table.outerOf? id = some outer) : id < table.size := by
  obtain ⟨file, found, _⟩ := Option.bind_eq_some_iff.mp around
  exact (Array.getElem?_eq_some_iff.mp found).1

theorem size_insert (file : ClassFile) (outer : Option ClassId) : (table.insert file outer).size = table.size + 1 := by
  cases outer <;> simp [insert, size, modify]

section Insertion

variable (file : ClassFile) {outer : Option ClassId} (known : ∀ id, outer = some id → id < table.size) (id : ClassId)
include known

theorem get?_insert : (table.insert file outer).get? id = if id = table.size then some { file with outer } else
    (table.get? id).map fun owner => if outer = some id then { owner with inner := owner.inner ++ [table.size] } else owner := by
  cases outer with
  | none => simp [insert, get?, size, Array.getElem?_push]
  | some owner =>
    have earlier : owner ≠ table.classes.size := Nat.ne_of_lt (known owner rfl)
    simp only [insert, get?, size, modify, Array.getElem?_modify, Array.getElem?_push, Option.some_inj]
    by_cases here : owner = id
    · subst here
      simp [earlier]
    · simp [here]

theorem outerOf?_insert :
    (table.insert file outer).outerOf? id = if id = table.size then outer else table.outerOf? id := by
  rw [outerOf?, get?_insert file known]
  split
  · rfl
  · rw [outerOf?]
    cases table.get? id with
    | none => rfl
    | some owner =>
      rw [Option.map_some, Option.bind_some]
      split <;> rfl

theorem innerOf_insert (bare : file.inner = []) :
    (table.insert file outer).innerOf id = table.innerOf id ++ if outer = some id then [table.size] else [] := by
  rw [innerOf, get?_insert file known, innerOf]
  by_cases owned : outer = some id
  · have inside := known id owned
    have found : table.get? id = some table.classes[id] := Array.getElem?_eq_getElem inside
    simp [owned, found, Nat.ne_of_lt inside]
  · split
    · rename_i last
      have nothing : table.get? id = none := last ▸ Array.getElem?_eq_none (Nat.le_refl _)
      simp [nothing, bare]
    · simp

end Insertion

namespace Built

variable (built : table.Built)
include built

theorem innerOf_eq (id : ClassId) :
    table.innerOf id = (List.range table.size).filter fun child => table.outerOf? child = some id := by
  induction built with
  | empty => rfl
  | @insert table file outer _ bare known agrees =>
    have before : (List.range table.size).filter (fun child => (table.insert file outer).outerOf? child = some id) =
        table.innerOf id := by
      rw [agrees]
      refine List.filter_congr fun child among => ?_
      rw [outerOf?_insert file known, if_neg (Nat.ne_of_lt (List.mem_range.mp among))]
    rw [innerOf_insert file known id bare, size_insert, List.range_succ, List.filter_append, before]
    simp [outerOf?_insert file known, List.filter_singleton]

theorem mem_innerOf_iff : id ∈ table.innerOf outer ↔ table.outerOf? id = some outer := by
  rw [built.innerOf_eq, List.mem_filter, decide_eq_true_iff, List.mem_range]
  exact and_iff_right_of_imp lt_size_of_outerOf?

theorem outer_lt (around : table.outerOf? id = some outer) : outer < id := by
  induction built with
  | empty => cases around
  | insert _ _ known earlier =>
    rw [outerOf?_insert _ known] at around
    split at around
    · rename_i last
      exact last ▸ known outer around
    · exact earlier around

theorem nested : table.Nested where
  later id child among := by
    have around := built.mem_innerOf_iff.mp among
    exact ⟨built.outer_lt around, lt_size_of_outerOf? around⟩
  distinct id := built.innerOf_eq id ▸ List.nodup_range.filter _
  apart one other child first second :=
    Option.some_inj.mp ((built.mem_innerOf_iff.mp first).symm.trans (built.mem_innerOf_iff.mp second))

end Built

/-! ## The walk -/

inductive Lists (table : ClassTable) : List ClassId → List ClassId → Prop
  | nil : Lists table [] []
  | cons {id : ClassId} {pending below rest : List ClassId} (inner : Lists table (table.innerOf id) below)
      (others : Lists table pending rest) : Lists table (id :: pending) (id :: below ++ rest)

def Within (table : ClassTable) : ClassId → ClassId → Prop := ReflTransGen fun outer inner => inner ∈ table.innerOf outer

namespace Lists

theorem append {more last : List ClassId} (first : table.Lists pending order) (second : table.Lists more last) :
    table.Lists (pending ++ more) (order ++ last) := by
  induction first with
  | nil => exact second
  | cons inner _ _ continues =>
    rw [List.append_assoc]
    exact .cons inner continues

theorem subtreeFrom_eq (listed : table.Lists pending order) {steps : Nat} (enough : order.length ≤ steps) :
    table.subtreeFrom steps pending = order := by
  induction steps generalizing pending order with
  | zero => exact (List.length_eq_zero_iff.mp (Nat.le_zero.mp enough)).symm
  | succ steps continues =>
    cases listed with
    | nil => rfl
    | @cons id pending below rest inner others =>
      rw [List.cons_append] at enough ⊢
      rw [subtreeFrom]
      exact congrArg (id :: ·) (continues (inner.append others) (Nat.le_of_succ_le_succ enough))

theorem within (listed : table.Lists pending order) (among : id ∈ order) : ∃ top ∈ pending, table.Within top id := by
  induction listed with
  | nil => cases among
  | @cons top pending below rest _ _ inside others =>
    rw [List.cons_append, List.mem_cons, List.mem_append] at among
    rcases among with rfl | among | among
    · exact ⟨id, List.mem_cons_self, .refl⟩
    · obtain ⟨inner, nested, way⟩ := inside among
      exact ⟨top, List.mem_cons_self, .head nested way⟩
    · obtain ⟨other, listed, way⟩ := others among
      exact ⟨other, .tail _ listed, way⟩

theorem cons_inv (listed : table.Lists (id :: pending) order) :
    ∃ below rest, order = id :: below ++ rest ∧ table.Lists (table.innerOf id) below ∧ table.Lists pending rest := by
  cases listed with
  | cons inner others => exact ⟨_, _, rfl, inner, others⟩

theorem perm {others : List ClassId} (same : others.Perm pending) (listed : table.Lists pending order) :
    ∃ reordered, table.Lists others reordered ∧ reordered.Perm order := by
  induction same generalizing order with
  | nil => exact ⟨order, listed, .refl order⟩
  | cons id _ continues =>
    obtain ⟨below, rest, rfl, inner, tail⟩ := listed.cons_inv
    obtain ⟨moved, found, same⟩ := continues tail
    exact ⟨_, .cons inner found, .append_left _ same⟩
  | swap one other pending =>
    obtain ⟨below, rest, rfl, inner, tail⟩ := listed.cons_inv
    obtain ⟨more, rest, rfl, innerOther, tail⟩ := tail.cons_inv
    refine ⟨_, .cons innerOther (.cons inner tail), ?_⟩
    rw [← List.append_assoc, ← List.append_assoc]
    exact .append_right _ List.perm_append_comm
  | trans _ _ first second =>
    obtain ⟨middle, found, same⟩ := second listed
    obtain ⟨reordered, found, sameToo⟩ := first found
    exact ⟨reordered, found, sameToo.trans same⟩

end Lists

namespace Nested

variable (nested : table.Nested)
include nested

theorem le_of_within (within : table.Within root id) : root ≤ id := by
  induction within with
  | refl => exact Nat.le_refl _
  | tail _ step continues => exact Nat.le_of_lt (Nat.lt_of_le_of_lt continues (nested.later _ _ step).1)

theorem lt_size_of_within (inside : root < table.size) (within : table.Within root id) : id < table.size := by
  cases within with
  | refl => exact inside
  | tail _ step => exact (nested.later _ _ step).2

theorem siblings_apart {one another : ClassId} (first : one ∈ table.innerOf root) (second : another ∈ table.innerOf root)
    (apart : one ≠ another) : ¬ (table.Within one id ∧ table.Within another id) := by
  rintro ⟨way, wayToo⟩
  -- One of them would be nested in the other, so the class around both would be nested in the other one.
  have below {one another : ClassId} (first : one ∈ table.innerOf root) (second : another ∈ table.innerOf root) (apart : one ≠ another)
      (way : table.Within one another) : False := by
    rcases ReflTransGen.cases_tail way with same | ⟨parent, between, step⟩
    · exact apart same.symm
    · cases nested.apart parent root another step second
      exact absurd (nested.le_of_within between) (Nat.not_le.mpr (nested.later root one first).1)
  have unique : Relator.RightUnique (Function.swap fun outer inner => inner ∈ table.innerOf outer) :=
    fun child one other first second => nested.apart one other child first second
  rcases ReflTransGen.total_of_right_unique unique (reflTransGen_swap.mpr way) (reflTransGen_swap.mpr wayToo) with toAnother | toOne
  · exact below second first apart.symm (reflTransGen_swap.mp toAnother)
  · exact below first second apart (reflTransGen_swap.mp toOne)

theorem nodup_of_lists (listed : table.Lists pending order)
    (apart : pending.Pairwise fun one another => ∀ id, ¬ (table.Within one id ∧ table.Within another id)) : order.Nodup := by
  induction listed with
  | nil => exact List.nodup_nil
  | @cons top pending below rest inner others inside outside =>
    obtain ⟨fromTop, apart⟩ := List.pairwise_cons.mp apart
    have siblings : (table.innerOf top).Pairwise fun one another => ∀ id, ¬ (table.Within one id ∧ table.Within another id) :=
      (nested.distinct top).imp_of_mem fun first second different _ => nested.siblings_apart first second different
    have elsewhere (id : ClassId) (way : table.Within top id) : id ∉ rest := by
      intro among
      obtain ⟨other, listed, wayToo⟩ := others.within among
      exact fromTop other listed id ⟨way, wayToo⟩
    have notBelow : top ∉ below := by
      intro among
      obtain ⟨child, among, way⟩ := inner.within among
      exact absurd (nested.le_of_within way) (Nat.not_le.mpr (nested.later top child among).1)
    rw [List.cons_append, List.nodup_cons, List.mem_append, not_or]
    refine ⟨⟨notBelow, elsewhere top .refl⟩, List.nodup_append.mpr ⟨inside siblings, outside apart, ?_⟩⟩
    rintro id among _ amongRest rfl
    obtain ⟨child, listed, way⟩ := inner.within among
    exact elsewhere id (.head listed way) amongRest

theorem exists_lists (id : ClassId) : ∃ order, table.Lists [id] order := by
  -- Nested classes are nearer to the end of the table.
  induction left : table.size - id using Nat.strongRecOn generalizing id with
  | ind left continues =>
    subst left
    have all (pending : List ClassId) (among : ∀ child ∈ pending, child ∈ table.innerOf id) : ∃ order, table.Lists pending order := by
      induction pending with
      | nil => exact ⟨[], .nil⟩
      | cons child rest others =>
        obtain ⟨after, bound⟩ := nested.later id child (among child List.mem_cons_self)
        obtain ⟨below, first⟩ := continues (table.size - child) (Nat.sub_lt_sub_left (Nat.lt_trans after bound) after) child rfl
        obtain ⟨order, listed⟩ := others fun other listed => among other (.tail _ listed)
        exact ⟨_, first.append listed⟩
    obtain ⟨below, listed⟩ := all (table.innerOf id) fun _ among => among
    exact ⟨_, .cons listed .nil⟩

theorem lists_subtree (inside : root < table.size) : table.Lists [root] (table.subtree root) ∧
    (table.subtree root).length ≤ table.size := by
  obtain ⟨order, listed⟩ := nested.exists_lists root
  have bounded : order.length ≤ table.size := by
    have distinct := nested.nodup_of_lists listed (List.pairwise_singleton _ _)
    have among : order ⊆ List.range table.size := by
      intro id among
      obtain ⟨top, single, way⟩ := listed.within among
      cases List.mem_singleton.mp single
      exact List.mem_range.mpr (nested.lt_size_of_within inside way)
    simpa using (List.subperm_of_subset distinct among).length_le
  have same := listed.subtreeFrom_eq bounded
  rw [subtree, same]
  exact ⟨listed, bounded⟩

theorem lt_size_of_subtree (inside : root < table.size) (among : id ∈ table.subtree root) : id < table.size := by
  obtain ⟨top, single, way⟩ := (nested.lists_subtree inside).1.within among
  cases List.mem_singleton.mp single
  exact nested.lt_size_of_within inside way

end Nested

/-! ## Other orders -/

/-- A table with the same classes, in which fields and nested classes stand in another order. -/
structure Rearranged (place : ClassId → ClassId) (table other : ClassTable) : Prop where
  size : other.size = table.size
  classes : ∀ id file, table.get? id = some file → ∃ moved, other.get? (place id) = some moved ∧ file.Rearranged place moved

namespace Rearranged

variable {place : ClassId → ClassId} (rearranged : Rearranged place table other)
include rearranged

theorem innerOf (inside : id < table.size) : (other.innerOf (place id)).Perm ((table.innerOf id).map place) := by
  obtain ⟨moved, found, same⟩ := rearranged.classes id _ (Array.getElem?_eq_getElem inside)
  have known : table.get? id = some table.classes[id] := Array.getElem?_eq_getElem inside
  simpa only [ClassTable.innerOf, found, known, Option.elim_some] using same.inner

theorem lists (listed : table.Lists pending order) (inside : ∀ id ∈ order, id < table.size) :
    ∃ moved, other.Lists (pending.map place) moved ∧ moved.Perm (order.map place) := by
  induction listed with
  | nil => exact ⟨[], .nil, .nil⟩
  | @cons top pending below rest _ _ within after =>
    rw [List.cons_append, List.forall_mem_cons, List.forall_mem_append] at inside
    obtain ⟨here, insideBelow, insideRest⟩ := inside
    obtain ⟨movedBelow, listedBelow, sameBelow⟩ := within insideBelow
    obtain ⟨movedRest, listedRest, sameRest⟩ := after insideRest
    obtain ⟨reordered, found, same⟩ := listedBelow.perm (rearranged.innerOf here)
    refine ⟨_, .cons found listedRest, ?_⟩
    rw [List.map_append, List.map_cons]
    exact .append (.cons _ (same.trans sameBelow)) sameRest

theorem subtree (nested : table.Nested) (inside : root < table.size) :
    (other.subtree (place root)).Perm ((table.subtree root).map place) := by
  obtain ⟨listed, bounded⟩ := nested.lists_subtree inside
  obtain ⟨moved, relisted, same⟩ := rearranged.lists listed fun _ => nested.lt_size_of_subtree inside
  have relisted : other.Lists [place root] moved := relisted
  have enough : moved.length ≤ other.size := by
    rw [same.length_eq, List.length_map, rearranged.size]
    exact bounded
  rw [ClassTable.subtree, relisted.subtreeFrom_eq enough]
  exact same

end Rearranged

end ClassTable

end ClassLift
