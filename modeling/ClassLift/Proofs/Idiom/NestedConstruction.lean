import ClassLift.Proofs.Idiom.Composite
import ClassLift.Proofs.Idiom.Construction

namespace ClassLift

namespace Construction

open Composite Draft Store

def IsConstructor (pool : Pool) (method : PoolIndex) : Prop :=
  ∃ member, pool.member method = .ok member ∧ member.name = "<init>"

/-- The layout of a tree: an expression needs no code, an object is held while its arguments are computed and until its
constructor has been called. -/
inductive Compiles (pool : Pool) (store : Store) : Fragment PoolIndex → Prop
  | expression {root : NodeId} (free : store.DupFree root) : Compiles pool store ⟨.expression root, root, []⟩
  | object {held call value object use : NodeId} {type method : PoolIndex} {arguments : List (Fragment PoolIndex)}
      (pair : Pair store held call value object type method (arguments.map Fragment.use))
      (constructor : IsConstructor pool method) (parts : ∀ argument ∈ arguments, Compiles pool store argument)
      (repeats : store.kind? use = some (.dupLoad held)) :
      Compiles pool store ⟨.build method (arguments.map Fragment.tree), use, held :: (arguments.flatMap Fragment.code ++ [call])⟩

section Layout

variable {pool : Pool} {store now : Store} {held call value object source : NodeId} {type method : PoolIndex}
  {arguments : List (Fragment PoolIndex)} {sources : List NodeId}

theorem Pair.settled {values : List NodeId} (pair : Pair store held call value object type method values)
    (settled : Settled sources store now) (other : held ∉ sources) :
    Pair now held call value object type method values :=
  ⟨settled.kind?_of_ne pair.held nofun, settled.kind?_of_ne pair.allocated nofun, settled.kind?_of_ne pair.call nofun,
    settled.kind?_of_load pair.called other⟩

theorem Pair.dupFree {values : List NodeId} (pair : Pair store held call value object type method values) :
    store.DupFree held := by
  refine .of_children pair.held nofun fun child member => ?_
  obtain rfl := List.mem_singleton.mp member
  exact .of_children pair.allocated nofun nofun

theorem Pair.loads_call (pair : Pair store held call value object type method (arguments.map Fragment.use))
    (computes : ∀ argument ∈ arguments, Computes store argument.code argument.use) (other : source ≠ held) :
    store.loads source call = (arguments.map Fragment.use).filter (store.isDupLoadOf · source) := by
  have children : (Kind.call .special method (some object) (arguments.map Fragment.use)).children =
      object :: arguments.map Fragment.use := List.append_nil _
  have own : store.isDupLoadOf object source = false := by
    rw [isDupLoadOf_of_load pair.called, beq_eq_false_iff_ne]
    exact other.symm
  rw [loads_of_children pair.call nofun, children, List.filter_cons, own]
  · rfl
  · rw [children, List.forall_mem_cons, List.forall_mem_map]
    refine ⟨.inl ⟨held, pair.called⟩, fun argument member => ?_⟩
    rcases (computes argument member).used with free | ⟨named, _, load⟩
    · exact .inr free.avoids
    · exact .inl ⟨named, load⟩

end Layout

/-! ## Recovery -/

section Recovery

variable {pool : Pool} {store now : Store} {part : Fragment PoolIndex} {held call value object use : NodeId}
  {type method : PoolIndex} {arguments : List (Fragment PoolIndex)}

theorem Compiles.computes (compiles : Compiles pool store part) : Computes store part.code part.use := by
  induction compiles with
  | expression free => exact ⟨.inl free, nofun⟩
  | @object held call value object use type method arguments pair _ _ repeats inner =>
    refine ⟨.inr ⟨held, List.mem_cons_self, repeats⟩, fun statement inside source other => ?_⟩
    obtain ⟨apart, outside⟩ := not_or.mp (mt List.mem_cons.mpr other)
    have elsewhere (argument : Fragment PoolIndex) (member : argument ∈ arguments) : source ∉ argument.code := fun among =>
      outside (List.mem_append_left _ (List.mem_flatMap.mpr ⟨argument, member, among⟩))
    rcases List.mem_cons.mp inside with rfl | inside
    · exact pair.dupFree.loads trivial
    rcases List.mem_append.mp inside with inside | inside
    · obtain ⟨argument, member, inside⟩ := List.mem_flatMap.mp inside
      exact (inner argument member).closed statement inside source (elsewhere argument member)
    · obtain rfl := List.mem_singleton.mp inside
      rw [pair.loads_call inner apart, List.filter_eq_nil_iff, List.forall_mem_map]
      intro argument member
      simp [(inner argument member).isDupLoadOf (elsewhere argument member)]

theorem step_of_call {before after values : List NodeId}
    (found : store.kind? call = some (.call .special method (some object) values))
    (called : store.kind? object = some (.dupLoad held)) :
    step pool store ⟨before, call, after⟩ = pure (store, ⟨before, call :: after⟩) := by
  have held : isAllocation store object = false := by simp [isAllocation, called]
  simp [step, found, constructorCall?, held, Spot.keep]

theorem constructorCall?_of_constructor {isObject : NodeId → Bool} {values : List NodeId}
    (constructor : IsConstructor pool method) (suitable : isObject object = true) :
    constructorCall? pool isObject (some (.call .special method (some object) values)) =
      .ok (some (.construct method values)) := by
  obtain ⟨member, resolved, name⟩ := constructor
  simp [constructorCall?, suitable, resolved, name, bind, Except.bind, pure, Except.pure]

theorem step_of_pair {before after values : List NodeId} (pair : Pair store held call value object type method values)
    (constructor : IsConstructor pool method) (used : (before ++ held :: after).flatMap (store.loads held) = [use]) :
    step pool store ⟨before.reverse, held, call :: after⟩ =
      pure (store.replace use (.construct method values), ⟨before.reverse, after⟩) := by
  have allocation : isAllocation store value = true := by simp [isAllocation, pair.allocated]
  have recognized : constructorCall? pool (store.isDupLoadOf · held) (store.kind? call) =
      .ok (some (.construct method values)) := by
    rw [pair.call]
    exact constructorCall?_of_constructor constructor (isDupLoadOf_iff.mpr pair.called)
  rw [← map_snd_dupLoads, List.map_eq_singleton_iff] at used
  obtain ⟨⟨statement, node⟩, only, rfl⟩ := used
  simp [step, pair.held, allocation, recognized, place, only, bind, Except.bind]

theorem step_of_last {before : List NodeId} {last : NodeId}
    (noCall : ∀ form method object arguments, store.kind? last ≠ some (.call form method object arguments)) :
    step pool store ⟨before, last, []⟩ = pure (store, ⟨before, [last]⟩) := by
  unfold step
  split
  · split <;> rfl
  · have unmatched : constructorCall? pool (isAllocation store) (store.kind? last) = .ok none := by
      unfold constructorCall?
      split
      · exact absurd ‹_› (noCall _ _ _ _)
      · rfl
    rw [unmatched]
    rfl

theorem arguments_assembly {after : List NodeId}
    (pair : Pair store held call value object type method (arguments.map Fragment.use))
    (recovers : ∀ argument ∈ arguments, Recovers (step pool) Kind.construct store argument)
    (computes : ∀ argument ∈ arguments, Computes store argument.code argument.use)
    (distinct : (held :: arguments.flatMap Fragment.code).Nodup)
    (unused : ∀ source ∈ arguments.flatMap Fragment.code, after.flatMap (store.loads source) = []) :
    Assembly (step pool) Kind.construct store (arguments.map fun argument => (argument, [])) (call :: after) := by
  obtain ⟨outside, distinct⟩ := List.nodup_cons.mp distinct
  refine ⟨?_, ?_, ?_, ?_, ?_, ?_⟩
  all_goals simp only [List.forall_mem_map, List.flatMap_map]
  · exact recovers
  · exact computes
  · exact fun _ _ => nofun
  · exact fun _ _ => nofun
  · exact distinct
  · intro source among
    have apart : source ≠ held := fun same => outside (same ▸ among)
    rw [List.flatMap_eq_nil_iff.mpr fun _ _ => rfl, List.nil_append, List.flatMap_cons, unused source among, List.append_nil,
      pair.loads_call computes apart, List.map_map]
    rfl

theorem Compiles.recovers (compiles : Compiles pool store part) (distinct : part.code.Nodup) :
    Recovers (step pool) Kind.construct store part := by
  induction compiles with
  | expression free =>
    intro before after sources now settled _ _ _
    exact ⟨now, .nil, .refl now, .expression _, settled.dupFree free⟩
  | @object held call value object use type method arguments pair constructor parts repeats inner =>
    have distinctCodes : (held :: arguments.flatMap Fragment.code).Nodup :=
      distinct.sublist (.cons_cons held (List.sublist_append_left _ _))
    have recovers (argument : Fragment PoolIndex) (member : argument ∈ arguments) :
        Recovers (step pool) Kind.construct store argument :=
      inner argument member ((List.nodup_flatMap.mp (List.nodup_cons.mp distinctCodes).2).1 argument member)
    have none : (arguments.flatMap fun _ => ([] : List NodeId)) = [] := List.flatMap_eq_nil_iff.mpr fun _ _ => rfl
    have scaffold : Scaffold (step pool) Kind.construct store method held use
        (arguments.map fun argument => (argument, [])) [call] := by
      refine ⟨repeats, pair.dupFree, ?_, ?_, fun statement member sources now settled other before after => ?_, ?_, ?_⟩
      case refine_3 =>
        obtain rfl := List.mem_singleton.mp member
        exact step_of_call (settled.kind?_of_ne pair.call nofun) (settled.kind?_of_load pair.called other)
      all_goals simp only [List.flatMap_map, List.map_map, List.forall_mem_map]
      · exact distinctCodes
      · intro after
        exact arguments_assembly pair recovers (fun argument member => (parts argument member).computes) distinctCodes
      · intro sources now settled free
        rw [show (Kind.construct method _).children = _ from List.append_nil _]
        exact List.forall_mem_map.mpr free
      · intro sources now settled other before after only
        rw [none]
        exact step_of_pair (pair.settled settled other) constructor only
    have whole := scaffold.recovers nofun
    simp only [List.flatMap_map, List.map_map, List.append_nil] at whole
    exact whole

/-- Nested constructor calls of any shape are recovered. Of their code and the statement that uses the object only that
statement is left, and the tree of constructor calls stands in the place of the use. -/
theorem recover_tree {last : NodeId} (compiles : Compiles pool store part) (distinct : part.code.Nodup)
    (only : OnlyUse store part.code last part.use)
    (noCall : ∀ form method object arguments, store.kind? last ≠ some (.call form method object arguments)) :
    ∃ result, recover pool ⟨store, part.code ++ [last]⟩ = .ok ⟨result, [last]⟩ ∧
      Stands result Kind.construct part.tree part.use ∧
      ∀ id, (∀ held ∈ part.code, store.kind? id ≠ some (.dupLoad held)) → result.node? id = store.node? id := by
  obtain ⟨result, swept, settled, stands⟩ := (compiles.recovers distinct).sweep only fun before => step_of_last noCall
  exact ⟨result, swept, stands, settled.node?⟩

end Recovery

def boxes : Pool :=
  ⟨#[none, some (.utf8 "Pair"), some (.classInfo 1), some (.utf8 "Box"), some (.classInfo 3), some (.utf8 "<init>"),
    some (.utf8 "(LBox;LBox;)V"), some (.nameAndType 5 6), some (.methodRef 2 7), some (.utf8 "(I)V"), some (.nameAndType 5 9),
    some (.methodRef 4 10)]⟩

/-- `a = new Pair(new Box(b), new Box(7))`. -/
def pairOfBoxes : Store :=
  ⟨#[⟨0, none, .allocate 2⟩, ⟨1, none, .dupStore 0⟩,
    ⟨2, none, .allocate 4⟩, ⟨3, none, .dupStore 2⟩, ⟨4, none, .dupLoad 3⟩, ⟨5, none, .read (.slot .int 1)⟩,
    ⟨6, none, .call .special 11 (some 4) [5]⟩,
    ⟨7, none, .allocate 4⟩, ⟨8, none, .dupStore 7⟩, ⟨9, none, .dupLoad 8⟩, ⟨10, none, .literal (.int 7)⟩,
    ⟨11, none, .call .special 11 (some 9) [10]⟩,
    ⟨12, none, .dupLoad 1⟩, ⟨13, none, .dupLoad 3⟩, ⟨14, none, .dupLoad 8⟩, ⟨15, none, .call .special 8 (some 12) [13, 14]⟩,
    ⟨16, none, .dupLoad 1⟩, ⟨17, none, .write (.slot .reference 2) 16⟩]⟩

theorem pairOfBoxes_compiles : Compiles boxes pairOfBoxes
    ⟨.build 8 [.build 11 [.expression 5], .build 11 [.expression 10]], 16, [1, 3, 6, 8, 11, 15]⟩ := by
  have first : Compiles boxes pairOfBoxes ⟨.build 11 [.expression 5], 13, [3, 6]⟩ := by
    refine @Compiles.object boxes pairOfBoxes 3 6 2 4 13 4 11 [⟨.expression 5, 5, []⟩] ⟨rfl, rfl, rfl, rfl⟩
      ⟨_, rfl, rfl⟩ ?_ rfl
    rw [List.forall_mem_singleton]
    exact .expression (.of_children rfl nofun nofun)
  have second : Compiles boxes pairOfBoxes ⟨.build 11 [.expression 10], 14, [8, 11]⟩ := by
    refine @Compiles.object boxes pairOfBoxes 8 11 7 9 14 4 11 [⟨.expression 10, 10, []⟩] ⟨rfl, rfl, rfl, rfl⟩
      ⟨_, rfl, rfl⟩ ?_ rfl
    rw [List.forall_mem_singleton]
    exact .expression (.of_children rfl nofun nofun)
  refine @Compiles.object boxes pairOfBoxes 1 15 0 12 16 2 8 [⟨.build 11 [.expression 5], 13, [3, 6]⟩,
    ⟨.build 11 [.expression 10], 14, [8, 11]⟩] ⟨rfl, rfl, rfl, rfl⟩ ⟨_, rfl, rfl⟩ ?_ rfl
  simp only [List.forall_mem_cons]
  exact ⟨first, second, nofun⟩

theorem pairOfBoxes_recovered : OnlyUse pairOfBoxes [1, 3, 6, 8, 11, 15] 17 16 ∧
    ∃ result, recover boxes ⟨pairOfBoxes, [1, 3, 6, 8, 11, 15, 17]⟩ = .ok ⟨result, [17]⟩ ∧
      Stands result Kind.construct (.build 8 [.build 11 [.expression 5], .build 11 [.expression 10]]) 16 := by
  have only : OnlyUse pairOfBoxes [1, 3, 6, 8, 11, 15] 17 16 := by unfold OnlyUse; decide
  obtain ⟨result, recovered, stands, _⟩ := recover_tree pairOfBoxes_compiles (by decide) only nofun
  exact ⟨only, result, recovered, stands⟩

end Construction

end ClassLift
