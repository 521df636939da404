import ClassLift.Proofs.Idiom.Assignment
import ClassLift.Proofs.Idiom.Conditional
import ClassLift.Proofs.Idiom.Fold
import Mathlib.Algebra.BigOperators.Group.List.Basic
import Mathlib.Algebra.Order.Group.Multiset
import Mathlib.Tactic.Abel

namespace ClassLift

inductive Invocation where
  | call (kind : CallKind) (method : PoolIndex)
  | construct (method : PoolIndex)
  deriving DecidableEq

def Kind.calls : Kind → Multiset Invocation
  | .call kind method _ _ => {.call kind method}
  | .construct method _ => {.construct method}
  | _ => 0

namespace Store

def callsIn (store : Store) (ids : List NodeId) : Multiset Invocation :=
  (ids.map fun id => (store.kind? id).elim 0 Kind.calls).sum

def calls (store : Store) (roots : List NodeId) : Multiset Invocation := store.callsIn (roots.flatMap store.preorder)

variable {store other : Store} {ids more : List NodeId} {roots others : List NodeId} {root : NodeId} {kind : Kind}

theorem callsIn_append : store.callsIn (ids ++ more) = store.callsIn ids + store.callsIn more := by
  simp [callsIn]

theorem callsIn_congr (same : ∀ id ∈ ids, other.kind? id = store.kind? id) : other.callsIn ids = store.callsIn ids := by
  unfold callsIn
  rw [List.map_congr_left fun id among => by rw [same id among]]

theorem callsIn_eq_zero (silent : ∀ id ∈ ids, ∀ kind, store.kind? id = some kind → kind.calls = 0) : store.callsIn ids = 0 := by
  refine List.sum_eq_zero fun calls among => ?_
  obtain ⟨id, member, rfl⟩ := List.mem_map.mp among
  cases found : store.kind? id with
  | none => rfl
  | some kind => exact silent id member kind found

@[simp]
theorem calls_nil : store.calls [] = 0 := rfl

theorem calls_append (roots others : List NodeId) : store.calls (roots ++ others) = store.calls roots + store.calls others := by
  rw [calls, List.flatMap_append, callsIn_append]
  rfl

theorem calls_cons (root : NodeId) (roots : List NodeId) : store.calls (root :: roots) = store.calls [root] + store.calls roots :=
  calls_append [root] roots

theorem calls_perm (perm : roots.Perm others) : store.calls roots = store.calls others :=
  ((perm.flatMap_right _).map _).sum_eq

theorem calls_congr (same : ∀ root ∈ roots, other.calls [root] = store.calls [root]) : other.calls roots = store.calls roots := by
  induction roots with
  | nil => rfl
  | cons root roots continues =>
    rw [calls_cons, same root List.mem_cons_self, continues fun root among => same root (.tail _ among), ← calls_cons]

theorem Trees.calls_root (tree : store.Trees [root]) (found : store.kind? root = some kind) :
    store.calls [root] = kind.calls + store.calls kind.children := by
  unfold calls
  rw [List.flatMap_singleton, (tree.children found).1]
  simp [callsIn, found]

section Kinds

variable {value lhs rhs source : NodeId} {place : Place} {op : BinaryOp} {literal : Literal}

theorem Trees.calls_dupStore (tree : store.Trees [root]) (found : store.kind? root = some (.dupStore value)) :
    store.calls [root] = store.calls [value] := by
  simpa [Kind.calls, Kind.children, Kind.operands, Kind.bodies] using tree.calls_root found

theorem Trees.calls_dupLoad (tree : store.Trees [root]) (found : store.kind? root = some (.dupLoad source)) :
    store.calls [root] = 0 := by
  simpa [Kind.calls, Kind.children, Kind.operands, Kind.bodies] using tree.calls_root found

theorem Trees.calls_literal (tree : store.Trees [root]) (found : store.kind? root = some (.literal literal)) :
    store.calls [root] = 0 := by
  simpa [Kind.calls, Kind.children, Kind.operands, Kind.bodies] using tree.calls_root found

theorem Trees.calls_goto (tree : store.Trees [root]) (jumps : (store.kind? root).any Kind.isGoto = true) :
    store.calls [root] = 0 := by
  obtain ⟨kind, found, isGoto⟩ := (Option.any_eq_true _ _).mp jumps
  cases kind with
  | goto target => simpa [Kind.calls, Kind.children, Kind.operands, Kind.bodies] using tree.calls_root found
  | _ => cases isGoto

theorem Trees.calls_write (tree : store.Trees [root]) (found : store.kind? root = some (.write place value)) :
    store.calls [root] = store.calls place.operands + store.calls [value] := by
  simpa [Kind.calls, Kind.children, Kind.operands, Kind.bodies, calls_append] using tree.calls_root found

theorem Trees.calls_binary (tree : store.Trees [root]) (found : store.kind? root = some (.binary op lhs rhs)) :
    store.calls [root] = store.calls [lhs, rhs] := by
  simpa [Kind.calls, Kind.children, Kind.operands, Kind.bodies] using tree.calls_root found

theorem Trees.calls_assign {assign : AssignOp} (tree : store.Trees [root])
    (found : store.kind? root = some (.assign assign source value)) : store.calls [root] = store.calls [source, value] := by
  simpa [Kind.calls, Kind.children, Kind.operands, Kind.bodies] using tree.calls_root found

theorem Trees.calls_conditional {condition ifTrue ifFalse : NodeId} (tree : store.Trees [root])
    (found : store.kind? root = some (.conditional condition ifTrue ifFalse)) :
    store.calls [root] = store.calls [condition] + (store.calls [ifTrue] + store.calls [ifFalse]) := by
  rw [← calls_cons ifTrue [ifFalse], ← calls_cons condition [ifTrue, ifFalse]]
  simpa [Kind.calls, Kind.children, Kind.operands, Kind.bodies] using tree.calls_root found

theorem Trees.child (tree : store.Trees [root]) (found : store.kind? root = some kind) {child : NodeId}
    (below : child ∈ kind.children) : store.Trees [child] :=
  (tree.children found).2.1.of_mem below

end Kinds

theorem calls_negate (store : Store) (id : NodeId) (roots : List NodeId) : (store.negate id).calls roots = store.calls roots := by
  have kept (kind : Kind) : kind.negateTest.calls = kind.calls := by cases kind <;> rfl
  have order : roots.flatMap (store.negate id).preorder = roots.flatMap store.preorder := by
    rw [funext preorder_negate]
  unfold calls callsIn
  rw [order]
  refine congrArg List.sum (List.map_congr_left fun other _ => ?_)
  rw [kind?_negate]
  split
  case isTrue same =>
    rw [same]
    cases store.kind? id with
    | none => rfl
    | some kind => exact kept kind
  case isFalse => rfl

def Silent (store last : Store) : Prop := ∀ id kind, store.size ≤ id → last.kind? id = some kind → kind.calls = 0

namespace Silent

variable {grown last : Store} {id copy : NodeId} {depth : Nat}

theorem refl (store : Store) : Silent store store := fun _ _ new found => absurd (lt_size_of_kind? found) (Nat.not_lt.mpr new)

theorem allocate (silent : Silent store grown) (calls : kind.calls = 0) (made : grown.allocate id kind = (copy, last)) :
    Silent store last := by
  obtain rfl : (grown.allocate id kind).2 = last := congrArg Prod.snd made
  intro other kind new found
  by_cases old : other < grown.size
  · rw [kind?, node?_allocate_of_lt old] at found
    exact silent other kind new found
  · exact kind?_allocate_of_le (Nat.not_lt.mp old) found ▸ calls

theorem duplicateWithin (silent : Silent store grown) (copied : grown.duplicateWithin depth id = some (copy, last)) :
    Silent store last := by
  induction depth generalizing id copy last with
  | zero => cases copied
  | succ depth continues =>
    unfold Store.duplicateWithin at copied
    split at copied
    case h_1 field object found =>
      obtain ⟨⟨copiedObject, middle⟩, inner, made⟩ := Option.map_eq_some_iff.mp copied
      exact (continues inner).allocate rfl made
    case h_7 => cases copied
    all_goals exact silent.allocate rfl (Option.some_inj.mp copied)

theorem separateRead {place read : Place} (copied : Assignment.separateRead store place = (some read, last)) :
    Silent store last := by
  unfold Assignment.separateRead at copied
  split at copied
  case h_1 field object =>
    split at copied
    case h_1 => cases copied
    case h_2 inner =>
      cases copied
      exact (refl store).duplicateWithin inner
  case h_2 type array index =>
    split at copied
    case h_1 => cases copied
    case h_2 first =>
      split at copied
      case h_1 => cases copied
      case h_2 second =>
        cases copied
        exact ((refl store).duplicateWithin first).duplicateWithin second
  case h_3 =>
    cases copied
    exact refl store

end Silent

end Store

def Draft.calls (draft : Draft) : Multiset Invocation := draft.store.calls draft.statements

namespace Draft

namespace Regrowth

variable {before after : Draft} {spot statement : NodeId} {seeds : List NodeId}

theorem calls_seeds (regrowth : Regrowth before after spot seeds) (member : statement ∈ after.statements)
    (here : spot ∈ before.store.preorder statement) : after.store.calls seeds = before.store.calls seeds := by
  obtain ⟨trees, apart, _, _⟩ := regrowth.grown statement member here
  have same (id : NodeId) (among : id ∈ seeds.flatMap before.store.preorder) :
      after.store.kind? id = before.store.kind? id := by
    obtain ⟨seed, chosen, inside⟩ := List.mem_flatMap.mp among
    exact regrowth.kind? (trees.lt_size chosen inside) fun atSpot => apart (atSpot ▸ among)
  unfold Store.calls
  rw [(trees.listed.congr same).flatMap_preorder trees.distinct, Store.callsIn_congr same]

theorem calls_statement (regrowth : Regrowth before after spot seeds) (forest : before.Forest)
    (member : statement ∈ after.statements) (here : spot ∈ before.store.preorder statement) :
    after.store.calls [statement] + before.store.calls [spot] = before.store.calls [statement] + after.store.calls [spot] := by
  have tree := forest.of_mem (regrowth.mem_before member)
  obtain ⟨_, ⟨away, _⟩ | ⟨left, own, right, below, fresh, spotOrder, order, grownSpot, grown, _⟩⟩ := regrowth.tree forest member
  · exact absurd here away
  have distinct := tree.preorder_nodup
  have around (id : NodeId) (side : id ∈ left ++ right) : after.store.kind? id = before.store.kind? id := by
    rw [order] at distinct
    simp only [List.nodup_append', List.nodup_cons, List.disjoint_cons_right, List.mem_append] at distinct
    refine regrowth.kind? (forest.lt_size (regrowth.mem_before member) (order ▸ ?_)) ?_
    · rcases List.mem_append.mp side with side | side <;> simp [side]
    · rintro rfl
      rcases List.mem_append.mp side with side | side
      · exact distinct.2.2.1 side
      · exact distinct.2.1.1 (.inr side)
  have sameLeft := Store.callsIn_congr fun id among => around id (List.mem_append_left right among)
  have sameRight := Store.callsIn_congr fun id among => around id (List.mem_append_right left among)
  have regroup (store : Store) (inner : List NodeId) : store.callsIn (left ++ spot :: (inner ++ right)) =
      store.callsIn left + store.callsIn (spot :: inner) + store.callsIn right := by
    rw [← List.cons_append, Store.callsIn_append, Store.callsIn_append, add_assoc]
  simp only [Store.calls, List.flatMap_singleton, order, grown, spotOrder, grownSpot, regroup, sameLeft, sameRight]
  abel

theorem calls_balance (regrowth : Regrowth before after spot seeds) (dropped : List NodeId) (forest : before.Forest)
    (member : statement ∈ after.statements) (here : spot ∈ before.store.preorder statement)
    (split : before.statements.Perm (dropped ++ after.statements)) :
    after.calls + before.store.calls (spot :: dropped) = before.calls + after.store.calls [spot] := by
  obtain ⟨one, two, order⟩ := List.append_of_mem member
  have distinct := (forest.sublist regrowth.statements).nodup
  have elsewhere (other : NodeId) (among : other ∈ one ++ two) :
      after.store.calls [other] = before.store.calls [other] := by
    have listed : other ∈ after.statements := order ▸ (by simp at among ⊢; tauto)
    have apart : other ≠ statement := by
      rw [order] at distinct
      rintro rfl
      simp only [List.nodup_append', List.nodup_cons, List.disjoint_cons_right] at distinct
      rcases List.mem_append.mp among with among | among
      · exact distinct.2.2.1 among
      · exact distinct.2.1.1 among
    have away : spot ∉ before.store.preorder other :=
      forest.disjoint (regrowth.mem_before member) (regrowth.mem_before listed) apart.symm here
    obtain ⟨_, ⟨_, same⟩ | ⟨_, _, _, _, _, _, found, _⟩⟩ := regrowth.tree forest listed
    · simp only [Store.calls, List.flatMap_singleton, same]
      exact Store.callsIn_congr fun id inside => regrowth.kind? (forest.lt_size (regrowth.mem_before listed) inside)
        fun atSpot => away (atSpot ▸ inside)
    · exact absurd (found ▸ by simp) away
  have there := regrowth.calls_statement forest member here
  have sameOne := Store.calls_congr fun other among => elsewhere other (List.mem_append_left two among)
  have sameTwo := Store.calls_congr fun other among => elsewhere other (List.mem_append_right one among)
  have whole : before.calls = before.store.calls (dropped ++ after.statements) := Store.calls_perm split
  have grown : after.calls = after.store.calls (one ++ statement :: two) := congrArg _ order
  rw [order] at whole
  rw [whole, grown]
  simp only [Store.calls_append, Store.calls_cons statement two, Store.calls_cons spot dropped, sameOne, sameTwo]
  calc _ = before.store.calls dropped + before.store.calls one + before.store.calls two +
        (after.store.calls [statement] + before.store.calls [spot]) := by abel
    _ = _ := by rw [there]; abel

theorem calls_add (regrowth : Regrowth before after spot seeds) (dropped : List NodeId) (forest : before.Forest)
    (member : statement ∈ after.statements) (here : spot ∈ before.store.preorder statement)
    (split : before.statements.Perm (dropped ++ after.statements)) {left : Multiset Invocation}
    (gained : after.store.calls [spot] + left = before.store.calls (spot :: dropped)) : after.calls + left = before.calls := by
  have balance := regrowth.calls_balance dropped forest member here split
  rw [← gained, add_left_comm, add_comm before.calls] at balance
  exact add_left_cancel balance

theorem calls_eq (regrowth : Regrowth before after spot seeds) (dropped : List NodeId) (forest : before.Forest)
    (member : statement ∈ after.statements) (here : spot ∈ before.store.preorder statement)
    (split : before.statements.Perm (dropped ++ after.statements))
    (gained : after.store.calls [spot] = before.store.calls (spot :: dropped)) : after.calls = before.calls := by
  have added := regrowth.calls_add dropped forest member here split ((add_zero _).trans gained)
  rwa [add_zero] at added

theorem mem_spot (regrowth : Regrowth before after spot seeds) (forest : before.Forest) (member : statement ∈ after.statements)
    (here : spot ∈ before.store.preorder statement) : spot ∈ after.store.preorder statement := by
  obtain ⟨_, ⟨away, _⟩ | ⟨_, _, _, _, _, _, _, _, grown, _⟩⟩ := regrowth.tree forest member
  · exact absurd here away
  · exact grown ▸ by simp

theorem tree_spot (regrowth : Regrowth before after spot seeds) (forest : before.Forest) (member : statement ∈ after.statements)
    (here : spot ∈ before.store.preorder statement) : after.store.Trees [spot] :=
  ((regrowth.tree forest member).1.node (List.mem_singleton_self statement) (regrowth.mem_spot forest member here)).1

theorem calls_spot (regrowth : Regrowth before after spot seeds) (forest : before.Forest) (member : statement ∈ after.statements)
    (here : spot ∈ before.store.preorder statement) {kind : Kind} (found : after.store.kind? spot = some kind)
    (children : kind.children = seeds) : after.store.calls [spot] = kind.calls + before.store.calls seeds := by
  rw [(regrowth.tree_spot forest member here).calls_root found, children, regrowth.calls_seeds member here]

end Regrowth

def KeepsCalls (before after : Draft) : Prop := before.Forest → after.Forest ∧ after.calls = before.calls

theorem KeepsCalls.refl (draft : Draft) : KeepsCalls draft draft := fun forest => ⟨forest, rfl⟩

theorem KeepsCalls.of_extends {before after : Store} {statements : List NodeId} (extended : before.Extends after) :
    KeepsCalls ⟨before, statements⟩ ⟨after, statements⟩ := by
  intro forest
  refine ⟨extended.trees forest, Store.calls_congr fun root member => ?_⟩
  have tree : before.Trees [root] := forest.of_mem member
  simp only [Store.calls, List.flatMap_singleton, extended.preorder tree]
  exact Store.callsIn_congr fun id inside => extended.kind? (tree.lt_size (List.mem_singleton_self root) inside)

theorem KeepsCalls.of_folds {before after : Draft} (folds : Relation.ReflTransGen KeepsCalls before after) :
    KeepsCalls before after := by
  intro forest
  induction folds with
  | refl => exact ⟨forest, rfl⟩
  | tail _ last continues =>
    obtain ⟨forestLast, same⟩ := last continues.1
    exact ⟨forestLast, same.trans continues.2⟩

end Draft

namespace Assignment

namespace Pair

variable {store last : Store} {early late : List NodeId} {current put value stored statement use : NodeId} {place read : Place}
  (pair : Pair store early late current put value stored statement use place)
include pair

theorem keepsCalls_chained : Draft.KeepsCalls ⟨store, early ++ current :: put :: late⟩
    ⟨(store.allocate put (.read place)).2.replace use (.assign .plain store.size value), early ++ late⟩ := by
  intro forest
  obtain ⟨listed, inside, foundUse⟩ := pair.use_spec
  have member : statement ∈ early ++ late := List.mem_append_right early listed
  have regrowth := pair.regrowth_chained forest
  refine ⟨regrowth.forest forest,
    regrowth.calls_eq [current, put] forest member inside (List.perm_append_comm_assoc early _ late) ?_⟩
  have lost : store.calls [use, current, put] = store.calls (value :: place.operands) := by
    have treeCurrent : store.Trees [current] := forest.of_mem (by simp)
    have treePut : store.Trees [put] := forest.of_mem (by simp)
    have treeStatement : store.Trees [statement] := forest.of_mem (by simp [listed])
    have treeLoad : store.Trees [use] := (treeStatement.node (List.mem_singleton_self statement) inside).1
    have treeStored : store.Trees [stored] := treePut.child pair.write (by simp [Kind.children, Kind.operands])
    rw [Store.calls_cons, treeLoad.calls_dupLoad foundUse, Store.calls_cons, treeCurrent.calls_dupStore pair.held,
      treePut.calls_write pair.write, treeStored.calls_dupLoad pair.written, zero_add,
      add_zero, Store.calls_cons value place.operands]
  have kindUse := pair.transplant_chained.kind?_spot
  have treeUse := regrowth.tree_spot forest member inside
  have treeRead : Store.Trees _ [store.size] := treeUse.child kindUse (by simp [Kind.children, Kind.operands])
  have ofRead := treeRead.calls_root
    (Store.kind?_replace_allocate (Store.lt_size_of_kind? foundUse) (Store.lt_size_of_kind? pair.write))
  rw [lost, treeUse.calls_root kindUse, ← regrowth.calls_seeds member inside]
  simp only [Kind.calls, Kind.children, Kind.operands, Kind.bodies, List.flatten_nil, List.append_nil, zero_add,
    Store.calls_cons store.size [value], Store.calls_cons value place.operands] at ofRead ⊢
  rw [ofRead, add_comm]

theorem calls_read (separate : separateRead store place = (some read, last))
    (forest : (⟨store, early ++ current :: put :: late⟩ : Draft).Forest) :
    (⟨last.replace use (.read read), early ++ current :: put :: late⟩ : Draft).calls =
      (⟨store, early ++ current :: put :: late⟩ : Draft).calls := by
  have copied := separateRead_copied (forest.closed put (by simp)) pair.write separate
  have regrowth := pair.regrowth_read copied forest
  obtain ⟨listed, inside, foundUse⟩ := pair.use_spec
  have member : statement ∈ early ++ current :: put :: late := by simp [listed]
  have treeUse : store.Trees [use] := ((forest.of_mem member).node (List.mem_singleton_self statement) inside).1
  refine regrowth.calls_eq [] forest member inside (.refl _) ?_
  rw [treeUse.calls_dupLoad foundUse]
  obtain ⟨_, ⟨away, _⟩ | ⟨_, _, _, below, fresh, _, _, order, _, composed, new⟩⟩ := regrowth.tree forest member
  · exact absurd inside away
  unfold Store.calls
  rw [List.flatMap_singleton, order]
  refine Store.callsIn_eq_zero fun id among kind found => ?_
  rcases List.mem_cons.mp among with rfl | among
  · rw [(pair.transplant_read copied).kind?_spot] at found
    cases found
    rfl
  · have isNew := new id (by simpa using composed.mem_iff.mp among)
    rw [(pair.transplant_read copied).kind?_fresh isNew] at found
    exact Store.Silent.separateRead separate id kind isNew found

theorem keepsCalls_split (separate : separateRead store place = (some read, last)) :
    Draft.KeepsCalls ⟨store, early ++ current :: put :: late⟩
      ⟨(last.replace put (.write place value)).replace use (.read read), early ++ put :: late⟩ := by
  intro forest
  rw [Store.replace_comm pair.ne_use.1]
  have copied := separateRead_copied (forest.closed put (by simp)) pair.write separate
  have regrowth := pair.regrowth_split copied forest
  have forestRead := (pair.regrowth_read copied forest).forest forest
  have treePut : (last.replace use (.read read)).Trees [put] := forestRead.of_mem (by simp)
  have treeCurrent : (last.replace use (.read read)).Trees [current] := forestRead.of_mem (by simp)
  have member : put ∈ early ++ put :: late := by simp
  have here := treePut.mem_preorder_self
  refine ⟨regrowth.forest forestRead, Eq.trans ?_ (pair.calls_read separate forest)⟩
  refine regrowth.calls_eq [current] forestRead member here (List.perm_append_comm_assoc early _ _) ?_
  have transplant := pair.transplant_write copied
  have kept {id : NodeId} {kind : Kind} (apart : id ≠ use) (found : store.kind? id = some kind) :
      (last.replace use (.read read)).kind? id = some kind :=
    ((pair.transplant_read copied).rebuild.kind? (Store.lt_size_of_kind? found) apart).trans found
  have treeStored : (last.replace use (.read read)).Trees [stored] :=
    treePut.child transplant.found (by simp [Kind.children, Kind.operands])
  have apartStored : stored ≠ use := by
    rintro rfl
    obtain ⟨listed, inside, _⟩ := pair.use_spec
    have among : stored ∈ store.preorder put := by
      have treePut : store.Trees [put] := forest.of_mem (by simp)
      have treeStored : store.Trees [stored] := treePut.child pair.write (by simp [Kind.children, Kind.operands])
      exact (treePut.mem_preorder_of_child pair.write (by simp [Kind.children, Kind.operands]) treeStored.mem_preorder_self).1
    have same : put = statement := forest.root_unique (by simp) (by simp [listed]) among inside
    exact forest.neighbours.2.1 (same ▸ List.mem_append_right early listed)
  have children : (Kind.write place value).children = place.operands ++ [value] := by
    simp [Kind.children, Kind.operands, Kind.bodies]
  rw [regrowth.calls_spot forestRead member here transplant.kind?_spot children, Store.calls_cons put [current],
    treePut.calls_write transplant.found, treeStored.calls_dupLoad (kept apartStored pair.written),
    treeCurrent.calls_dupStore (kept pair.ne_use.2 pair.held), add_zero, ← Store.calls_append]
  exact zero_add _

end Pair

theorem step_keepsCalls (store : Store) (spot : Spot) :
    Draft.KeepsCalls ⟨store, spot.keep.statements⟩ ⟨(step store spot).1, (step store spot).2.statements⟩ := by
  obtain ⟨before, current, after⟩ := spot
  rcases step_cases store ⟨before, current, after⟩ with
    ⟨last, extended, same⟩ | ⟨put, rest, place, value, stored, statement, use, rfl, pair, same | ⟨read, last, separate, same⟩⟩
  · rw [same]
    exact .of_extends extended
  · rw [same]
    exact pair.keepsCalls_chained
  · rw [same]
    exact pair.keepsCalls_split separate

theorem recover_keepsCalls (draft : Draft) : draft.KeepsCalls (recover draft) :=
  .of_folds (Outcome.plain.sweep_folds (fun store spot _ same => same ▸ step_keepsCalls store spot) rfl)

end Assignment

namespace ArrayLiteral

variable {store : Store} {early writes late values : List NodeId} {source array user use : NodeId}

theorem length?_eq_some {count : Nat} (counted : length? store array = some count) :
    ∃ kind length value, store.kind? array = some kind ∧ kind.children = [length] ∧ kind.Plain ∧
      store.kind? length = some (.literal value) := by
  unfold length? at counted
  split at counted
  case h_3 => cases counted
  all_goals
    split at counted
    case h_2 => cases counted
    case h_1 found _ _ literal => exact ⟨_, _, _, found, rfl, by rintro _ ⟨⟩, literal⟩

theorem calls_elements (elements : List.Forall₂ (WritesElement store source) writes values) (trees : store.Trees writes) :
    store.calls writes = store.calls values := by
  induction elements with
  | nil => rfl
  | cons first _ continues =>
    obtain ⟨type, object, position, index, found, loaded, literal⟩ := first
    obtain ⟨tree, rest, _⟩ := trees.cons_inv
    have treeObject : store.Trees [object] := tree.child found (by simp [Kind.children, Kind.operands, Place.operands])
    have treePosition : store.Trees [position] := tree.child found (by simp [Kind.children, Kind.operands, Place.operands])
    have operands : store.calls (Place.element type object position).operands = 0 := by
      simp only [Place.operands]
      rw [Store.calls_cons, treeObject.calls_dupLoad loaded, treePosition.calls_literal literal, add_zero]
    rw [Store.calls_cons, tree.calls_write found, operands, zero_add, continues rest, ← Store.calls_cons]

namespace Filled

variable (filled : Filled store early writes late source array user use values)
include filled

theorem user_ne (forest : (⟨store, early ++ source :: (writes ++ late)⟩ : Draft).Forest) : user ≠ source := by
  rintro rfl
  obtain ⟨_, inUser, loaded⟩ := Store.mem_dupLoads.mp (filled.used ▸ List.mem_singleton_self (user, use))
  obtain ⟨count, counted⟩ := filled.counted
  obtain ⟨kind, length, value, found, children, plain, literal⟩ := length?_eq_some counted
  have tree : store.Trees [user] := forest.of_mem (by simp)
  have treeArray := tree.child filled.held (by simp [Kind.children, Kind.operands] : array ∈ _)
  have treeLength := treeArray.child found (by simp [children] : length ∈ _)
  rw [(tree.children filled.held).1] at inUser
  simp only [Kind.children, Kind.operands, Kind.bodies, List.flatten_nil, List.append_nil, List.flatMap_singleton] at inUser
  rw [(treeArray.children found).1, children, List.flatMap_singleton, (treeLength.children literal).1] at inUser
  simp only [Kind.children, Kind.operands, Kind.bodies, List.flatten_nil, List.append_nil, List.flatMap_nil, List.mem_cons,
    List.not_mem_nil, or_false] at inUser
  rcases inUser with rfl | rfl | rfl
  · cases filled.held.symm.trans loaded
  · exact plain user (Option.some_inj.mp (found.symm.trans loaded))
  · cases literal.symm.trans loaded

theorem keepsCalls : Draft.KeepsCalls ⟨store, early ++ source :: (writes ++ late)⟩
    ⟨store.replace use (.arrayLiteral array values), early ++ late⟩ := by
  intro forest
  obtain ⟨listed, inside, loaded⟩ := Store.mem_dupLoads.mp (filled.used ▸ List.mem_singleton_self (user, use))
  have member : user ∈ early ++ late := by simpa [filled.user_ne forest] using listed
  have regrowth := filled.regrowth forest
  refine ⟨regrowth.forest forest,
    regrowth.calls_eq (source :: writes) forest member inside (List.perm_append_comm_assoc early _ late) ?_⟩
  have treeSource : store.Trees [source] := forest.of_mem (by simp)
  have treeUser : store.Trees [user] := forest.of_mem (by simp at member ⊢; tauto)
  have treeUse : store.Trees [use] := (treeUser.node (List.mem_singleton_self user) inside).1
  have treeWrites : store.Trees writes := forest.sublist
    (((List.sublist_append_left writes late).trans (List.sublist_cons_self source _)).trans (List.sublist_append_right early _))
  have children : (Kind.arrayLiteral array values).children = array :: values := by
    simp [Kind.children, Kind.operands, Kind.bodies]
  rw [regrowth.calls_spot forest member inside filled.transplant.kind?_spot children, Store.calls_cons use,
    treeUse.calls_dupLoad loaded, Store.calls_cons source, treeSource.calls_dupStore filled.held,
    calls_elements filled.elements treeWrites, ← Store.calls_cons array values]
  rfl

end Filled

theorem step_keepsCalls (store : Store) (spot : Spot) :
    Draft.KeepsCalls ⟨store, spot.keep.statements⟩ ⟨(step store spot).1, (step store spot).2.statements⟩ := by
  obtain ⟨before, current, after⟩ := spot
  rcases step_cases store ⟨before, current, after⟩ with same | ⟨writes, rest, array, user, use, values, rfl, filled, same⟩
  · rw [same]
    exact .refl _
  · rw [same]
    exact filled.keepsCalls

theorem recover_keepsCalls (draft : Draft) : draft.KeepsCalls (recover draft) :=
  .of_folds (Outcome.plain.sweep_folds (fun store spot _ same => same ▸ step_keepsCalls store spot) rfl)

end ArrayLiteral

namespace Conditional

variable {store changed : Store} {early late : List NodeId} {branch pending jump use ifTrue ifFalse : NodeId} {second : Offset}
  {kind : Kind}

theorem Choice.keepsCalls (choice : Choice store branch pending jump use ifTrue ifFalse second kind) :
    Draft.KeepsCalls ⟨store, early ++ branch :: pending :: jump :: use :: late⟩
      ⟨fold store branch ifTrue ifFalse kind, early ++ use :: late⟩ := by
  intro forest
  refine ⟨choice.sound.forest forest, ?_⟩
  rw [Choice.fold_eq, Draft.calls, Store.calls_negate]
  have regrowth := choice.regrowth forest
  have transplant := choice.transplant early late
  have member : use ∈ early ++ use :: late := by simp
  refine regrowth.calls_eq [branch, pending, jump] forest member choice.inside (List.perm_append_comm_assoc early _ _) ?_
  have lost : store.calls [ifFalse, branch, pending, jump] = kind.calls + store.calls (kind.children ++ [branch, ifTrue]) := by
    have treeUse : store.Trees [use] := forest.of_mem (by simp)
    have treePending : store.Trees [pending] := forest.of_mem (by simp)
    have treeJump : store.Trees [jump] := forest.of_mem (by simp)
    have treeSecond : store.Trees [ifFalse] := (treeUse.node (List.mem_singleton_self use) choice.inside).1
    have first : store.calls [pending] = store.calls [ifTrue] := by
      simpa [Kind.calls, Kind.children, Kind.operands, Kind.bodies] using treePending.calls_root choice.first
    rw [Store.calls_cons ifFalse, treeSecond.calls_root choice.other, Store.calls_cons branch [pending, jump],
      Store.calls_cons pending [jump], first, treeJump.calls_goto choice.jumps, Store.calls_append, Store.calls_cons branch [ifTrue]]
    abel
  have treeChoice := regrowth.tree_spot forest member choice.inside
  have treeMoved := treeChoice.child transplant.kind?_spot (by simp [Kind.children, Kind.operands] : store.size ∈ _)
  have inside := Store.lt_size_of_kind? choice.other
  have moved := treeMoved.calls_root (Store.kind?_replace_allocate inside inside)
  rw [lost, ← regrowth.calls_seeds member choice.inside, treeChoice.calls_conditional transplant.kind?_spot, moved,
    Store.calls_append, Store.calls_cons branch [ifTrue]]
  abel

theorem step_keepsCalls {spot : Spot} {cursor : Cursor} (ran : step store spot = .ok (changed, cursor)) :
    Draft.KeepsCalls ⟨store, spot.keep.statements⟩ ⟨changed, cursor.statements⟩ := by
  obtain ⟨before, current, after⟩ := spot
  rcases step_ok ran with ⟨rfl, rfl⟩ | ⟨pending, jump, use, rest, ifTrue, ifFalse, second, kind, split, choice, rfl, rfl⟩
  · exact .refl _
  · cases split
    exact choice.keepsCalls

theorem recover_keepsCalls {before after : Draft} (ran : recover before = .ok after) : before.KeepsCalls after :=
  .of_folds ((Outcome.failing MethodError).sweep_folds (fun _ _ _ ran => step_keepsCalls ran) ran)

end Conditional

end ClassLift
