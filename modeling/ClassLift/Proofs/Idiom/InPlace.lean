import ClassLift.Idiom.Recover
import ClassLift.Proofs.Idiom.OuterInstance
import ClassLift.Proofs.Idiom.Planting

namespace ClassLift

variable {store changed : Store} {statements : List NodeId} {id : NodeId} {kind : Kind}

namespace Store

theorem Prunes.arguments (object : Option NodeId) (arguments : List NodeId) :
    store.Prunes (object.toList ++ arguments) arguments :=
  .of_sublist (List.sublist_append_right _ _)

theorem kind?_replace_allocate {origin : NodeId} {added : Kind} (old : id < store.size) (inside : origin < store.size) :
    ((store.allocate origin added).2.replace id kind).kind? store.size = some added := by
  have apart : store.size ≠ id := fun same => Nat.lt_irrefl _ (same ▸ old)
  rw [kind?, node?_replace, if_neg apart]
  exact kind?_allocate_self inside

theorem size_lt_allocate {origin : NodeId} {added : Kind} (inside : origin < store.size) :
    store.size < (store.allocate origin added).2.size := by
  obtain ⟨node, located⟩ := node?_isSome inside
  simp [allocate, located, size]

end Store

theorem Draft.within_added {old added : Kind} {rest : List NodeId} (found : store.kind? id = some old)
    (prunes : store.Prunes old.children (added.children ++ rest)) (unheld : ∀ value, old ≠ .dupStore value)
    (plainAdded : added.Plain) (plain : kind.Plain) (children : kind.children = store.size :: rest) :
    Stems ⟨store, statements⟩ ⟨(store.allocate id added).2.replace id kind, statements⟩ ∧
      Keeps ⟨store, statements⟩ ⟨(store.allocate id added).2.replace id kind, statements⟩ := by
  have inside := Store.lt_size_of_kind? found
  have adds : store.Adds (added.children ++ rest) (· = id) Kind.Plain (store.allocate id added).2 :=
    .allocate .none inside rfl plainAdded fun child below => .inl (List.mem_append_left rest below)
  have transplant : Transplant store (store.allocate id added).2 statements statements id old kind old.children []
      (added.children ++ rest) (· = id) Kind.Plain := by
    refine .inPlace found prunes adds ?_
    rw [children]
    intro child below
    rcases List.mem_cons.mp below with rfl | below
    · exact .inr ⟨Nat.le_refl _, Store.size_lt_allocate inside⟩
    · exact .inl (List.mem_append_right _ below)
  refine transplant.within unheld (fun source same => absurd same (plain source)) fun trees apart => ?_
  obtain ⟨first, second, _⟩ := trees.append_inv
  rw [List.flatMap_append, List.mem_append, not_or] at apart
  refine ⟨store.size :: (added.children ++ rest).flatMap store.preorder, [store.size], ?_, .refl _, by simp, by simp⟩
  rw [children, List.flatMap_append]
  exact .cons (Store.kind?_replace_allocate inside inside) (transplant.lists first apart.1) (transplant.lists second apart.2)

namespace OuterInstance

theorem Expands.within {member : PoolIndex} {accessor : Accessor} {arguments : List NodeId} {old : Kind}
    (expands : Expands store id member accessor arguments changed) (found : store.kind? id = some old)
    (prunes : store.Prunes old.children arguments) (unheld : ∀ value, old ≠ .dupStore value) :
    Draft.Stems ⟨store, statements⟩ ⟨changed, statements⟩ ∧ Draft.Keeps ⟨store, statements⟩ ⟨changed, statements⟩ := by
  cases expands with
  | readStatic | readField | writeStatic | writeField =>
    exact Draft.within_seeds found prunes unheld (by rintro _ ⟨⟩)
  | callStatic | callVirtual =>
    exact Draft.within_seeds found (by simpa [Kind.children, Kind.operands, Kind.bodies] using prunes) unheld
      (by rintro _ ⟨⟩)
  | assignStatic | assignField =>
    exact Draft.within_added found prunes unheld (by rintro _ ⟨⟩) (by rintro _ ⟨⟩) rfl

theorem droppedCall?_prunes {call : NodeId} {method : PoolIndex} {object : Option NodeId} {arguments : List NodeId}
    (dropped : droppedCall? store id = some call)
    (found : store.kind? call = some (.call .static method object arguments)) :
    ∃ old, store.kind? id = some old ∧ store.Prunes old.children arguments ∧ ∀ value, old ≠ .dupStore value := by
  have inner : store.Prunes (Kind.call .static method object arguments).children arguments := by
    simpa [Kind.children, Kind.operands, Kind.bodies] using Store.Prunes.arguments object arguments
  unfold droppedCall? at dropped
  split at dropped
  case h_1 value foundStatement =>
    cases dropped
    exact ⟨_, foundStatement, .open_root found inner, by rintro _ ⟨⟩⟩
  case h_2 foundStatement =>
    cases dropped
    exact ⟨_, found, inner, by rintro _ ⟨⟩⟩
  case h_3 => cases dropped

variable {table last : ClassTable} {home : ClassId}

theorem inlineSetter_within (ran : inlineSetter home store id table = (.ok changed, last)) :
    Draft.Stems ⟨store, statements⟩ ⟨changed, statements⟩ ∧ Draft.Keeps ⟨store, statements⟩ ⟨changed, statements⟩ := by
  rcases inlineSetter_ok ran with ⟨rfl, _⟩ | ⟨call, _, arguments, accessor, owner, member, dropped, found,
    ⟨method, object, rfl⟩, _, _, expands⟩
  · exact ⟨.refl _, .refl _⟩
  · obtain ⟨old, foundStatement, prunes, unheld⟩ := droppedCall?_prunes dropped found
    exact expands.within foundStatement prunes unheld

theorem foldNode_within (ran : foldNode home store id table = (.ok changed, last)) :
    Draft.Stems ⟨store, statements⟩ ⟨changed, statements⟩ ∧ Draft.Keeps ⟨store, statements⟩ ⟨changed, statements⟩ := by
  rcases foldNode_ok ran with ⟨rfl, _⟩ | ⟨_, arguments, accessor, owner, member, found, ⟨method, object, rfl⟩, _, _, expands⟩ |
    ⟨field, object, _, name, type, found, _, _, _, rfl⟩
  · exact ⟨.refl _, .refl _⟩
  · refine expands.within found ?_ (by rintro _ ⟨⟩)
    simpa [Kind.children, Kind.operands, Kind.bodies] using Store.Prunes.arguments object arguments
  · exact Draft.within_seeds found (.of_sublist (List.nil_sublist _)) (by rintro _ ⟨⟩) (by rintro _ ⟨⟩)

end OuterInstance

/-! ## Compound assignments used as values -/

namespace CompoundAssignment

theorem operands?_eq_some {value lhs rhs : NodeId} {op : BinaryOp} (folded : operands? store value = some (op, lhs, rhs)) :
    store.kind? value = some (.binary op lhs rhs) := by
  unfold operands? at folded
  split at folded
  · split at folded
    · cases folded
      assumption
    · cases folded
  · cases folded

theorem foldNode_within (store : Store) (id : NodeId) :
    Draft.Stems ⟨store, statements⟩ ⟨foldNode store id, statements⟩ ∧
      Draft.Keeps ⟨store, statements⟩ ⟨foldNode store id, statements⟩ := by
  have unchanged : Draft.Stems ⟨store, statements⟩ ⟨store, statements⟩ ∧ Draft.Keeps ⟨store, statements⟩ ⟨store, statements⟩ :=
    ⟨.refl _, .refl _⟩
  unfold foldNode
  split
  case h_1 target value found =>
    split
    case h_1 op lhs rhs folded =>
      split
      · have prunes : store.Prunes [value] [rhs] := .open_root (operands?_eq_some folded) (.drop (.keep .nil))
        exact Draft.within_seeds found (.keep prunes) (by rintro _ ⟨⟩) (by rintro _ ⟨⟩)
      · exact unchanged
    case h_2 => exact unchanged
  case h_2 => exact unchanged

end CompoundAssignment

/-! ## Class literals -/

namespace ClassLiteral

/-- A class literal is made of new nodes only. -/
structure Sprouts (store : Store) (origin : NodeId) (kind : Kind) (grown : Store) : Prop where
  adds : store.Adds [] (· = origin) Kind.Plain grown
  plain : kind.Plain
  children : ∀ child ∈ kind.children, store.size ≤ child ∧ child < grown.size
  listed : ∀ after : Store, (∀ id, store.size ≤ id → id < grown.size → after.kind? id = grown.kind? id) →
    ∃ below, after.Lists kind.children below ∧ below.Nodup ∧ ∀ id ∈ below, store.size ≤ id

variable {table last : ClassTable} {home : ClassId} {origin : NodeId} {grown : Store}

theorem sprouts_constant (index : PoolIndex) : Sprouts store origin (.constant index) store :=
  ⟨.none, by rintro _ ⟨⟩, by rintro _ ⟨⟩, fun _ _ => ⟨[], .nil, .nil, by simp⟩⟩

theorem sprouts_array {array : Kind} (inside : origin < store.size) (children : array.children = [store.size])
    (plain : array.Plain) (method : PoolIndex) :
    Sprouts store origin
      (.call .virtual method (some ((store.allocate origin (.literal (.int 0))).2.allocate origin array).1) [])
      ((store.allocate origin (.literal (.int 0))).2.allocate origin array).2 := by
  have sized : store.size < (store.allocate origin (.literal (.int 0))).2.size := Store.size_lt_allocate inside
  have foundSize : (store.allocate origin (.literal (.int 0))).2.kind? store.size = some (.literal (.int 0)) :=
    Store.kind?_allocate_self inside
  have adds : store.Adds [] (· = origin) Kind.Plain (store.allocate origin (.literal (.int 0))).2 :=
    .allocate .none inside rfl (by rintro _ ⟨⟩) (by rintro _ ⟨⟩)
  generalize (store.allocate origin (.literal (.int 0))).2 = middle at sized foundSize adds ⊢
  have insideMiddle : origin < middle.size := Nat.lt_of_lt_of_le inside adds.size_le
  have added : middle.size < (middle.allocate origin array).2.size := Store.size_lt_allocate insideMiddle
  rw [Store.allocate_fst]
  refine ⟨adds.allocate inside rfl plain ?_, by rintro _ ⟨⟩, ?_, fun after same => ⟨[middle.size, store.size], ?_, ?_, ?_⟩⟩
  · rw [children]
    rintro child (_ | ⟨_, ⟨⟩⟩)
    exact .inr ⟨Nat.le_refl _, sized⟩
  · rintro child (_ | ⟨_, ⟨⟩⟩)
    exact ⟨adds.size_le, added⟩
  · have foundObject : after.kind? middle.size = some array := by
      rw [same _ adds.size_le added]
      exact Store.kind?_allocate_self insideMiddle
    have foundLength : after.kind? store.size = some (.literal (.int 0)) := by
      rw [same _ (Nat.le_refl _) (Nat.lt_trans sized added), Store.kind?, Store.node?_allocate_of_lt sized]
      exact foundSize
    refine Store.Lists.singleton_iff.mpr ⟨array, [store.size], foundObject, ?_, rfl⟩
    rw [children]
    exact Store.Lists.singleton_iff.mpr ⟨_, [], foundLength, .nil, rfl⟩
  · simpa using Nat.ne_of_gt sized
  · simpa using adds.size_le

theorem arrayLiteral_sprouts {element : List Char} (inside : origin < store.size)
    (ran : arrayLiteral home store origin element table = (.ok (kind, grown), last)) : Sprouts store origin kind grown := by
  have finished {array : Kind} (children : array.children = [store.size]) (plain : array.Plain) {middle : ClassTable}
      (ran : (do
        let method ← OnTable.interning home (Pool.internMethod "java/lang/Object" "getClass" "()Ljava/lang/Class;")
        return (.call .virtual method (some (store.allocate origin (.literal (.int 0))).2.size) [],
          ((store.allocate origin (.literal (.int 0))).2.allocate origin array).2) : OnTable (Kind × Store)) middle =
        (.ok (kind, grown), last)) : Sprouts store origin kind grown := by
    obtain ⟨method, _, same⟩ := OnTable.map_ok ran
    cases same
    simpa using sprouts_array inside children plain method
  unfold arrayLiteral at ran
  simp only [Store.allocate_fst, pure_bind] at ran
  split at ran
  · exact finished rfl (by rintro _ ⟨⟩) ran
  · obtain ⟨type, middle, _, ran⟩ := bind_ok.mp ran
    exact finished rfl (by rintro _ ⟨⟩) ran

theorem literal_sprouts {name : String} (inside : origin < store.size)
    (ran : literal home store origin name table = (.ok (kind, grown), last)) : Sprouts store origin kind grown := by
  unfold literal at ran
  generalize List.map _ _ = path at ran
  split at ran
  · exact arrayLiteral_sprouts inside ran
  · obtain ⟨index, _, same⟩ := OnTable.map_ok ran
    cases same
    exact sprouts_constant index

theorem foldCall_within (ran : foldCall home store id table = (.ok changed, last)) :
    Draft.Stems ⟨store, statements⟩ ⟨changed, statements⟩ ∧ Draft.Keeps ⟨store, statements⟩ ⟨changed, statements⟩ := by
  unfold foldCall at ran
  generalize found : store.kind? id = shape at ran
  split at ran
  case h_2 =>
    obtain ⟨rfl, _⟩ := OnTable.return_ok ran
    exact ⟨.refl _, .refl _⟩
  case h_1 _ method object arguments =>
    rw [OnTable.pool_bind_ok, OnTable.read_bind_ok] at ran
    obtain ⟨named, _, ran⟩ := ran
    cases named with
    | none =>
      obtain ⟨rfl, _⟩ := OnTable.return_ok ran
      exact ⟨.refl _, .refl _⟩
    | some name =>
      obtain ⟨⟨kind, grown⟩, middle, made, ran⟩ := bind_ok.mp ran
      obtain ⟨_, _, _, ran⟩ := bind_ok.mp ran
      obtain ⟨rfl, _⟩ := OnTable.return_ok ran
      have sprouts := literal_sprouts (Store.lt_size_of_kind? found) made
      have transplant : Draft.Transplant store grown statements statements id _ kind _ [] [] (· = id) Kind.Plain :=
        .inPlace found (.of_sublist (List.nil_sublist _)) sprouts.adds fun child below => .inr (sprouts.children child below)
      refine transplant.within (by rintro _ ⟨⟩) (fun source same => absurd same (sprouts.plain source)) fun _ _ => ?_
      obtain ⟨below, lists, distinct, new⟩ :=
        sprouts.listed (grown.replace id kind) fun other new _ => transplant.kind?_fresh new
      exact ⟨below, below, lists, by simp, distinct, new⟩

end ClassLiteral

/-! ## String concatenation -/

namespace Concatenation

variable {pool : Pool} {operands : List Operand}

theorem initial_prunes {operand : Operand} (ran : initial pool store id = .ok operand) :
    store.Prunes [id] [operand.node] := by
  have whole : store.Prunes [id] [id] := .keep .nil
  unfold initial at ran
  split at ran
  case h_1 method argument found =>
    obtain ⟨called, _, ran⟩ := except_bind_ok.mp ran
    split at ran
    · obtain ⟨isString, _, same⟩ := except_bind_ok.mp ran
      cases same
      exact .open_root found (.keep .nil)
    · cases ran
      exact whole
  case h_2 =>
    cases ran
    exact whole

theorem constructed?_prunes {method : PoolIndex} {arguments : List NodeId}
    (ran : constructed? pool store method arguments = .ok (some operands)) :
    store.Prunes arguments (operands.map Operand.node) := by
  unfold constructed? at ran
  obtain ⟨called, _, ran⟩ := except_bind_ok.mp ran
  split at ran
  · cases ran
  · split at ran
    · cases ran
      exact .of_sublist (List.nil_sublist _)
    · split at ran
      · cases ran
      · split at ran
        · obtain ⟨operand, started, same⟩ := except_bind_ok.mp ran
          cases same
          exact initial_prunes started
        · cases ran

theorem appended?_prunes {bound : Nat} {builder : NodeId} (ran : appended? pool store bound builder = .ok (some operands)) :
    store.Prunes [builder] (operands.map Operand.node) := by
  induction bound generalizing builder operands with
  | zero => cases ran
  | succ bound continues =>
    unfold appended? at ran
    split at ran
    case h_1 method inner arguments found =>
      obtain ⟨called, _, ran⟩ := except_bind_ok.mp ran
      split at ran
      case h_2 => cases ran
      case h_1 argument =>
        split at ran
        · cases ran
        · obtain ⟨isString, _, ran⟩ := except_bind_ok.mp ran
          obtain ⟨earlier, before, same⟩ := except_bind_ok.mp ran
          cases earlier with
          | none => cases same
          | some earlier =>
            cases same
            rw [List.map_append]
            exact .open_root found ((continues before).append (.keep .nil))
    case h_2 method arguments found =>
      refine .open_root found ?_
      simpa [Kind.children, Kind.operands, Kind.bodies] using constructed?_prunes ran
    case h_3 => cases ran

theorem operands?_prunes (ran : operands? pool store kind = .ok (some operands)) :
    store.Prunes kind.children (operands.map Operand.node) ∧ ∀ value, kind ≠ .dupStore value := by
  unfold operands? at ran
  split at ran
  case h_1 method builder arguments =>
    obtain ⟨called, _, rest⟩ := except_bind_ok.mp ran
    split at rest
    · cases rest
    · rename_i accepted
      obtain rfl : arguments = [] := by
        simp only [Bool.or_eq_true, Bool.not_eq_true', not_or, Bool.not_eq_false] at accepted
        simpa using accepted.1.1
      exact ⟨appended?_prunes rest, by rintro _ ⟨⟩⟩
  case h_2 => cases ran

theorem sum_cons_cons (origin first next second : NodeId) (rest : List NodeId) :
    sum store origin first (next :: second :: rest) =
      sum (store.allocate origin (.binary .add first next)).2 origin store.size (second :: rest) := by
  have added : (store.allocate origin (.binary .add first next)).1 = store.size := Store.allocate_fst
  rw [← added]
  rfl

theorem exists_sum {origin first : NodeId} (inside : origin < store.size) (located : first < store.size)
    (rest : List NodeId) : ∃ kind grown, sum store origin first rest = some (kind, grown) := by
  induction rest generalizing store first with
  | nil =>
    obtain ⟨node, found⟩ := Store.node?_isSome located
    exact ⟨node.kind, store, by simp [sum, Store.kind?, found]⟩
  | cons next rest continues =>
    cases rest with
    | nil => exact ⟨_, store, rfl⟩
    | cons second rest =>
      rw [sum_cons_cons]
      exact continues (Nat.lt_of_lt_of_le inside Store.size_le_allocate) (Store.size_lt_allocate inside)

theorem sum_grows {grown : Store} {origin first : NodeId} {rest : List NodeId}
    (summed : sum store origin first rest = some (kind, grown)) :
    store.size ≤ grown.size ∧ ∀ id < store.size, grown.node? id = store.node? id := by
  induction rest generalizing store first with
  | nil =>
    obtain ⟨_, _, same⟩ := Option.map_eq_some_iff.mp summed
    cases same
    exact ⟨Nat.le_refl _, fun _ _ => rfl⟩
  | cons next rest continues =>
    cases rest with
    | nil =>
      cases summed
      exact ⟨Nat.le_refl _, fun _ _ => rfl⟩
    | cons second rest =>
      rw [sum_cons_cons] at summed
      obtain ⟨grows, same⟩ := continues summed
      have more : store.size ≤ (store.allocate origin (.binary .add first next)).2.size := Store.size_le_allocate
      refine ⟨Nat.le_trans more grows, fun id old => ?_⟩
      exact (same id (Nat.lt_of_lt_of_le old more)).trans (Store.node?_allocate_of_lt old)

theorem sum_chain {base grown : Store} {origin first next : NodeId} {rest seeds : List NodeId}
    (inside : origin < base.size) (adds : base.Adds seeds (· = origin) Kind.Plain store)
    (head : first ∈ seeds ∨ base.size ≤ first ∧ first < store.size) (tail : ∀ operand ∈ next :: rest, operand ∈ seeds)
    (summed : sum store origin first (next :: rest) = some (kind, grown)) :
    base.Adds seeds (· = origin) Kind.Plain grown ∧ kind.Plain ∧
      (∀ child ∈ kind.children, child ∈ seeds ∨ base.size ≤ child ∧ child < grown.size) ∧
      ∀ (after : Store) (firstOrder : List NodeId) (order : NodeId → List NodeId),
        (∀ id, store.size ≤ id → id < grown.size → after.kind? id = grown.kind? id) → after.Lists [first] firstOrder →
        (∀ operand ∈ next :: rest, after.Lists [operand] (order operand)) →
        ∃ below fresh, after.Lists kind.children below ∧
          below.Perm (fresh ++ (firstOrder ++ (next :: rest).flatMap order)) ∧ fresh.Nodup ∧
          ∀ id ∈ fresh, store.size ≤ id ∧ id < grown.size := by
  induction rest generalizing store first next with
  | nil =>
    cases summed
    refine ⟨adds, by rintro _ ⟨⟩, ?_, ?_⟩
    · rintro child (_ | ⟨_, _ | ⟨_, ⟨⟩⟩⟩)
      · exact head
      · exact .inl (tail next List.mem_cons_self)
    · intro after firstOrder order _ listed lists
      refine ⟨firstOrder ++ order next, [], ?_, by simp, .nil, by simp⟩
      exact listed.append (lists next List.mem_cons_self)
  | cons second rest continues =>
    have added : store.size < (store.allocate origin (.binary .add first next)).2.size :=
      Store.size_lt_allocate (Nat.lt_of_lt_of_le inside adds.size_le)
    have foundAdded : (store.allocate origin (.binary .add first next)).2.kind? store.size = some (.binary .add first next) :=
      Store.kind?_allocate_self (Nat.lt_of_lt_of_le inside adds.size_le)
    have addsMore : base.Adds seeds (· = origin) Kind.Plain (store.allocate origin (.binary .add first next)).2 := by
      refine adds.allocate inside rfl (by rintro _ ⟨⟩) ?_
      rintro child (_ | ⟨_, _ | ⟨_, ⟨⟩⟩⟩)
      · exact head
      · exact .inl (tail next List.mem_cons_self)
    rw [sum_cons_cons] at summed
    generalize (store.allocate origin (.binary .add first next)).2 = middle at added foundAdded addsMore summed
    obtain ⟨grows, unchanged⟩ := sum_grows summed
    obtain ⟨addsAll, plain, children, listed⟩ :=
      continues addsMore (.inr ⟨adds.size_le, added⟩) (fun operand among => tail operand (.tail _ among)) summed
    refine ⟨addsAll, plain, children, fun after firstOrder order same listedFirst lists => ?_⟩
    have foundSum : after.kind? store.size = some (.binary .add first next) := by
      rw [same _ (Nat.le_refl _) (Nat.lt_of_lt_of_le added grows), Store.kind?, unchanged _ added]
      exact foundAdded
    have listedSum : after.Lists [store.size] (store.size :: (firstOrder ++ order next)) :=
      Store.Lists.singleton_iff.mpr ⟨_, _, foundSum, listedFirst.append (lists next List.mem_cons_self), rfl⟩
    obtain ⟨below, fresh, listedBelow, composed, distinct, new⟩ := listed after _ order
      (fun id newer => same id (Nat.le_of_lt (Nat.lt_of_lt_of_le added newer))) listedSum
      (fun operand among => lists operand (.tail _ among))
    refine ⟨below, store.size :: fresh, listedBelow, composed.trans ?_, ?_, ?_⟩
    · simp only [List.flatMap_cons, List.cons_append, List.append_assoc]
      exact List.perm_middle
    · exact List.nodup_cons.mpr ⟨fun among => Nat.not_lt.mpr (new _ among).1 added, distinct⟩
    · intro id among
      rcases List.mem_cons.mp among with rfl | among
      · exact ⟨Nat.le_refl _, Nat.lt_of_lt_of_le added grows⟩
      · exact ⟨Nat.le_of_lt (Nat.lt_of_lt_of_le added (new id among).1), (new id among).2⟩

variable {table last : ClassTable} {home : ClassId}

theorem foldNode_ok (ran : foldNode home store id table = (.ok changed, last)) :
    changed = store ∨ ∃ old nodes kind grown, store.kind? id = some old ∧ changed = grown.replace id kind ∧
      store.Prunes old.children nodes ∧ (∀ value, old ≠ .dupStore value) ∧
      ((∃ empty, sum (store.allocate id (.constant empty)).2 id store.size nodes = some (kind, grown)) ∨
        ∃ first rest, nodes = first :: rest ∧ sum store id first rest = some (kind, grown)) := by
  unfold foldNode at ran
  cases found : store.kind? id with
  | none =>
    simp only [found] at ran
    exact .inl (OnTable.return_ok ran).1
  | some old =>
    simp only [found, OnTable.pool_bind_ok, OnTable.failure_bind_ok] at ran
    obtain ⟨looked, read, ran⟩ := ran
    cases looked with
    | none => exact .inl (OnTable.return_ok ran).1
    | some operands =>
      obtain ⟨prunes, unheld⟩ := operands?_prunes read
      simp only [Store.allocate_fst, pure_bind] at ran
      generalize operands.map Operand.node = nodes at ran prunes
      split at ran
      · obtain ⟨empty, middle, _, ran⟩ := bind_ok.mp ran
        have inside := Store.lt_size_of_kind? found
        have insideMore : id < (store.allocate id (.constant empty)).2.size :=
          Nat.lt_of_lt_of_le inside Store.size_le_allocate
        obtain ⟨kind, grown, summed⟩ := exists_sum insideMore (Store.size_lt_allocate inside) nodes
        simp only [summed] at ran
        obtain ⟨same, _⟩ := OnTable.return_ok ran
        exact .inr ⟨old, nodes, kind, grown, rfl, same, prunes, unheld, .inl ⟨empty, summed⟩⟩
      · cases nodes with
        | nil => exact .inl (OnTable.return_ok ran).1
        | cons first rest =>
          cases summed : sum store id first rest with
          | none =>
            simp only [summed] at ran
            exact .inl (OnTable.return_ok ran).1
          | some pair =>
            obtain ⟨kind, grown⟩ := pair
            simp only [summed] at ran
            obtain ⟨same, _⟩ := OnTable.return_ok ran
            exact .inr ⟨old, _, kind, grown, rfl, same, prunes, unheld, .inr ⟨first, rest, rfl, summed⟩⟩

theorem operand_lists {after : Store} {nodes : List NodeId} (trees : store.Trees nodes)
    (lists : ∀ roots, store.Trees roots → id ∉ roots.flatMap store.preorder → after.Lists roots (roots.flatMap store.preorder))
    (outside : id ∉ nodes.flatMap store.preorder) :
    ∀ operand ∈ nodes, after.Lists [operand] (store.preorder operand) := by
  intro operand among
  simpa using lists [operand] (trees.of_mem among) fun inside =>
    outside (List.mem_flatMap.mpr ⟨operand, among, by simpa using inside⟩)

theorem foldNode_within (ran : foldNode home store id table = (.ok changed, last)) :
    Draft.Stems ⟨store, statements⟩ ⟨changed, statements⟩ ∧ Draft.Keeps ⟨store, statements⟩ ⟨changed, statements⟩ := by
  rcases foldNode_ok ran with rfl | ⟨old, nodes, kind, grown, found, rfl, prunes, unheld, summed⟩
  · exact ⟨.refl _, .refl _⟩
  have inside := Store.lt_size_of_kind? found
  rcases summed with ⟨empty, summed⟩ | ⟨first, rest, rfl, summed⟩
  · have adds : store.Adds nodes (· = id) Kind.Plain (store.allocate id (.constant empty)).2 :=
      .allocate .none inside rfl (by rintro _ ⟨⟩) (by rintro _ ⟨⟩)
    have located : store.size < (store.allocate id (.constant empty)).2.size := Store.size_lt_allocate inside
    have foundEmpty : (store.allocate id (.constant empty)).2.kind? store.size = some (.constant empty) :=
      Store.kind?_allocate_self inside
    generalize (store.allocate id (.constant empty)).2 = middle at adds located foundEmpty summed
    cases nodes with
    | nil =>
      -- An empty builder is an empty string.
      obtain ⟨_, same, pair⟩ := Option.map_eq_some_iff.mp summed
      cases pair
      obtain rfl := Option.some_inj.mp (same.symm.trans foundEmpty)
      have transplant : Draft.Transplant store _ statements statements id old (.constant empty) _ [] [] (· = id)
          Kind.Plain := .inPlace found prunes adds (by rintro _ ⟨⟩)
      exact transplant.within unheld (by rintro _ ⟨⟩) fun _ _ => ⟨[], [], .nil, .nil, .nil, by simp⟩
    | cons next rest =>
      obtain ⟨addsAll, plain, children, listed⟩ :=
        sum_chain inside adds (.inr ⟨Nat.le_refl _, located⟩) (fun _ among => among) summed
      have transplant : Draft.Transplant store grown statements statements id old kind _ [] (next :: rest) (· = id)
          Kind.Plain := .inPlace found prunes addsAll children
      refine transplant.within unheld (fun source same => absurd same (plain source)) fun trees outside => ?_
      have foundFirst : (grown.replace id kind).kind? store.size = some (.constant empty) := by
        obtain ⟨_, same⟩ := sum_grows summed
        rw [transplant.kind?_fresh (Nat.le_refl _), Store.kind?, same _ located]
        exact foundEmpty
      have listedFirst : (grown.replace id kind).Lists [store.size] [store.size] :=
        Store.Lists.singleton_iff.mpr ⟨_, [], foundFirst, .nil, rfl⟩
      obtain ⟨below, fresh, listedBelow, composed, distinct, new⟩ := listed (grown.replace id kind) _ store.preorder
        (fun other newer _ => transplant.kind?_fresh (Nat.le_trans adds.size_le newer)) listedFirst
        (operand_lists trees (fun _ => transplant.lists) outside)
      refine ⟨below, fresh ++ [store.size], listedBelow, by simpa using composed, ?_, ?_⟩
      · rw [List.nodup_append_comm]
        exact List.nodup_cons.mpr ⟨fun among => Nat.not_lt.mpr (new _ among).1 located, distinct⟩
      · intro other among
        rcases List.mem_append.mp among with among | among
        · exact Nat.le_trans adds.size_le (new other among).1
        · exact Nat.le_of_eq (List.mem_singleton.mp among).symm
  · cases rest with
    | nil =>
      -- A single operand stands for itself.
      obtain ⟨copied, foundFirst, pair⟩ := Option.map_eq_some_iff.mp summed
      cases pair
      refine Draft.within_seeds found (prunes.trans ?_) unheld ?_
      · exact .open_root foundFirst (.of_sublist (List.Sublist.refl _))
      · rintro source rfl
        obtain ⟨child, below, reached⟩ := prunes.reaches List.mem_cons_self
        exact ⟨first, foundFirst, (Store.Reaches.tail (.refl id) found below).trans reached⟩
    | cons next rest =>
      obtain ⟨addsAll, plain, children, listed⟩ := sum_chain inside .none (.inl List.mem_cons_self)
        (fun operand among => List.mem_cons_of_mem first among) summed
      have transplant : Draft.Transplant store grown statements statements id old kind _ [] (first :: next :: rest) (· = id)
          Kind.Plain := .inPlace found prunes addsAll children
      refine transplant.within unheld (fun source same => absurd same (plain source)) fun trees outside => ?_
      have listedAll := operand_lists trees (fun _ => transplant.lists) outside
      obtain ⟨below, fresh, listedBelow, composed, distinct, new⟩ := listed (grown.replace id kind) _ store.preorder
        (fun other newer _ => transplant.kind?_fresh newer) (listedAll first List.mem_cons_self)
        (fun operand among => listedAll operand (.tail _ among))
      exact ⟨below, fresh, listedBelow, composed, distinct, fun other among => (new other among).1⟩

end Concatenation

end ClassLift
