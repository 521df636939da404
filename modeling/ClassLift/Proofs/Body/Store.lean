import ClassLift.Body.Store

namespace ClassLift

namespace Store

variable {store : Store} {id origin other : NodeId} {kind : Kind} {node : Node}

theorem kind?_eq_some : store.kind? id = some kind ↔ ∃ node, store.node? id = some node ∧ node.kind = kind := by
  simp [kind?, Option.map_eq_some_iff]

theorem kind?_of_node? (found : store.node? id = some node) : store.kind? id = some node.kind := by
  simp [kind?, found]

theorem node?_isSome (inside : id < store.size) : ∃ node, store.node? id = some node :=
  ⟨store.nodes[id], Array.getElem?_eq_getElem inside⟩

theorem lt_size_of_node? (found : store.node? id = some node) : id < store.size :=
  (Array.getElem?_eq_some_iff.mp found).1

theorem lt_size_of_kind? (found : store.kind? id = some kind) : id < store.size := by
  obtain ⟨node, located, _⟩ := kind?_eq_some.mp found
  exact lt_size_of_node? located

theorem kind?_of_isSlot {slot : Slot} (reads : store.isSlot id slot = true) :
    ∃ type, store.kind? id = some (.read (.slot type slot)) := by
  obtain ⟨kind, found, isSlot⟩ := (Option.any_eq_true _ _).mp reads
  unfold Kind.isSlot at isSlot
  split at isSlot
  case h_1 type index => exact ⟨type, (beq_iff_eq.mp isSlot) ▸ found⟩
  case h_2 => cases isSlot

@[simp] theorem size_replace : (store.replace id kind).size = store.size := by
  simp [replace, size]

@[simp] theorem size_negate : (store.negate id).size = store.size := by
  simp [negate, size]

theorem node?_replace : (store.replace id kind).node? other =
    if other = id then (store.node? id).map fun node => { node with kind } else store.node? other := by
  unfold replace node?
  rw [Array.getElem?_modify]
  by_cases same : id = other
  · subst same
    simp
  · simp [same, Ne.symm same]

theorem replace_comm {made : Kind} (apart : id ≠ other) :
    (store.replace id kind).replace other made = (store.replace other made).replace id kind := by
  refine congrArg Store.mk (Array.ext_getElem? fun index => ?_)
  simp only [replace, Array.getElem?_modify]
  by_cases first : id = index
  · have second : other ≠ index := fun same => apart (first.trans same.symm)
    simp [first, second]
  · simp [first]

theorem node?_negate : (store.negate id).node? other =
    if other = id then (store.node? id).map fun node => { node with kind := node.kind.negateTest }
    else store.node? other := by
  unfold negate node?
  rw [Array.getElem?_modify]
  by_cases same : id = other
  · subst same
    simp
  · simp [same, Ne.symm same]

theorem kind?_replace_of_ne (apart : other ≠ id) : (store.replace id kind).kind? other = store.kind? other := by
  rw [Store.kind?, node?_replace, if_neg apart]
  rfl

theorem kind?_replace_self (inside : id < store.size) : (store.replace id kind).kind? id = some kind := by
  obtain ⟨node, located⟩ := node?_isSome inside
  simp [kind?, node?_replace, located]

theorem kind?_negate_self : (store.negate id).kind? id = (store.kind? id).map Kind.negateTest := by
  simp [kind?, node?_negate, Function.comp_def]

theorem kind?_negate : (store.negate id).kind? other =
    if other = id then (store.kind? id).map Kind.negateTest else store.kind? other := by
  split
  case isTrue same => rw [same, kind?_negate_self]
  case isFalse apart => simp [kind?, node?_negate, apart]

theorem negate_eq_replace (found : store.kind? id = some kind) : store.negate id = store.replace id kind.negateTest := by
  obtain ⟨node, located, rfl⟩ := kind?_eq_some.mp found
  refine congrArg Store.mk (Array.ext_getElem? fun index => ?_)
  simp only [Array.getElem?_modify]
  by_cases same : id = index
  · have located : store.nodes[index]? = some node := same ▸ located
    simp [same, located]
  · simp [same]

@[simp] theorem allocate_fst : (store.allocate origin kind).1 = store.size := by
  unfold allocate
  cases store.node? origin <;> rfl

theorem node?_allocate_of_lt (inside : other < store.size) :
    (store.allocate origin kind).2.node? other = store.node? other := by
  unfold allocate
  cases store.node? origin with
  | none => rfl
  | some node =>
    have old : other < store.nodes.size := inside
    simp [node?, Array.getElem?_push, old, Nat.ne_of_lt old]

theorem size_le_allocate : store.size ≤ (store.allocate origin kind).2.size := by
  unfold allocate
  cases store.node? origin <;> simp [size]

theorem node?_allocate_self (located : store.node? origin = some node) :
    (store.allocate origin kind).2.node? store.size = some { node with kind } := by
  unfold allocate
  rw [located]
  simp [node?, size]

theorem kind?_allocate_self (inside : origin < store.size) :
    (store.allocate origin kind).2.kind? store.size = some kind := by
  obtain ⟨node, located⟩ := node?_isSome inside
  exact kind?_of_node? (node?_allocate_self located)

theorem kind?_allocate_of_le {made : Kind} (outside : store.size ≤ other)
    (found : (store.allocate origin kind).2.kind? other = some made) : made = kind := by
  have below := lt_size_of_kind? found
  revert found below
  unfold allocate
  cases store.node? origin with
  | none =>
    intro _ below
    exact absurd below (Nat.not_lt.mpr outside)
  | some node =>
    intro found below
    have last : other = store.nodes.size := Nat.le_antisymm (by simpa [size, Nat.lt_succ_iff] using below) outside
    subst last
    simpa [kind?, node?] using found.symm

end Store

end ClassLift
