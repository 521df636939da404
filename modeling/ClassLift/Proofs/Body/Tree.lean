import ClassLift.Body.Walk
import ClassLift.Proofs.Body.Store
import Mathlib.Data.List.Perm.Subperm
import Mathlib.Data.List.Nodup
import Mathlib.Logic.Relation

/-!
# Trees in a store

`Lists` is the pre-order of a list of trees as a relation. It holds of finite trees only, so it can be reasoned about without
the bound on the depth that the traversals carry. `Trees` adds that no node is met twice: every node then has one way from the
roots to it, and the bounded traversals show all of it.
-/

namespace ClassLift

namespace Store

inductive Lists (store : Store) : List NodeId → List NodeId → Prop
  | nil : Lists store [] []
  | cons {root : NodeId} {rest below after : List NodeId} {kind : Kind} (found : store.kind? root = some kind)
      (inner : Lists store kind.children below) (others : Lists store rest after) :
      Lists store (root :: rest) (root :: (below ++ after))

namespace Lists

variable {store other : Store} {roots more order : List NodeId} {root id : NodeId} {kind : Kind}

theorem append {first second : List NodeId} (left : store.Lists roots first) (right : store.Lists more second) :
    store.Lists (roots ++ more) (first ++ second) := by
  induction left with
  | nil => exact right
  | cons found inner _ _ continues =>
    rw [List.cons_append, List.cons_append, List.append_assoc]
    exact .cons found inner continues

theorem append_inv (listed : store.Lists (roots ++ more) order) :
    ∃ first second, store.Lists roots first ∧ store.Lists more second ∧ order = first ++ second := by
  induction roots generalizing order with
  | nil => exact ⟨[], order, .nil, listed, rfl⟩
  | cons root rest continues =>
    cases listed with
    | cons found inner others =>
      obtain ⟨first, second, left, right, rfl⟩ := continues others
      exact ⟨_, second, .cons found inner left, right, by simp⟩

theorem singleton_iff : store.Lists [root] order ↔
    ∃ kind below, store.kind? root = some kind ∧ store.Lists kind.children below ∧ order = root :: below := by
  constructor
  · intro listed
    cases listed with
    | cons found inner others =>
      cases others
      exact ⟨_, _, found, inner, by simp⟩
  · rintro ⟨kind, below, found, inner, rfl⟩
    simpa using Lists.cons found inner .nil

theorem kind? (listed : store.Lists roots order) (inside : id ∈ order) : ∃ kind, store.kind? id = some kind := by
  induction listed with
  | nil => cases inside
  | cons found _ _ inner others =>
    simp only [List.mem_cons, List.mem_append] at inside
    rcases inside with rfl | inside | inside
    · exact ⟨_, found⟩
    · exact inner inside
    · exact others inside

theorem congr (listed : store.Lists roots order) (same : ∀ id ∈ order, other.kind? id = store.kind? id) :
    other.Lists roots order := by
  induction listed with
  | nil => exact .nil
  | cons found _ _ inner others =>
    refine .cons ((same _ (by simp)).trans found) (inner fun id inside => same id ?_)
      (others fun id inside => same id ?_)
    · simp [inside]
    · simp [inside]

theorem flatMap_preorderWithin (listed : store.Lists roots order) {depth : Nat} (deep : order.length ≤ depth) :
    roots.flatMap (store.preorderWithin depth) = order := by
  induction listed generalizing depth with
  | nil => rfl
  | cons found _ _ inner others =>
    simp only [List.length_cons, List.length_append] at deep
    obtain ⟨depth, rfl⟩ : ∃ shallower, depth = shallower + 1 := ⟨depth - 1, by omega⟩
    rw [List.flatMap_cons, others (by omega)]
    simp only [preorderWithin, found, inner (show _ ≤ depth by omega), List.cons_append]

theorem length_le_size (listed : store.Lists roots order) (distinct : order.Nodup) : order.length ≤ store.size := by
  have inside : order ⊆ List.range store.size := fun id inside =>
    List.mem_range.mpr (lt_size_of_kind? (listed.kind? inside).choose_spec)
  simpa using (List.subperm_of_subset distinct inside).length_le

theorem flatMap_preorder (listed : store.Lists roots order) (distinct : order.Nodup) :
    roots.flatMap store.preorder = order :=
  listed.flatMap_preorderWithin (listed.length_le_size distinct)

/-- The tree below a node, and what is left of the whole when it is taken out: whatever takes its place is listed in its
place. -/
theorem split (listed : store.Lists roots order) (inside : id ∈ order) :
    ∃ kind below left right, store.kind? id = some kind ∧ store.Lists kind.children below ∧
      order = left ++ id :: (below ++ right) ∧
      ∀ (other : Store) (changed : Kind) (grown : List NodeId),
        (∀ kept ∈ left ++ right, other.kind? kept = store.kind? kept) → other.kind? id = some changed →
          other.Lists changed.children grown → other.Lists roots (left ++ id :: (grown ++ right)) := by
  induction listed with
  | nil => cases inside
  | @cons root rest under after kind found inner others below behind =>
    by_cases here : id = root
    · subst here
      refine ⟨kind, under, [], after, found, inner, rfl, fun other changed grown same foundOther listed => ?_⟩
      exact .cons foundOther listed (others.congr same)
    · simp only [List.mem_cons, here, List.mem_append, false_or] at inside
      rcases inside with inside | inside
      · obtain ⟨nodeKind, nodeBelow, left, right, foundNode, listedNode, rfl, replace⟩ := below inside
        refine ⟨nodeKind, nodeBelow, root :: left, right ++ after, foundNode, listedNode, by simp, ?_⟩
        intro other changed grown same foundOther listed
        have inner := replace other changed grown (fun kept among => same kept (by simp at among ⊢; tauto)) foundOther listed
        have others : other.Lists rest after := others.congr fun kept among => same kept (by simp [among])
        have whole := Lists.cons ((same root (by simp)).trans found) inner others
        simpa using whole
      · obtain ⟨nodeKind, nodeBelow, left, right, foundNode, listedNode, rfl, replace⟩ := behind inside
        refine ⟨nodeKind, nodeBelow, root :: (under ++ left), right, foundNode, listedNode, by simp, ?_⟩
        intro other changed grown same foundOther listed
        have others := replace other changed grown (fun kept among => same kept (by simp at among ⊢; tauto)) foundOther listed
        have inner : other.Lists kind.children under := inner.congr fun kept among => same kept (by simp [among])
        have whole := Lists.cons ((same root (by simp)).trans found) inner others
        simpa using whole

end Lists

structure Trees (store : Store) (roots : List NodeId) : Prop where
  listed : store.Lists roots (roots.flatMap store.preorder)
  distinct : (roots.flatMap store.preorder).Nodup

theorem Lists.trees {store : Store} {roots order : List NodeId} (listed : store.Lists roots order) (distinct : order.Nodup) :
    store.Trees roots := by
  have same := listed.flatMap_preorder distinct
  exact ⟨same.symm ▸ listed, same.symm ▸ distinct⟩

namespace Trees

variable {store : Store} {roots fewer more : List NodeId} {root one other id : NodeId} {kind : Kind}

theorem nil : store.Trees [] := ⟨.nil, .nil⟩

theorem append_inv (trees : store.Trees (roots ++ more)) :
    store.Trees roots ∧ store.Trees more ∧ ∀ id ∈ roots.flatMap store.preorder, id ∉ more.flatMap store.preorder := by
  obtain ⟨first, second, left, right, same⟩ := trees.listed.append_inv
  have distinct := trees.distinct
  rw [same, List.nodup_append'] at distinct
  obtain ⟨distinctLeft, distinctRight, disjoint⟩ := distinct
  refine ⟨left.trees distinctLeft, right.trees distinctRight, fun id inLeft inRight => ?_⟩
  rw [left.flatMap_preorder distinctLeft] at inLeft
  rw [right.flatMap_preorder distinctRight] at inRight
  exact disjoint inLeft inRight

theorem append (left : store.Trees roots) (right : store.Trees more)
    (apart : ∀ id ∈ roots.flatMap store.preorder, id ∉ more.flatMap store.preorder) : store.Trees (roots ++ more) := by
  refine (left.listed.append right.listed).trees ?_
  rw [List.nodup_append']
  exact ⟨left.distinct, right.distinct, fun id inLeft inRight => apart id inLeft inRight⟩

theorem cons_inv (trees : store.Trees (root :: roots)) :
    store.Trees [root] ∧ store.Trees roots ∧ ∀ id ∈ store.preorder root, id ∉ roots.flatMap store.preorder := by
  have trees : store.Trees ([root] ++ roots) := trees
  simpa using trees.append_inv

theorem cons (first : store.Trees [root]) (rest : store.Trees roots)
    (apart : ∀ id ∈ store.preorder root, id ∉ roots.flatMap store.preorder) : store.Trees (root :: roots) := by
  have trees : store.Trees ([root] ++ roots) := first.append rest (by simpa using apart)
  exact trees

theorem sublist (trees : store.Trees roots) (sub : fewer.Sublist roots) : store.Trees fewer := by
  induction sub with
  | slnil => exact .nil
  | cons root _ continues => exact continues trees.cons_inv.2.1
  | cons_cons root sub continues =>
    obtain ⟨first, rest, apart⟩ := trees.cons_inv
    refine .cons first (continues rest) fun id inside among => ?_
    obtain ⟨statement, member, below⟩ := List.mem_flatMap.mp among
    exact apart id inside (List.mem_flatMap.mpr ⟨statement, sub.subset member, below⟩)

theorem of_mem (trees : store.Trees roots) (member : root ∈ roots) : store.Trees [root] :=
  trees.sublist (List.singleton_sublist.mpr member)

theorem mem_flatMap_of (member : root ∈ roots) (inside : id ∈ store.preorder root) : id ∈ roots.flatMap store.preorder :=
  List.mem_flatMap.mpr ⟨root, member, inside⟩

theorem lt_size (trees : store.Trees roots) (member : root ∈ roots) (inside : id ∈ store.preorder root) :
    id < store.size :=
  lt_size_of_kind? (trees.listed.kind? (mem_flatMap_of member inside)).choose_spec

theorem children (tree : store.Trees [root]) (found : store.kind? root = some kind) :
    store.preorder root = root :: kind.children.flatMap store.preorder ∧ store.Trees kind.children ∧
      root ∉ kind.children.flatMap store.preorder := by
  obtain ⟨own, below, foundOwn, listed, order⟩ := Lists.singleton_iff.mp tree.listed
  obtain rfl : own = kind := Option.some_inj.mp (foundOwn.symm.trans found)
  have distinct := tree.distinct
  rw [order, List.nodup_cons] at distinct
  rw [List.flatMap_singleton] at order
  rw [order, listed.flatMap_preorder distinct.2]
  exact ⟨rfl, listed.trees distinct.2, distinct.1⟩

theorem mem_preorder_self (tree : store.Trees [root]) : root ∈ store.preorder root := by
  obtain ⟨kind, below, found, _, _⟩ := Lists.singleton_iff.mp tree.listed
  rw [(tree.children found).1]
  exact List.mem_cons_self

theorem node (trees : store.Trees roots) (member : root ∈ roots) (inside : id ∈ store.preorder root) :
    store.Trees [id] ∧ ∃ left right, store.preorder root = left ++ (store.preorder id ++ right) := by
  have whole := trees.of_mem member
  have listed : store.Lists [root] (store.preorder root) := by simpa using whole.listed
  have distinct : (store.preorder root).Nodup := by simpa using whole.distinct
  obtain ⟨kind, below, left, right, found, listed, order, _⟩ := listed.split inside
  rw [order] at distinct
  have own : (id :: below).Nodup := distinct.sublist
    (((List.sublist_append_left below right).cons_cons id).trans (List.sublist_append_right left _))
  have tree : store.Trees [id] := Lists.trees (Lists.singleton_iff.mpr ⟨kind, below, found, listed, rfl⟩) own
  refine ⟨tree, left, right, ?_⟩
  rw [order, (tree.children found).1, listed.flatMap_preorder (List.nodup_cons.mp own).2, List.cons_append]

theorem preorder_subset (tree : store.Trees [root]) (inside : id ∈ store.preorder root) :
    store.preorder id ⊆ store.preorder root := by
  obtain ⟨_, left, right, order⟩ := tree.node (List.mem_singleton_self root) inside
  rw [order]
  exact fun other among => List.mem_append_right left (List.mem_append_left right among)

theorem preorder_nodup (tree : store.Trees [root]) : (store.preorder root).Nodup := by
  simpa using tree.distinct

theorem mem_preorder_of_child (tree : store.Trees [root]) (found : store.kind? root = some kind)
    (child : one ∈ kind.children) (inside : id ∈ store.preorder one) : id ∈ store.preorder root ∧ id ≠ root := by
  obtain ⟨order, _, outside⟩ := tree.children found
  have below := mem_flatMap_of child inside
  rw [order]
  exact ⟨List.mem_cons_of_mem root below, fun same => outside (same ▸ below)⟩

theorem not_mem_preorder (tree : store.Trees [root]) (inside : id ∈ store.preorder root) (apart : id ≠ root) :
    root ∉ store.preorder id := by
  intro back
  obtain ⟨kind, _, found, _⟩ := Lists.singleton_iff.mp tree.listed
  obtain ⟨order, trees, outside⟩ := tree.children found
  rw [order] at inside
  obtain ⟨child, below, inChild⟩ := List.mem_flatMap.mp ((List.mem_cons.mp inside).resolve_left apart)
  exact outside (mem_flatMap_of below ((trees.of_mem below).preorder_subset inChild back))

theorem disjoint (trees : store.Trees roots) (first : one ∈ roots) (second : other ∈ roots) (apart : one ≠ other)
    (inside : id ∈ store.preorder one) : id ∉ store.preorder other := by
  obtain ⟨before, after, rfl⟩ := List.append_of_mem first
  obtain ⟨_, later, early⟩ := trees.append_inv
  obtain ⟨_, _, late⟩ := later.cons_inv
  intro elsewhere
  rcases List.mem_append.mp second with member | member
  · exact early id (mem_flatMap_of member elsewhere) (by simp [inside])
  · have member := (List.mem_cons.mp member).resolve_left (Ne.symm apart)
    exact late id inside (mem_flatMap_of member elsewhere)

theorem root_unique (trees : store.Trees roots) (first : one ∈ roots) (second : other ∈ roots)
    (below : id ∈ store.preorder one) (alsoBelow : id ∈ store.preorder other) : one = other := by
  by_contra apart
  exact trees.disjoint first second apart below alsoBelow

theorem nodup (trees : store.Trees roots) : roots.Nodup := by
  induction roots with
  | nil => exact .nil
  | cons root rest continues =>
    obtain ⟨first, others, apart⟩ := trees.cons_inv
    refine List.nodup_cons.mpr ⟨fun member => ?_, continues others⟩
    exact apart root first.mem_preorder_self (mem_flatMap_of member (others.of_mem member).mem_preorder_self)

theorem of_forall (listed : ∀ root ∈ roots, store.Trees [root]) (distinct : roots.Nodup)
    (apart : ∀ one ∈ roots, ∀ other ∈ roots, one ≠ other → ∀ id ∈ store.preorder one, id ∉ store.preorder other) :
    store.Trees roots := by
  induction roots with
  | nil => exact .nil
  | cons root rest continues =>
    obtain ⟨fresh, distinct⟩ := List.nodup_cons.mp distinct
    refine .cons (listed root List.mem_cons_self) (continues (fun one member => listed one (.tail _ member)) distinct ?_) ?_
    · exact fun one first other second => apart one (.tail _ first) other (.tail _ second)
    · intro id inside among
      obtain ⟨other, member, elsewhere⟩ := List.mem_flatMap.mp among
      exact apart root List.mem_cons_self other (.tail _ member) (fun same => fresh (same ▸ member)) id inside elsewhere

end Trees

/-! ## Nodes that can be reached -/

def Child (store : Store) (parent child : NodeId) : Prop := ∃ kind, store.kind? parent = some kind ∧ child ∈ kind.children

/-- One node stands anywhere below another or is the same. Nothing is said about how many ways there are. -/
def Reaches (store : Store) : NodeId → NodeId → Prop := Relation.ReflTransGen store.Child

section Reaches

variable {store : Store} {root id child : NodeId} {kind : Kind}

theorem Reaches.refl (id : NodeId) : store.Reaches id id := Relation.ReflTransGen.refl

theorem Reaches.trans {middle : NodeId} (first : store.Reaches root middle) (second : store.Reaches middle id) :
    store.Reaches root id :=
  Relation.ReflTransGen.trans first second

theorem Reaches.tail (reached : store.Reaches root id) (found : store.kind? id = some kind)
    (member : child ∈ kind.children) : store.Reaches root child :=
  Relation.ReflTransGen.tail reached ⟨kind, found, member⟩

theorem reaches_of_mem_preorderWithin {depth : Nat} (inside : id ∈ store.preorderWithin depth root) :
    store.Reaches root id ∧ id < store.size := by
  induction depth generalizing root with
  | zero => cases inside
  | succ depth continues =>
    unfold preorderWithin at inside
    cases found : store.kind? root with
    | none => simp [found] at inside
    | some kind =>
      simp only [found, List.mem_cons, List.mem_flatMap] at inside
      rcases inside with rfl | ⟨child, member, below⟩
      · exact ⟨.refl id, lt_size_of_kind? found⟩
      · exact ⟨(Reaches.tail (.refl root) found member).trans (continues below).1, (continues below).2⟩

theorem reaches_of_mem_preorder (inside : id ∈ store.preorder root) : store.Reaches root id :=
  (reaches_of_mem_preorderWithin inside).1

theorem Trees.mem_preorder_iff (tree : store.Trees [root]) : id ∈ store.preorder root ↔ store.Reaches root id := by
  constructor
  · exact reaches_of_mem_preorder
  · intro reached
    induction reached with
    | refl => exact tree.mem_preorder_self
    | tail _ step inside =>
      obtain ⟨kind, found, member⟩ := step
      obtain ⟨subtree, _⟩ := tree.node (List.mem_singleton_self root) inside
      have childTree := (subtree.children found).2.1.of_mem member
      have below := (subtree.mem_preorder_of_child found member childTree.mem_preorder_self).1
      exact tree.preorder_subset inside below

end Reaches

/-! ## Ways from a root to a node -/

/-- The way from one node down to another, as the number of the child that is taken at every level. -/
inductive Path (store : Store) : NodeId → List Nat → NodeId → Prop
  | here (id : NodeId) : Path store id [] id
  | down {root child id : NodeId} {kind : Kind} {index : Nat} {rest : List Nat} (found : store.kind? root = some kind)
      (chosen : kind.children[index]? = some child) (onward : Path store child rest id) :
      Path store root (index :: rest) id

namespace Path

variable {store : Store} {roots : List NodeId} {root id : NodeId} {path other : List Nat}

theorem mem_preorder (way : store.Path root path id) (tree : store.Trees [root]) : id ∈ store.preorder root := by
  induction way with
  | here root => exact tree.mem_preorder_self
  | down found chosen _ continues =>
    have child := List.mem_of_getElem? chosen
    have subtree := (tree.children found).2.1.of_mem child
    exact (tree.mem_preorder_of_child found child (continues subtree)).1

theorem unique (way : store.Path root path id) (tree : store.Trees [root]) (another : store.Path root other id) :
    path = other := by
  induction way generalizing other with
  | here root =>
    cases another with
    | here => rfl
    | down found chosen onward =>
      have child := List.mem_of_getElem? chosen
      have subtree := (tree.children found).2.1.of_mem child
      exact absurd rfl (tree.mem_preorder_of_child found child (onward.mem_preorder subtree)).2
  | @down root child id kind index rest found chosen onward continues =>
    have member := List.mem_of_getElem? chosen
    have trees := (tree.children found).2.1
    have inside := onward.mem_preorder (trees.of_mem member)
    cases another with
    | here => exact absurd rfl (tree.mem_preorder_of_child found member inside).2
    | @down _ otherChild _ otherKind otherIndex _ otherFound otherChosen otherOnward =>
      obtain rfl : kind = otherKind := Option.some_inj.mp (found.symm.trans otherFound)
      have otherMember := List.mem_of_getElem? otherChosen
      have otherInside := otherOnward.mem_preorder (trees.of_mem otherMember)
      obtain rfl := trees.root_unique member otherMember inside otherInside
      obtain ⟨bound, _⟩ := List.getElem?_eq_some_iff.mp chosen
      obtain rfl := (List.getElem?_inj bound trees.nodup).mp (chosen.trans otherChosen.symm)
      rw [continues (trees.of_mem member) otherOnward]

end Path

theorem Lists.exists_path {store : Store} {roots order : List NodeId} {id : NodeId} (listed : store.Lists roots order)
    (inside : id ∈ order) : ∃ (index : Nat) (root : NodeId) (path : List Nat), roots[index]? = some root ∧ store.Path root path id := by
  induction listed with
  | nil => cases inside
  | @cons root rest below after kind found inner others ofChild ofRest =>
    simp only [List.mem_cons, List.mem_append] at inside
    rcases inside with rfl | inside | inside
    · exact ⟨0, id, [], rfl, .here id⟩
    · obtain ⟨index, child, path, chosen, way⟩ := ofChild inside
      exact ⟨0, root, index :: path, rfl, .down found chosen way⟩
    · obtain ⟨index, other, path, chosen, way⟩ := ofRest inside
      exact ⟨index + 1, other, path, chosen, way⟩

theorem Trees.existsUnique_path {store : Store} {roots : List NodeId} {id : NodeId} (trees : store.Trees roots)
    (inside : id ∈ roots.flatMap store.preorder) :
    ∃! way : Nat × List Nat, ∃ root, roots[way.1]? = some root ∧ store.Path root way.2 id := by
  obtain ⟨index, root, path, chosen, way⟩ := trees.listed.exists_path inside
  refine ⟨(index, path), ⟨root, chosen, way⟩, ?_⟩
  rintro ⟨otherIndex, otherPath⟩ ⟨otherRoot, otherChosen, otherWay⟩
  have member := List.mem_of_getElem? chosen
  have otherMember := List.mem_of_getElem? otherChosen
  obtain rfl := trees.root_unique member otherMember (way.mem_preorder (trees.of_mem member))
    (otherWay.mem_preorder (trees.of_mem otherMember))
  obtain ⟨bound, _⟩ := List.getElem?_eq_some_iff.mp chosen
  obtain rfl := (List.getElem?_inj bound trees.nodup).mp (chosen.trans otherChosen.symm)
  rw [way.unique (trees.of_mem member) otherWay]

/-! ## What the traversals find -/

section Traversal

variable {m : Type → Type} [Monad m] [LawfulMonad m] {store : Store} {root id : NodeId}

theorem forM_flatMap {α β : Type} {list : α → List β} {each : β → m PUnit} {visit : α → m PUnit}
    (lists : ∀ root, visit root = (list root).forM each) (roots : List α) :
    roots.forM visit = (roots.flatMap list).forM each := by
  induction roots with
  | nil => rfl
  | cons root rest continues =>
    simp only [List.forM_eq_forM] at lists continues ⊢
    rw [List.forM_cons, lists, continues, List.flatMap_cons, List.forM_append]

theorem walkWithin_eq_forM (visit : NodeId → Node → m PUnit) (depth : Nat) (root : NodeId) :
    store.walkWithin visit depth root =
      (store.preorderWithin depth root).forM fun id => (store.node? id).elim (pure ⟨⟩) (visit id) := by
  induction depth generalizing root with
  | zero => rfl
  | succ depth continues =>
    cases found : store.node? root with
    | none => simp [walkWithin, preorderWithin, kind?, found]
    | some node =>
      rw [walkWithin, found, preorderWithin, kind?_of_node? found]
      dsimp only
      rw [forM_flatMap continues, List.forM_eq_forM, List.forM_cons, found, Option.elim_some]

theorem walkList_eq_forM (visit : NodeId → Node → m PUnit) (roots : List NodeId) :
    store.walkList visit roots =
      (roots.flatMap store.preorder).forM fun id => (store.node? id).elim (pure ⟨⟩) (visit id) :=
  forM_flatMap (store.walkWithin_eq_forM visit store.size) roots

theorem find?_eq {predicate : Node → Bool} :
    store.find? predicate root = (store.preorder root).find? fun id => (store.node? id).any predicate := by
  have scan (order : List NodeId) :
      (order.forM fun id => (store.node? id).elim (pure ⟨⟩) fun node => if predicate node then .error id else .ok ⟨⟩ :
        Except NodeId PUnit) =
        (order.find? fun id => (store.node? id).any predicate).elim (.ok ⟨⟩) .error := by
    induction order with
    | nil => rfl
    | cons first rest continues =>
      simp only [List.forM_eq_forM, List.forM_cons, List.find?_cons] at continues ⊢
      cases located : store.node? first with
      | none => simpa using continues
      | some node =>
        cases holds : predicate node with
        | true => simp [holds, bind, Except.bind]
        | false => simpa [holds, bind, Except.bind] using continues
  unfold find? walk
  rw [walkWithin_eq_forM, scan, ← preorder]
  cases (store.preorder root).find? fun id => (store.node? id).any predicate <;> rfl

theorem find?_eq_some {predicate : Node → Bool} (found : store.find? predicate root = some id) :
    id ∈ store.preorder root ∧ ∃ node, store.node? id = some node ∧ predicate node = true := by
  rw [find?_eq] at found
  have holds := List.find?_some found
  simp only [Option.any_eq_true] at holds
  exact ⟨List.mem_of_find?_eq_some found, holds⟩

end Traversal

def offset? (store : Store) (id : NodeId) : Option Offset := (store.node? id).map Node.offset

section StartOffset

variable {store : Store} {root id : NodeId} {offset : Offset}

theorem run_forM_least (order : List NodeId) (found : Option Offset) :
    ((order.forM fun id => (store.node? id).elim (pure ⟨⟩) fun node =>
        modify fun found => some (found.elim node.offset (min node.offset)) : StateM (Option Offset) PUnit).run found).2 =
      (found.toList ++ order.filterMap store.offset?).min? := by
  induction order generalizing found with
  | nil => cases found <;> rfl
  | cons first rest continues =>
    simp only [List.forM_eq_forM, List.forM_cons, StateT.run_bind] at continues ⊢
    cases located : store.node? first with
    | none => simpa [located, offset?] using continues found
    | some node =>
      simp only [Option.elim_some, List.filterMap_cons, offset?, located, Option.map_some]
      refine (continues (some (found.elim node.offset (min node.offset)))).trans ?_
      cases found with
      | none => rfl
      | some least =>
        have swap : min node.offset least = min least node.offset := Std.Commutative.comm _ _
        change some (List.foldl min (min node.offset least) _) = some (List.foldl min (min least node.offset) _)
        rw [swap]
        rfl

theorem startOffset_eq : store.startOffset root = ((store.preorder root).filterMap store.offset?).min?.getD 0 := by
  unfold startOffset walk
  simp only [walkWithin_eq_forM]
  exact congrArg (·.getD 0) (run_forM_least (store.preorder root) none)

theorem mem_preorder_of_lt_size (inside : root < store.size) : root ∈ store.preorder root := by
  obtain ⟨node, located⟩ := node?_isSome inside
  obtain ⟨depth, size⟩ := Nat.exists_eq_add_one_of_ne_zero (Nat.ne_zero_of_lt inside)
  rw [preorder, size, preorderWithin, kind?_of_node? located]
  exact List.mem_cons_self

/-- A statement starts at an offset of one of its nodes, and none of them is smaller. -/
theorem startOffset_spec (inside : root < store.size) :
    (∃ id ∈ store.preorder root, store.offset? id = some (store.startOffset root)) ∧
      ∀ id ∈ store.preorder root, ∀ offset, store.offset? id = some offset → store.startOffset root ≤ offset := by
  have self := mem_preorder_of_lt_size inside
  obtain ⟨node, located⟩ := node?_isSome inside
  have some_offset : node.offset ∈ (store.preorder root).filterMap store.offset? :=
    List.mem_filterMap.mpr ⟨root, self, by simp [offset?, located]⟩
  cases least : ((store.preorder root).filterMap store.offset?).min? with
  | none => simp [List.min?_eq_none_iff.mp least] at some_offset
  | some least =>
    obtain ⟨member, bound⟩ := List.min?_eq_some_iff.mp least
    rw [startOffset_eq, least, Option.getD_some]
    refine ⟨List.mem_filterMap.mp member, fun id inside offset found => ?_⟩
    exact bound offset (List.mem_filterMap.mpr ⟨id, inside, found⟩)

end StartOffset

end Store

end ClassLift
