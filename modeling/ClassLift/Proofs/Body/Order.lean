import ClassLift.Proofs.Action
import ClassLift.Proofs.Body.Reach
import Mathlib.Order.Bounds.Defs

namespace ClassLift

namespace Store

variable {store : Store} {roots order : List NodeId} {root id parent child : NodeId} {kind : Kind}

def AcyclicBelow (store : Store) (roots : List NodeId) : Prop :=
  ∀ root ∈ roots, ∀ id, store.Reaches root id → ¬ Relation.TransGen store.Child id id

theorem preorderWithin_succ {rank : NodeId → Nat} (positive : ∀ id < store.size, 0 < rank id)
    (falls : ∀ parent child, store.Reaches root parent → store.Child parent child → rank child < rank parent) {depth : Nat}
    (reached : store.Reaches root id) (deep : rank id ≤ depth) :
    store.preorderWithin (depth + 1) id = store.preorderWithin depth id := by
  induction depth generalizing id with
  | zero =>
    cases found : store.kind? id with
    | none => simp [preorderWithin, found]
    | some kind => exact absurd deep (Nat.not_le.mpr (positive id (lt_size_of_kind? found)))
  | succ depth continues =>
    rw [preorderWithin, preorderWithin]
    cases found : store.kind? id with
    | none => rfl
    | some kind =>
      refine congrArg (id :: ·) (List.flatMap_congr fun child below => continues (reached.tail found below) ?_)
      exact Nat.le_of_lt_succ (Nat.lt_of_lt_of_le (falls id child reached ⟨kind, found, below⟩) deep)

theorem AcyclicBelow.preorder_eq (acyclic : store.AcyclicBelow roots) (member : root ∈ roots) (reached : store.Reaches root id) :
    store.preorder id = (store.kind? id).elim [] fun kind =>
      id :: (kind.operands.flatMap store.preorder ++ kind.bodies.flatMap fun body => body.flatMap store.preorder) := by
  obtain ⟨rank, most, positive, falling⟩ := store.exists_childRank
  have falls (parent child : NodeId) (reached : store.Reaches root parent) (step : store.Child parent child) :
      rank child < rank parent := falling parent child step (acyclic root member parent reached)
  cases found : store.kind? id with
  | none => cases size : store.size <;> simp [preorder, size, preorderWithin, found]
  | some kind =>
    obtain ⟨depth, size⟩ := Nat.exists_eq_add_one_of_ne_zero (Nat.ne_zero_of_lt (lt_size_of_kind? found))
    have below : kind.children.flatMap (store.preorderWithin depth) = kind.children.flatMap store.preorder := by
      refine List.flatMap_congr fun child below => ?_
      have lower : rank child < depth + 1 := size ▸ (falls id child reached ⟨kind, found, below⟩).trans_le (most id)
      rw [preorder, size, preorderWithin_succ positive falls (reached.tail found below) (Nat.le_of_lt_succ lower)]
    have inBodies : kind.bodies.flatten.flatMap store.preorder = kind.bodies.flatMap fun body => body.flatMap store.preorder := by
      simp only [List.flatMap_def, List.map_flatten, List.flatten_flatten, List.map_map, Function.comp_def]
    rw [Option.elim_some, ← inBodies, ← List.flatMap_append, ← Kind.children, ← below, preorder, size, preorderWithin, found]

/-! ## Visitors -/

section Visitor

variable {β σ : Type} {visit : NodeId → Node → ExceptT β (StateM σ) PUnit} {start last : σ} {called : List NodeId}
  {outcome : Except β Unit}

/-- The visitor is called on the nodes of a list one by one, up to and including the first on which it breaks off. -/
inductive Visits (store : Store) (visit : NodeId → Node → ExceptT β (StateM σ) PUnit) :
    List NodeId → σ → List NodeId → Except β Unit → σ → Prop
  | finish (state : σ) : Visits store visit [] state [] (.ok ⟨⟩) state
  | stop {id : NodeId} {rest : List NodeId} {node : Node} {state last : σ} {value : β} (located : store.node? id = some node)
      (breaks : visit id node state = (.error value, last)) : Visits store visit (id :: rest) state [id] (.error value) last
  | next {id : NodeId} {rest called : List NodeId} {node : Node} {state middle last : σ} {outcome : Except β Unit}
      (located : store.node? id = some node) (ran : visit id node state = (.ok ⟨⟩, middle))
      (further : Visits store visit rest middle called outcome last) : Visits store visit (id :: rest) state (id :: called) outcome last

def logging (visit : NodeId → Node → ExceptT β (StateM σ) PUnit) (id : NodeId) (node : Node) :
    ExceptT β (StateM (σ × List NodeId)) PUnit :=
  fun state => ((visit id node state.1).1, (visit id node state.1).2, state.2 ++ [id])

theorem exists_visits (known : ∀ id ∈ order, id < store.size) (start : σ) :
    ∃ called outcome last, store.Visits visit order start called outcome last := by
  induction order generalizing start with
  | nil => exact ⟨[], _, _, .finish start⟩
  | cons id rest continues =>
    obtain ⟨here, known⟩ := List.forall_mem_cons.mp known
    obtain ⟨node, located⟩ := node?_isSome here
    cases ran : visit id node start with
    | mk outcome middle =>
      cases outcome with
      | error value => exact ⟨[id], _, _, .stop located ran⟩
      | ok =>
        obtain ⟨called, outcome, last, further⟩ := continues known middle
        exact ⟨id :: called, outcome, last, .next located ran further⟩

theorem Visits.forM_eq (visits : store.Visits visit order start called outcome last) :
    (order.forM fun id => (store.node? id).elim (pure ⟨⟩) (visit id)) start = (outcome, last) := by
  induction visits with
  | finish state => rfl
  | stop located breaks => simp [run_bind, located, breaks]
  | next located ran _ continues =>
    rw [List.forM_eq_forM] at continues ⊢
    simp [run_bind, located, ran, continues]

theorem Visits.logging (visits : store.Visits visit order start called outcome last) (log : List NodeId) :
    store.Visits (logging visit) order (start, log) called outcome (last, log ++ called) := by
  induction visits generalizing log with
  | finish state => exact (List.append_nil log).symm ▸ .finish (state, log)
  | stop located breaks => exact .stop located (by simp [Store.logging, breaks])
  | @next id _ _ node state middle _ _ located ran _ continues =>
    have logged : Store.logging visit id node (state, log) = (.ok ⟨⟩, middle, log ++ [id]) := by simp [Store.logging, ran]
    simpa using Visits.next located logged (continues (log ++ [id]))

end Visitor

/-! ## Counting, and the order from below -/

theorem countDupLoads_eq (source : NodeId) :
    store.countDupLoads source roots = (roots.flatMap store.preorder).countP (store.isDupLoadOf · source) := by
  have scan (order : List NodeId) (found : Nat) :
      ((order.forM fun id => (store.node? id).elim (pure ⟨⟩) fun node =>
        modify fun found => if node.kind.isDupLoadOf source then found + 1 else found : StateM Nat PUnit).run found).2 =
        found + order.countP (store.isDupLoadOf · source) := by
    induction order generalizing found with
    | nil => rfl
    | cons id rest continues =>
      simp only [List.forM_eq_forM, List.forM_cons, StateT.run_bind, List.countP_cons, isDupLoadOf, kind?] at continues ⊢
      cases located : store.node? id with
      | none => simpa [located] using continues found
      | some node =>
        refine (continues (if node.kind.isDupLoadOf source then found + 1 else found)).trans ?_
        cases isLoad : node.kind.isDupLoadOf source <;> simp [isLoad, Nat.add_comm, Nat.add_assoc]
  unfold countDupLoads
  simp only [walkList_eq_forM]
  exact (scan _ 0).trans (Nat.zero_add _)

theorem AcyclicBelow.child_before (acyclic : store.AcyclicBelow roots) (member : root ∈ roots) (reached : store.Reaches root parent)
    (found : store.kind? parent = some kind) (below : child ∈ kind.children) (inside : child < store.size) :
    [child, parent].Sublist (store.postorder roots) := by
  have apart : ¬ store.Reaches child parent := fun back => acyclic root member parent reached (.head' ⟨kind, found, below⟩ back)
  have visited := postorderWithin_sublist_postorder {child} member reached (lt_size_of_kind? found) (by simpa using inside)
    (by simpa using apart)
  obtain ⟨node, located⟩ := node?_isSome inside
  have here : child ∈ kind.children.flatMap (store.postorderWithin 1) :=
    List.mem_flatMap.mpr ⟨child, below, by simp [postorderWithin, kind?_of_node? located]⟩
  rw [Finset.card_singleton, postorderWithin, found] at visited
  exact ((List.singleton_sublist.mpr here).append (.refl [parent])).trans visited

theorem Trees.acyclicBelow (trees : store.Trees roots) : store.AcyclicBelow roots := by
  intro root member id reached cycle
  have tree := trees.of_mem member
  obtain ⟨subtree, _⟩ := tree.node (List.mem_singleton_self root) (tree.mem_preorder_iff.mpr reached)
  obtain ⟨child, ⟨kind, found, below⟩, back⟩ := Relation.TransGen.head'_iff.mp cycle
  obtain ⟨_, children, outside⟩ := subtree.children found
  exact outside (Trees.mem_flatMap_of below ((children.of_mem below).mem_preorder_iff.mpr back))

theorem traversals_agree (store : Store) (roots : List NodeId) (acyclic : store.AcyclicBelow roots) :
    (∀ root ∈ roots, ∀ id, store.Reaches root id → store.preorder id = (store.kind? id).elim [] fun kind =>
        id :: (kind.operands.flatMap store.preorder ++ kind.bodies.flatMap fun body => body.flatMap store.preorder)) ∧
      (∀ (β σ : Type) (visit : NodeId → Node → ExceptT β (StateM σ) PUnit) (start : σ), ∃ called outcome last,
        store.Visits visit (roots.flatMap store.preorder) start called outcome last ∧
          store.walkList visit roots start = (outcome, last) ∧
          store.walkList (logging visit) roots (start, []) = (outcome, last, called)) ∧
      (∀ predicate root, store.find? predicate root = (store.preorder root).find? fun id => (store.node? id).any predicate) ∧
      (∀ root < store.size,
        IsLeast {offset | ∃ id ∈ store.preorder root, store.offset? id = some offset} (store.startOffset root)) ∧
      (∀ source, store.countDupLoads source roots = (roots.flatMap store.preorder).countP (store.isDupLoadOf · source)) ∧
      (store.postorder roots).Perm (roots.flatMap store.preorder) ∧
      ((roots.flatMap store.preorder).Nodup → (store.postorder roots).Nodup ∧
        ∀ parent ∈ roots.flatMap store.preorder, ∀ kind, store.kind? parent = some kind →
          ∀ child ∈ kind.children, child < store.size → [child, parent].Sublist (store.postorder roots)) := by
  refine ⟨fun root member id reached => acyclic.preorder_eq member reached, ?_, fun _ _ => find?_eq, ?_, countDupLoads_eq,
    postorder_perm, ?_⟩
  · intro β σ visit start
    have known (id : NodeId) (among : id ∈ roots.flatMap store.preorder) : id < store.size := by
      obtain ⟨root, _, below⟩ := List.mem_flatMap.mp among
      exact (mem_preorder_iff_reaches.mp below).2
    obtain ⟨called, outcome, last, visits⟩ := exists_visits known start
    refine ⟨called, outcome, last, visits, ?_, ?_⟩
    · rw [walkList_eq_forM, visits.forM_eq]
    · rw [walkList_eq_forM, (visits.logging []).forM_eq, List.nil_append]
  · intro root inside
    obtain ⟨attained, least⟩ := startOffset_spec inside
    refine ⟨attained, ?_⟩
    rintro offset ⟨id, among, found⟩
    exact least id among offset found
  · intro distinct
    refine ⟨postorder_perm.nodup_iff.mpr distinct, fun parent among kind found child below inside => ?_⟩
    obtain ⟨root, member, here⟩ := List.mem_flatMap.mp among
    exact acyclic.child_before member (reaches_of_mem_preorder here) found below inside

/-- `if (x == 0) { y = v + v }`, where the literal `v` is held by its first use. -/
def guarded : Store :=
  ⟨#[⟨6, none, .read (.slot .int 0)⟩, ⟨7, none, .branch (.zero .eq 0) 12⟩, ⟨8, none, .literal (.int 2)⟩,
    ⟨9, none, .dupStore 2⟩, ⟨9, none, .dupLoad 3⟩, ⟨10, none, .binary .add 3 4⟩, ⟨11, none, .write (.slot .int 1) 5⟩,
    ⟨7, none, .ifElse 1 [6] []⟩]⟩

theorem guarded_traversals :
    guarded.AcyclicBelow [7] ∧ guarded.preorder 7 = [7, 1, 0, 6, 5, 3, 2, 4] ∧ guarded.countDupLoads 3 [7] = 1 ∧
      [6, 7].Sublist (guarded.postorder [7]) := by
  have trees : guarded.Trees [7] := Lists.trees (.cons rfl (.cons rfl (.cons rfl .nil .nil) (.cons rfl (.cons rfl (.cons rfl
    (.cons rfl .nil .nil) (.cons rfl .nil .nil)) .nil) .nil)) .nil) (by decide)
  obtain ⟨_, _, _, _, counted, _, behind⟩ := traversals_agree guarded [7] trees.acyclicBelow
  refine ⟨trees.acyclicBelow, by decide, (counted 3).trans (by decide), ?_⟩
  exact (behind trees.distinct).2 7 (by decide) _ rfl 6 (by decide) (by decide)

end Store

end ClassLift
