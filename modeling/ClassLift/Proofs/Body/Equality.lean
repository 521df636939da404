import ClassLift.Body.Equality
import ClassLift.Proofs.Body.Acyclic
import Mathlib.Data.List.Forall2

namespace ClassLift

/-! ## What a label keeps

A kind is given by its label, the nodes it names and its jump target, so that a label erases nothing else.
-/

theorem Place.eq_of_operands {one other : Place}
    (same : one.mapOperands (fun _ => 0) = other.mapOperands fun _ => 0) (named : one.operands = other.operands) :
    one = other := by
  cases one <;> cases other <;> simp_all [mapOperands, operands]

theorem Test.eq_of_operands {one other : Test}
    (same : one.mapOperands (fun _ => 0) = other.mapOperands fun _ => 0) (named : one.operands = other.operands) :
    one = other := by
  cases one <;> cases other <;> simp_all [mapOperands, operands]

theorem LoopForm.eq_of_operands {one other : LoopForm}
    (same : one.mapOperands (fun _ => 0) = other.mapOperands fun _ => 0) (named : one.operands = other.operands) :
    one = other := by
  cases one <;> cases other <;> simp_all [mapOperands, operands]

namespace Kind

@[simp] theorem ctorIdx_label (kind : Kind) : kind.label.ctorIdx = kind.ctorIdx := by
  cases kind <;> rfl

@[simp] theorem isComparable_label (kind : Kind) : kind.label.isComparable = kind.isComparable := by
  cases kind <;> rfl

@[simp] theorem links_label (kind : Kind) : kind.label.links = kind.links.map fun _ => 0 := by
  cases kind with
  | read place | write place => cases place <;> rfl
  | branch test => cases test <;> rfl
  | loop form => cases form <;> rfl
  | call _ _ object => cases object <;> simp [label, mapLinks, links, operands]
  | ret value | declare _ value => cases value <;> rfl
  | _ => rfl

variable {one other : Kind}

theorem length_links_of_label (same : one.label = other.label) : one.links.length = other.links.length := by
  simpa using congrArg (fun kind => kind.links.length) same

theorem eq_of_label (same : one.label = other.label) (named : one.links = other.links)
    (aim : one.target? = other.target?) : one = other := by
  have shape : one.ctorIdx = other.ctorIdx := by simpa using congrArg Kind.ctorIdx same
  -- Only pairs of the same constructor are left, the others differ in shape.
  cases one <;> cases other <;> first | (cases shape; done) | skip
  case read.read =>
    simp only [label, mapLinks, read.injEq] at same
    rw [Place.eq_of_operands same named]
  case branch.branch =>
    simp only [label, mapLinks, branch.injEq, and_true] at same
    cases aim
    rw [Test.eq_of_operands same named]
  case loop.loop =>
    simp only [label, mapLinks, loop.injEq] at same
    rw [LoopForm.eq_of_operands same.1 named, same.2]
  case write.write =>
    simp only [label, mapLinks, write.injEq, and_true] at same
    obtain ⟨places, values⟩ := List.append_inj' named rfl
    rw [Place.eq_of_operands same places, List.singleton_inj.mp values]
  case call.call _ _ object _ _ _ object' _ =>
    cases object <;> cases object' <;> simp_all [label, mapLinks, links, operands]
  case ret.ret value value' => cases value <;> cases value' <;> simp_all [label, mapLinks, links, operands]
  case declare.declare value _ value' => cases value <;> cases value' <;> simp_all [label, mapLinks, links, operands]
  all_goals simp_all [label, mapLinks, links, operands, target?]

end Kind

namespace Store

/-! ## Unfolding -/

/-- The tree that a node stands for, given by the label at each path. A path says at each node which link to follow. -/
def unfolding (store : Store) : NodeId → List Nat → Option Kind
  | root, [] => (store.kind? root).map Kind.label
  | root, step :: path => ((store.kind? root).bind (·.links[step]?)).bind (store.unfolding · path)

/-- All nodes in the unfolding are there and of kinds that comparison looks into. -/
def Comparable (store : Store) (root : NodeId) : Prop :=
  ∀ id, Relation.ReflTransGen store.Link root id → ∃ kind, store.kind? id = some kind ∧ kind.isComparable = true

variable {store left right : Store} {identify : Bool} {depth : Nat} {x y z : NodeId} {one other : Kind}

theorem unfolding_eq_iff (first : left.kind? x = some one) (second : right.kind? y = some other) :
    left.unfolding x = right.unfolding y ↔
      one.label = other.label ∧ one.links.map left.unfolding = other.links.map right.unfolding := by
  constructor
  · intro same
    have labels : one.label = other.label := by simpa [unfolding, first, second] using congrFun same []
    refine ⟨labels, List.ext_getElem (by simpa using Kind.length_links_of_label labels) fun step inside inside' => ?_⟩
    simp only [List.length_map] at inside inside'
    funext path
    simpa [unfolding, first, second, inside, inside'] using congrFun same (step :: path)
  · rintro ⟨labels, links⟩
    funext path
    cases path with
    | nil => simp [unfolding, first, second, labels]
    | cons step path =>
      have reached : (one.links[step]?).map left.unfolding = (other.links[step]?).map right.unfolding := by
        simpa using congrArg (·[step]?) links
      have := congrArg (·.bind fun tree => tree path) reached
      simpa [unfolding, first, second, Option.bind_map, Function.comp_def] using this

theorem comparable_iff : store.Comparable x ↔
    ∃ kind, store.kind? x = some kind ∧ kind.isComparable = true ∧ ∀ link ∈ kind.links, store.Comparable link := by
  constructor
  · intro comparable
    obtain ⟨kind, found, allowed⟩ := comparable x .refl
    exact ⟨kind, found, allowed, fun link member id reached => comparable id (.head ⟨kind, found, member⟩ reached)⟩
  · rintro ⟨kind, found, allowed, below⟩ id reached
    rcases Relation.ReflTransGen.cases_head reached with rfl | ⟨link, ⟨named, located, member⟩, further⟩
    · exact ⟨kind, found, allowed⟩
    · cases Option.some.inj (found.symm.trans located)
      exact below link member id further

/-! ## One step of the comparison -/

/-- The comparison broken off at a depth. -/
def equalWithin (left right : Store) (identify : Bool) : Nat → NodeId → NodeId → Bool
  | 0, _, _ => false
  | depth + 1, x, y =>
      identify && x == y ||
        match left.kind? x, right.kind? y with
        | some one, some other =>
            one.isComparable && one.label == other.label &&
              (one.links.zip other.links).all fun (x, y) => equalWithin left right identify depth x y
        | _, _ => false

theorem equalWithin_succ : left.equalWithin right identify (depth + 1) x y = true ↔
    identify = true ∧ x = y ∨ ∃ one other, left.kind? x = some one ∧ right.kind? y = some other ∧
      one.isComparable = true ∧ one.label = other.label ∧
      List.Forall₂ (fun x y => left.equalWithin right identify depth x y = true) one.links other.links := by
  rw [equalWithin]
  cases left.kind? x with
  | none => simp
  | some one =>
    cases right.kind? y with
    | none => simp
    | some other =>
      simp only [Bool.or_eq_true, Bool.and_eq_true, beq_iff_eq, List.all_eq_true, Option.some.injEq,
        List.forall₂_iff_zip, Prod.forall]
      have := @Kind.length_links_of_label one other
      grind

theorem equalWithin_refl (deep : 0 < depth) : store.equalWithin store true depth x x = true := by
  cases depth with
  | zero => cases deep
  | succ depth => exact equalWithin_succ.mpr (.inl ⟨rfl, rfl⟩)

theorem equalWithin_symm (equal : store.equalWithin store true depth x y = true) :
    store.equalWithin store true depth y x = true := by
  induction depth generalizing x y with
  | zero => cases equal
  | succ depth continues =>
    rw [equalWithin_succ] at equal ⊢
    rcases equal with ⟨_, same⟩ | ⟨one, other, first, second, allowed, labels, links⟩
    · exact .inl ⟨rfl, same.symm⟩
    · have allowed' : other.isComparable = true := by
        rw [← other.isComparable_label, ← labels, one.isComparable_label, allowed]
      exact .inr ⟨other, one, second, first, allowed', labels.symm, (links.imp fun _ _ => continues).flip⟩

theorem equalWithin_trans (first : store.equalWithin store true depth x y = true)
    (second : store.equalWithin store true depth y z = true) : store.equalWithin store true depth x z = true := by
  induction depth generalizing x y z with
  | zero => cases first
  | succ depth continues =>
    -- A shortcut on either side leaves the other side, and two comparisons meet in the kind of `y`.
    rcases equalWithin_succ.mp first with ⟨_, rfl⟩ | ⟨one, middle, foundOne, foundMiddle, allowed, labels, links⟩
    · exact second
    rcases equalWithin_succ.mp second with ⟨_, rfl⟩ | ⟨middle', other, foundMiddle', foundOther, _, labels', links'⟩
    · exact first
    cases Option.some.inj (foundMiddle.symm.trans foundMiddle')
    obtain ⟨length, each⟩ := List.forall₂_iff_get.mp links
    obtain ⟨length', each'⟩ := List.forall₂_iff_get.mp links'
    refine equalWithin_succ.mpr (.inr ⟨one, other, foundOne, foundOther, allowed, labels.trans labels', ?_⟩)
    refine List.forall₂_iff_get.mpr ⟨length.trans length', fun step inside inside' => ?_⟩
    exact continues (each step inside (length ▸ inside)) (each' step (length ▸ inside) inside')

theorem equalWithin_identify (equal : store.equalWithin store false depth x y = true) :
    store.equalWithin store true depth x y = true := by
  induction depth generalizing x y with
  | zero => cases equal
  | succ depth continues =>
    rw [equalWithin_succ] at equal ⊢
    rcases equal with ⟨impossible, _⟩ | ⟨one, other, first, second, allowed, labels, links⟩
    · cases impossible
    · exact .inr ⟨one, other, first, second, allowed, labels, links.imp fun _ _ => continues⟩

theorem equalWithin_mono {more : Nat} (deeper : depth ≤ more) (same : left.equalWithin right identify depth x y = true) :
    left.equalWithin right identify more x y = true := by
  induction depth generalizing x y more with
  | zero => cases same
  | succ depth continues =>
    obtain ⟨more, rfl⟩ := Nat.exists_eq_add_one_of_ne_zero (Nat.ne_zero_of_lt deeper)
    rw [equalWithin_succ] at same ⊢
    refine same.imp_right ?_
    rintro ⟨one, other, first, second, allowed, labels, links⟩
    exact ⟨one, other, first, second, allowed, labels, links.imp fun _ _ => continues (Nat.le_of_succ_le_succ deeper)⟩

/-! ## The recursion and its depths -/

theorem allM_eq_some_true {α : Type} {check : α → Option Bool} {list : List α} :
    list.allM check = some true ↔ ∀ element ∈ list, check element = some true := by
  induction list with
  | nil => simp [List.allM, pure]
  | cons first rest continues =>
    rw [List.forall_mem_cons, ← continues, List.allM]
    cases check first with
    | none => simp [bind]
    | some holds => cases holds <;> simp [bind, pure]

theorem allM_isSome {α : Type} {check : α → Option Bool} {list : List α} (each : ∀ element ∈ list, (check element).isSome) :
    (list.allM check).isSome := by
  induction list with
  | nil => rfl
  | cons first rest continues =>
    obtain ⟨answers, later⟩ := List.forall_mem_cons.mp each
    obtain ⟨holds, found⟩ := Option.isSome_iff_exists.mp answers
    rw [List.allM, found]
    cases holds with
    | false => rfl
    | true => exact continues later

theorem compare?_eq_some_true : left.compare? right identify x y = some true ↔
    identify = true ∧ x = y ∨ ∃ one other, left.kind? x = some one ∧ right.kind? y = some other ∧
      one.isComparable = true ∧ one.label = other.label ∧
      List.Forall₂ (fun x y => left.compare? right identify x y = some true) one.links other.links := by
  rw [compare?]
  cases left.kind? x with
  | none => simp
  | some one =>
    cases right.kind? y with
    | none => simp
    | some other =>
      have := @Kind.length_links_of_label one other
      simp only [Option.some.injEq, List.forall₂_iff_zip, Bool.and_eq_true, beq_iff_eq]
      split
      · simp_all
      · split
        · rw [allM_eq_some_true]
          simp_all [Prod.forall]
        · simp_all

theorem compare?_of_equalWithin (same : left.equalWithin right identify depth x y = true) :
    left.compare? right identify x y = some true := by
  induction depth generalizing x y with
  | zero => cases same
  | succ depth continues =>
    rw [compare?_eq_some_true]
    refine (equalWithin_succ.mp same).imp_right ?_
    rintro ⟨one, other, first, second, allowed, labels, links⟩
    exact ⟨one, other, first, second, allowed, labels, links.imp fun _ _ => continues⟩

theorem exists_equalWithin_of_compare? (same : left.compare? right identify x y = some true) :
    ∃ depth, left.equalWithin right identify depth x y = true := by
  refine compare?.partial_correctness left right identify
    (fun x y holds => holds = true → ∃ depth, left.equalWithin right identify depth x y = true) ?_ x y true same rfl
  intro recur continues x y holds ran isTrue
  subst isTrue
  split at ran
  · rename_i shared
    obtain ⟨identified, meets⟩ := Bool.and_eq_true_iff.mp shared
    exact ⟨1, equalWithin_succ.mpr (.inl ⟨identified, eq_of_beq meets⟩)⟩
  · split at ran
    · rename_i one other first second
      split at ran
      · rename_i alike
        obtain ⟨allowed, labels⟩ := Bool.and_eq_true_iff.mp alike
        have each := allM_eq_some_true.mp ran
        -- The links need finitely many depths, and the greatest of them serves all.
        have common : ∀ pairs : List (NodeId × NodeId), (∀ pair ∈ pairs, recur pair.1 pair.2 = some true) →
            ∃ depth, ∀ pair ∈ pairs, left.equalWithin right identify depth pair.1 pair.2 = true := by
          intro pairs
          induction pairs with
          | nil => exact fun _ => ⟨0, fun _ among => absurd among List.not_mem_nil⟩
          | cons pair rest further =>
            intro each
            obtain ⟨here, later⟩ := List.forall_mem_cons.mp each
            obtain ⟨depth, same⟩ := continues pair.1 pair.2 true here rfl
            obtain ⟨more, others⟩ := further later
            exact ⟨max depth more, List.forall_mem_cons.mpr ⟨equalWithin_mono (Nat.le_max_left ..) same,
              fun pair member => equalWithin_mono (Nat.le_max_right ..) (others pair member)⟩⟩
        obtain ⟨depth, links⟩ := common _ each
        refine ⟨depth + 1, equalWithin_succ.mpr (.inr ⟨one, other, first, second, allowed, eq_of_beq labels, ?_⟩)⟩
        rw [List.forall₂_iff_zip]
        exact ⟨Kind.length_links_of_label (eq_of_beq labels), fun {a b} member => links (a, b) member⟩
      · cases ran
    · cases ran

theorem equal_iff : store.equal x y = true ↔ ∃ depth, store.equalWithin store true depth x y = true := by
  rw [equal, beq_iff_eq]
  exact ⟨exists_equalWithin_of_compare?, fun ⟨_, same⟩ => compare?_of_equalWithin same⟩

theorem equalAcross_iff_within : left.equalAcross x right y = true ↔ ∃ depth, left.equalWithin right false depth x y = true := by
  rw [equalAcross, beq_iff_eq]
  exact ⟨exists_equalWithin_of_compare?, fun ⟨_, same⟩ => compare?_of_equalWithin same⟩

/-! ## Comparison and unfoldings -/

theorem unfolding_of_equalWithin (one_store : identify = true → left = right)
    (equal : left.equalWithin right identify depth x y = true) : left.unfolding x = right.unfolding y := by
  induction depth generalizing x y with
  | zero => cases equal
  | succ depth continues =>
    rcases equalWithin_succ.mp equal with ⟨shared, same⟩ | ⟨one, other, first, second, _, labels, links⟩
    · rw [one_store shared, same]
    · refine (unfolding_eq_iff first second).mpr ⟨labels, ?_⟩
      rw [← List.forall₂_eq_eq_eq, List.forall₂_map_left_iff, List.forall₂_map_right_iff]
      exact links.imp fun _ _ => continues

/-- Nothing below the node leads back to itself. -/
def Founded (store : Store) : NodeId → Prop := Acc fun child parent => store.Link parent child

theorem comparable_and_founded (equal : left.equalWithin right false depth x y = true) : left.Comparable x ∧ left.Founded x := by
  induction depth generalizing x y with
  | zero => cases equal
  | succ depth continues =>
    rcases equalWithin_succ.mp equal with ⟨impossible, _⟩ | ⟨one, other, first, _, allowed, _, links⟩
    · cases impossible
    obtain ⟨length, each⟩ := List.forall₂_iff_get.mp links
    have below (link : NodeId) (member : link ∈ one.links) : left.Comparable link ∧ left.Founded link := by
      obtain ⟨step, rfl⟩ := List.get_of_mem member
      exact continues (each step step.2 (length ▸ step.2))
    refine ⟨comparable_iff.mpr ⟨one, first, allowed, fun link member => (below link member).1⟩, .intro x ?_⟩
    rintro link ⟨kind, found, member⟩
    cases Option.some.inj (first.symm.trans found)
    exact (below link member).2

theorem equalWithin_of_unfolding {rank : NodeId → Nat} (positive : ∀ id < left.size, 0 < rank id)
    (falling : ∀ parent child, Relation.ReflTransGen left.Link x parent → left.Link parent child → rank child < rank parent)
    (deep : rank x ≤ depth) (same : left.unfolding x = right.unfolding y) (comparable : left.Comparable x) :
    left.equalWithin right identify depth x y = true := by
  -- The depth is used up along the links no faster than the rank, which is positive at every node.
  induction depth generalizing x y with
  | zero =>
    obtain ⟨one, first, _⟩ := comparable_iff.mp comparable
    exact absurd (positive x (lt_size_of_kind? first)) (Nat.not_lt.mpr deep)
  | succ depth continues =>
    obtain ⟨one, first, allowed, below⟩ := comparable_iff.mp comparable
    have root := congrFun same []
    simp only [unfolding, first, Option.map_some] at root
    obtain ⟨other, second, _⟩ := Option.map_eq_some_iff.mp root.symm
    obtain ⟨labels, links⟩ := (unfolding_eq_iff first second).mp same
    rw [← List.forall₂_eq_eq_eq, List.forall₂_map_left_iff, List.forall₂_map_right_iff] at links
    obtain ⟨length, each⟩ := List.forall₂_iff_get.mp links
    refine equalWithin_succ.mpr (.inr ⟨one, other, first, second, allowed, labels, ?_⟩)
    refine List.forall₂_iff_get.mpr ⟨length, fun step inside inside' => ?_⟩
    have member := List.get_mem one.links ⟨step, inside⟩
    have link : left.Link x (one.links.get ⟨step, inside⟩) := ⟨one, first, member⟩
    have lower := falling x _ .refl link
    exact continues (fun parent child reached => falling parent child (.head link reached))
      (Nat.le_of_lt_succ (Nat.lt_of_lt_of_le lower deep)) (each step inside inside') (below _ member)

theorem Acyclic.equalWithin_size (acyclic : left.Acyclic) (same : left.unfolding x = right.unfolding y)
    (comparable : left.Comparable x) : left.equalWithin right identify left.size x y = true := by
  obtain ⟨rank, bounded, positive, falling⟩ := left.exists_linkRank
  refine equalWithin_of_unfolding positive (fun parent child _ link => ?_) (bounded x) same comparable
  exact falling parent child link (acyclic parent)

theorem Acyclic.equalAcross_iff (acyclic : left.Acyclic) :
    left.equalAcross x right y = true ↔ left.unfolding x = right.unfolding y ∧ left.Comparable x := by
  constructor
  · intro equal
    obtain ⟨depth, equal⟩ := equalAcross_iff_within.mp equal
    exact ⟨unfolding_of_equalWithin Bool.noConfusion equal, (comparable_and_founded equal).1⟩
  · rintro ⟨same, comparable⟩
    exact equalAcross_iff_within.mpr ⟨_, acyclic.equalWithin_size same comparable⟩

theorem Founded.compare?_isSome (founded : left.Founded x) : (left.compare? right identify x y).isSome := by
  induction founded generalizing y with
  | intro x _ continues =>
    rw [compare?]
    split
    · rfl
    · split
      · rename_i one other first second
        split
        · exact allM_isSome fun pair member => continues pair.1 ⟨one, first, (List.of_mem_zip member).1⟩
        · rfl
      · rfl

theorem Founded.reached (founded : store.Founded x) (reached : Relation.ReflTransGen store.Link x y) : store.Founded y := by
  induction reached with
  | refl => exact founded
  | tail _ link continues => exact continues.inv link

theorem Founded.not_cycle (founded : store.Founded x) : ¬ Relation.TransGen store.Link x x := by
  have irreflexive (id : NodeId) (descends : Acc (Relation.TransGen fun child parent => store.Link parent child) id) :
      ¬ Relation.TransGen (fun child parent => store.Link parent child) id id := by
    induction descends with
    | intro id _ continues => exact fun back => continues id back back
  exact fun cycle => irreflexive x founded.transGen (Relation.transGen_swap.mp cycle)

theorem Founded.equalWithin_size (founded : left.Founded x) (same : left.unfolding x = right.unfolding y)
    (comparable : left.Comparable x) : left.equalWithin right identify left.size x y = true := by
  obtain ⟨rank, bounded, positive, falling⟩ := left.exists_linkRank
  refine equalWithin_of_unfolding positive (fun parent child reached link => ?_) (bounded x) same comparable
  exact falling parent child link (founded.reached reached).not_cycle

theorem equalAcross_iff : left.equalAcross x right y = true ↔
    left.unfolding x = right.unfolding y ∧ left.Comparable x ∧ left.Founded x := by
  constructor
  · intro equal
    obtain ⟨depth, equal⟩ := equalAcross_iff_within.mp equal
    exact ⟨unfolding_of_equalWithin Bool.noConfusion equal, comparable_and_founded equal⟩
  · rintro ⟨same, comparable, founded⟩
    exact equalAcross_iff_within.mpr ⟨_, founded.equalWithin_size same comparable⟩

theorem Founded.transfer (founded : left.Founded x) (same : left.unfolding x = right.unfolding y)
    (comparable : left.Comparable x) : right.Founded y ∧ right.Comparable y := by
  induction founded generalizing y with
  | intro x _ continues =>
    obtain ⟨one, first, allowed, below⟩ := comparable_iff.mp comparable
    have root := congrFun same []
    simp only [unfolding, first, Option.map_some] at root
    obtain ⟨other, second, _⟩ := Option.map_eq_some_iff.mp root.symm
    obtain ⟨labels, links⟩ := (unfolding_eq_iff first second).mp same
    have child (link : NodeId) (member : link ∈ other.links) : right.Founded link ∧ right.Comparable link := by
      rw [← List.forall₂_eq_eq_eq, List.forall₂_map_left_iff, List.forall₂_map_right_iff] at links
      obtain ⟨length, each⟩ := List.forall₂_iff_get.mp links
      obtain ⟨step, rfl⟩ := List.get_of_mem member
      have inside : step < one.links.length := length.symm ▸ step.2
      have among := List.get_mem one.links ⟨step, inside⟩
      exact continues _ ⟨one, first, among⟩ (each step inside step.2) (below _ among)
    constructor
    · refine .intro y fun link ⟨kind, found, member⟩ => ?_
      cases Option.some.inj (second.symm.trans found)
      exact (child link member).1
    · refine comparable_iff.mpr ⟨other, second, ?_, fun link member => (child link member).2⟩
      rw [← other.isComparable_label, ← labels, one.isComparable_label, allowed]

theorem equalAcross_symm (equal : left.equalAcross x right y = true) : right.equalAcross y left x = true := by
  obtain ⟨same, comparable, founded⟩ := equalAcross_iff.mp equal
  obtain ⟨founded, comparable⟩ := founded.transfer same comparable
  exact equalAcross_iff.mpr ⟨same.symm, comparable, founded⟩

theorem equalAcross_trans {middle : Store} (first : left.equalAcross x middle y = true)
    (second : middle.equalAcross y right z = true) : left.equalAcross x right z = true := by
  obtain ⟨same, comparable, founded⟩ := equalAcross_iff.mp first
  obtain ⟨further, _, _⟩ := equalAcross_iff.mp second
  exact equalAcross_iff.mpr ⟨same.trans further, comparable, founded⟩

theorem equal_equivalence (store : Store) : Equivalence fun x y : Fin store.size => store.equal x y = true where
  refl x := equal_iff.mpr ⟨1, equalWithin_refl Nat.one_pos⟩
  symm := by
    intro x y equal
    obtain ⟨depth, equal⟩ := equal_iff.mp equal
    exact equal_iff.mpr ⟨depth, equalWithin_symm equal⟩
  trans := by
    intro x y z first second
    obtain ⟨depth, first⟩ := equal_iff.mp first
    obtain ⟨more, second⟩ := equal_iff.mp second
    exact equal_iff.mpr ⟨max depth more, equalWithin_trans (equalWithin_mono (Nat.le_max_left ..) first)
      (equalWithin_mono (Nat.le_max_right ..) second)⟩

theorem Acyclic.equal_eq_equalAcross (acyclic : store.Acyclic) (comparable : store.Comparable x) :
    store.equal x y = store.equalAcross x store y := by
  rw [Bool.eq_iff_iff, acyclic.equalAcross_iff]
  constructor
  · intro equal
    obtain ⟨depth, equal⟩ := equal_iff.mp equal
    exact ⟨unfolding_of_equalWithin (fun _ => rfl) equal, comparable⟩
  · rintro ⟨same, _⟩
    exact equal_iff.mpr ⟨_, acyclic.equalWithin_size same comparable⟩

theorem comparison_follows_unfoldings (store other : Store) (acyclic : store.Acyclic) :
    (∀ x y, store.equalAcross x other y = true ↔ store.unfolding x = other.unfolding y ∧ store.Comparable x) ∧
      (Equivalence fun x y : Fin store.size => store.equal x y = true) ∧
      (∀ x y, store.equalAcross x store y = true → store.equal x y = true) ∧
      (∀ x y, store.Comparable x → store.equal x y = store.equalAcross x store y) ∧
      ∀ one another : Kind, one.label = another.label → one.links = another.links → one.target? = another.target? →
        one = another := by
  refine ⟨fun x y => acyclic.equalAcross_iff, store.equal_equivalence, fun x y across => ?_, ?_, ?_⟩
  · obtain ⟨depth, same⟩ := equalAcross_iff_within.mp across
    exact equal_iff.mpr ⟨depth, equalWithin_identify same⟩
  · intro x y comparable
    exact acyclic.equal_eq_equalAcross comparable
  · intro one another labels links targets
    exact Kind.eq_of_label labels links targets

/-- A number is held and repeated, the branch at 4 tests the sum of the two, and 5 is a jump. -/
def repeatedSum : Store where
  nodes := #[
    ⟨0, some 1, .literal (.int 7)⟩,
    ⟨1, some 1, .dupStore 0⟩,
    ⟨2, some 1, .dupLoad 1⟩,
    ⟨3, some 1, .binary .add 1 2⟩,
    ⟨4, some 2, .branch (.zero .eq 3) 9⟩,
    ⟨5, some 2, .goto 0⟩]

/-- The same branch with another target, behind a node of its own, and with the number held twice. -/
def repeatedSumApart : Store where
  nodes := #[
    ⟨10, none, .literal .null⟩,
    ⟨11, none, .literal (.int 7)⟩,
    ⟨12, none, .dupStore 1⟩,
    ⟨13, none, .dupStore 1⟩,
    ⟨14, none, .dupLoad 3⟩,
    ⟨15, none, .binary .add 2 4⟩,
    ⟨16, none, .branch (.zero .eq 5) 30⟩]

theorem repeatedSum_acyclic : repeatedSum.Acyclic := by
  refine acyclic_of_descending ?_
  rintro parent child ⟨kind, found, member⟩
  have inside : parent < 6 := lt_size_of_kind? found
  have descends : ∀ id < 6, ((repeatedSum.kind? id).all fun kind => kind.links.all (· < id)) = true := by decide
  have below := descends parent inside
  simp only [found, Option.all_some, List.all_eq_true, decide_eq_true_eq] at below
  exact below child member

theorem repeatedSum_compares : repeatedSum.Acyclic ∧
    (repeatedSum.unfolding 4 = repeatedSumApart.unfolding 6 ∧ repeatedSum.Comparable 4) ∧
    repeatedSum.equal 5 5 = true ∧ repeatedSum.equalAcross 5 repeatedSum 5 = false := by
  have compared := comparison_follows_unfoldings repeatedSum repeatedSumApart repeatedSum_acyclic
  have across : repeatedSum.equalAcross 4 repeatedSumApart 6 = true := equalAcross_iff_within.mpr ⟨6, by decide⟩
  refine ⟨repeatedSum_acyclic, (compared.1 4 6).mp across, compared.2.1.refl ⟨5, by decide⟩, ?_⟩
  rw [equalAcross, compare?]
  decide

end Store

end ClassLift
