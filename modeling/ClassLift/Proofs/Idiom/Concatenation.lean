import ClassLift.Proofs.Idiom.LeftOut
import ClassLift.Proofs.Idiom.Reduction
import ClassLift.Proofs.Idiom.Visit
import ClassLift.Proofs.Pool.History

/-!
# Sums of strings

A chain of calls on a fresh string builder is replaced by a sum of its operands. Chains are described on the body as it is
before, sums on the body as it is afterwards, so that an operand may itself be a chain. The operand that a builder starts with
is read afterwards too: where the replaced argument is a call of `String.valueOf`, the operand is what is passed to that call.
-/

namespace ClassLift

namespace Concatenation

/-! ## Chains -/

structure OfBuilder (pool : Pool) (method : PoolIndex) (name : String) (called : Member) : Prop where
  resolved : pool.member method = .ok called
  owner : isBuilder called.owner = true
  named : called.name = name

def isText (types : List String) : Bool := types == ["Ljava/lang/String;"]

inductive Builds (pool : Pool) (store : Store) : NodeId → Option NodeId → List Operand → Prop
  | empty {id : NodeId} {method : PoolIndex} {called : Member} (found : store.kind? id = some (.construct method []))
      (builder : OfBuilder pool method "<init>" called) (descriptor : called.descriptor = "()V") : Builds pool store id none []
  | copy {id argument : NodeId} {method : PoolIndex} {called : Member} (found : store.kind? id = some (.construct method [argument]))
      (builder : OfBuilder pool method "<init>" called) (descriptor : called.descriptor = "(Ljava/lang/String;)V") :
      Builds pool store id (some argument) []
  | append {id inner argument : NodeId} {method : PoolIndex} {called : Member} {types : List String} {start : Option NodeId}
      {operands : List Operand} (before : Builds pool store inner start operands)
      (found : store.kind? id = some (.call .virtual method (some inner) [argument]))
      (builder : OfBuilder pool method "append" called) (split : Descriptor.parameters called.descriptor = .ok types) :
      Builds pool store id start (operands ++ [⟨argument, isText types⟩])

inductive Concatenates (pool : Pool) (store : Store) (id : NodeId) (start : Option NodeId) (operands : List Operand) : Prop
  | intro {builder : NodeId} {method : PoolIndex} {called : Member}
      (found : store.kind? id = some (.call .virtual method (some builder) [])) (text : OfBuilder pool method "toString" called)
      (builds : Builds pool store builder start operands)

inductive Starts (pool : Pool) (store : Store) : Option NodeId → List Operand → Prop
  | empty : Starts pool store none []
  | value {argument value : NodeId} {method : PoolIndex} {called : Member} {types : List String}
      (found : store.kind? argument = some (.call .static method none [value])) (resolved : pool.member method = .ok called)
      (owner : called.owner = "java/lang/String") (named : called.name = "valueOf")
      (split : Descriptor.parameters called.descriptor = .ok types) : Starts pool store (some argument) [⟨value, isText types⟩]
  | itself {argument : NodeId}
      (other : ∀ method value called, store.kind? argument = some (.call .static method none [value]) →
        pool.member method = .ok called → ¬ (called.owner = "java/lang/String" ∧ called.name = "valueOf")) :
      Starts pool store (some argument) [⟨argument, true⟩]

/-! ## Sums -/

/-- A sum of the leaves from left to right. The first addition has a leaf that is known to be a string, every further one adds to a
sum; all but the last stand at new nodes. A single leaf stands for itself. -/
inductive SumOf (store : Store) (base : Nat) (known : NodeId → Prop) : Kind → List NodeId → Prop
  | single {leaf : NodeId} {kind : Kind} (found : store.kind? leaf = some kind) (text : known leaf) :
      SumOf store base known kind [leaf]
  | pair {first second : NodeId} (text : known first ∨ known second) :
      SumOf store base known (.binary .add first second) [first, second]
  | more {lhs next : NodeId} {kind : Kind} {leaves : List NodeId} (sum : SumOf store base known kind leaves)
      (several : 2 ≤ leaves.length) (fresh : base ≤ lhs) (found : store.kind? lhs = some kind) :
      SumOf store base known (.binary .add lhs next) (leaves ++ [next])

/-- The leaf goes through a parameter of type `String`, or it is the empty string. -/
def IsText (pool : Pool) (store : Store) (operands : List Operand) (leaf : NodeId) : Prop :=
  (∃ operand ∈ operands, operand.node = leaf ∧ operand.isString = true) ∨
    ∃ index, store.kind? leaf = some (.constant index) ∧ pool.string index = .ok (some "")

/-- The node is the sum of the operands, behind an empty string if neither of the first two operands is known to be a string. -/
inductive Shows (pool : Pool) (store : Store) (base : Nat) (id : NodeId) (operands : List Operand) : Prop
  | plain {kind : Kind} (text : ∃ operand ∈ operands.take 2, operand.isString = true) (found : store.kind? id = some kind)
      (sum : SumOf store base (IsText pool store operands) kind (operands.map Operand.node))
  | behindEmpty {kind : Kind} {empty : NodeId} {index : PoolIndex} (noText : ∀ operand ∈ operands.take 2, operand.isString = false)
      (fresh : base ≤ empty) (foundEmpty : store.kind? empty = some (.constant index)) (read : pool.string index = .ok (some ""))
      (found : store.kind? id = some kind)
      (sum : SumOf store base (IsText pool store operands) kind (empty :: operands.map Operand.node))

variable {pool grown : Pool} {store other changed : Store} {home : ClassId} {table last : ClassTable} {id : NodeId} {kind : Kind}
  {operands : List Operand} {start : Option NodeId} {base : Nat} {known : NodeId → Prop}

theorem OfBuilder.extend {method : PoolIndex} {name : String} {called : Member} (growth : pool.Extends grown)
    (builder : OfBuilder pool method name called) : OfBuilder grown method name called :=
  ⟨growth.member builder.resolved, builder.owner, builder.named⟩

theorem needsEmptyString_eq_false : needsEmptyString operands = false ↔ ∃ operand ∈ operands.take 2, operand.isString = true := by
  match operands with
  | [] => simp [needsEmptyString]
  | [first] => simp [needsEmptyString]
  | first :: second :: rest => simp [needsEmptyString, ← Bool.not_eq_false, imp_iff_not_or]

section Sums

theorem SumOf.transfer {kind : Kind} {leaves : List NodeId} (sum : SumOf store base known kind leaves)
    {wider : NodeId → Prop} (texts : ∀ leaf ∈ leaves, known leaf → wider leaf)
    (same : ∀ id kind, id ∈ leaves ∨ base ≤ id → store.kind? id = some kind → other.kind? id = some kind) :
    SumOf other base wider kind leaves := by
  induction sum with
  | single found text => exact .single (same _ _ (.inl List.mem_cons_self) found) (texts _ List.mem_cons_self text)
  | pair text => exact .pair (text.imp (texts _ List.mem_cons_self) (texts _ (by simp)))
  | more _ several fresh found continues =>
    refine .more (continues (fun leaf among => texts leaf (List.mem_append_left _ among)) ?_) several fresh
      (same _ _ (.inr fresh) found)
    exact fun id kind held => same id kind (held.imp_left (List.mem_append_left _))

theorem SumOf.replace {leaves : List NodeId} (sum : SumOf store base known kind leaves) {wider : NodeId → Prop}
    (texts : ∀ leaf ∈ leaves, known leaf → wider leaf) (inside : id < base) (apart : ∀ leaf ∈ leaves, leaf ≠ id) (new : Kind) :
    SumOf (store.replace id new) base wider kind leaves := by
  refine sum.transfer texts fun other kind held found => ?_
  have elsewhere : other ≠ id := held.elim (apart other) fun fresh => Nat.ne_of_gt (Nat.lt_of_lt_of_le inside fresh)
  rwa [Store.kind?_replace_of_ne elsewhere]

/-- What a sum is added to: a first leaf, or a sum of several that stands at a new node. -/
def Summand (store : Store) (base : Nat) (known : NodeId → Prop) (first next : NodeId) (leaves : List NodeId) : Prop :=
  leaves = [first] ∧ (known first ∨ known next) ∨
    ∃ kind, SumOf store base known kind leaves ∧ 2 ≤ leaves.length ∧ base ≤ first ∧ store.kind? first = some kind

theorem Summand.sumOf {first next : NodeId} {leaves : List NodeId} (summand : Summand store base known first next leaves) :
    SumOf store base known (.binary .add first next) (leaves ++ [next]) ∧ 2 ≤ (leaves ++ [next]).length := by
  rcases summand with ⟨rfl, text⟩ | ⟨kind, sum, several, fresh, found⟩
  · exact ⟨.pair text, Nat.le_refl 2⟩
  · rw [List.length_append]
    exact ⟨.more sum several fresh found, Nat.le_add_right_of_le several⟩

theorem sum_sumOf {origin first next : NodeId} {rest leaves : List NodeId} {grown : Store} (inside : origin < store.size)
    (bounded : base ≤ store.size) (summand : Summand store base known first next leaves)
    (summed : sum store origin first (next :: rest) = some (kind, grown)) :
    SumOf grown base known kind (leaves ++ next :: rest) := by
  induction rest generalizing store first next leaves with
  | nil =>
    cases summed
    exact summand.sumOf.1
  | cons second rest continues =>
    rw [sum_cons_cons] at summed
    obtain ⟨sum, several⟩ := summand.sumOf
    have larger : store.size ≤ (store.allocate origin (.binary .add first next)).2.size := Store.size_le_allocate
    have kept : SumOf (store.allocate origin (.binary .add first next)).2 base known (.binary .add first next)
        (leaves ++ [next]) := by
      refine sum.transfer (fun _ _ => id) fun id kind _ found => ?_
      rw [Store.kind?, Store.node?_allocate_of_lt (Store.lt_size_of_kind? found)]
      exact found
    have added := continues (Nat.lt_of_lt_of_le inside larger) (Nat.le_trans bounded larger)
      (.inr ⟨_, kept, several, bounded, Store.kind?_allocate_self inside⟩) summed
    rwa [List.append_assoc, List.singleton_append] at added

theorem sum_shows {origin first : NodeId} {rest : List NodeId} {grown : Store} (inside : origin < store.size)
    (bounded : base ≤ store.size) (text : ∃ leaf ∈ (first :: rest).take 2, known leaf)
    (summed : sum store origin first rest = some (kind, grown)) : SumOf grown base known kind (first :: rest) := by
  cases rest with
  | nil =>
    obtain ⟨_, found, same⟩ := Option.map_eq_some_iff.mp summed
    cases same
    obtain ⟨leaf, among, holds⟩ := text
    cases List.mem_singleton.mp among
    exact .single found holds
  | cons next rest =>
    have summand : Summand store base known first next [first] := by
      obtain ⟨leaf, among, holds⟩ := text
      simp only [List.take_succ_cons, List.take_zero, List.mem_cons, List.not_mem_nil, or_false] at among
      rcases among with rfl | rfl
      · exact .inl ⟨rfl, .inl holds⟩
      · exact .inl ⟨rfl, .inr holds⟩
    exact sum_sumOf inside bounded summand summed

end Sums

/-! ## Reading a chain -/

section Reading

/-- The node is no call of `toString` on a builder, and it is known not to be. -/
def Steady (pool : Pool) (kind : Kind) : Prop :=
  ∀ method object arguments, kind = .call .virtual method object arguments →
    ∃ called, pool.member method = .ok called ∧ ¬ (isBuilder called.owner = true ∧ called.name = "toString")

theorem Steady.extend (growth : pool.Extends grown) (steady : Steady pool kind) : Steady grown kind := by
  intro method object arguments same
  obtain ⟨called, resolved, apart⟩ := steady method object arguments same
  exact ⟨called, growth.member resolved, apart⟩

def started (pool : Pool) (store : Store) : Option NodeId → Except Failure (List Operand)
  | none => .ok []
  | some argument => (initial pool store argument).map ([·])

variable {method : PoolIndex} {called : Member} {argument : NodeId}

theorem constructed?_empty (builder : OfBuilder pool method "<init>" called) (descriptor : called.descriptor = "()V") :
    constructed? pool store method [] = .ok (some []) := by
  unfold constructed?
  rw [builder.resolved]
  change (if (!isBuilder called.owner || called.name != "<init>") = true then _ else _) = _
  rw [if_neg (by simp [builder.owner, builder.named]), if_pos (by simp [descriptor])]
  rfl

theorem constructed?_copy (builder : OfBuilder pool method "<init>" called)
    (descriptor : called.descriptor = "(Ljava/lang/String;)V") :
    constructed? pool store method [argument] = (initial pool store argument).map fun operand => some [operand] := by
  unfold constructed?
  rw [builder.resolved]
  change (if (!isBuilder called.owner || called.name != "<init>") = true then _ else _) = _
  rw [if_neg (by simp [builder.owner, builder.named]), if_neg (by simp), if_neg (by simp [descriptor])]
  rfl

theorem appended?_append {inner : NodeId} {types : List String} {bound : Nat}
    (found : store.kind? id = some (.call .virtual method (some inner) [argument])) (builder : OfBuilder pool method "append" called)
    (split : Descriptor.parameters called.descriptor = .ok types) :
    appended? pool store (bound + 1) id =
      (appended? pool store bound inner).map (Option.map (· ++ [⟨argument, isText types⟩])) := by
  rw [appended?]
  simp only [found]
  rw [builder.resolved]
  change (if (!isBuilder called.owner || called.name != "append") = true then _ else _) = _
  rw [if_neg (by simp [builder.owner, builder.named])]
  unfold takesString
  rw [split]
  rfl

theorem appended?_of_builds {id : NodeId} (builds : Builds pool store id start operands) (growth : pool.Extends grown)
    (same : ∀ id kind, store.kind? id = some kind → Steady pool kind → other.kind? id = some kind) {bound : Nat}
    (deep : operands.length < bound) :
    appended? grown other bound id = (started grown other start).map fun initial => some (initial ++ operands) := by
  obtain ⟨bound, rfl⟩ := Nat.exists_eq_add_one_of_ne_zero (Nat.ne_zero_of_lt deep)
  induction builds generalizing bound with
  | empty found builder descriptor =>
    have kept := same _ _ found (by rintro _ _ _ ⟨⟩)
    simp only [appended?, kept, constructed?_empty (builder.extend growth) descriptor]
    rfl
  | copy found builder descriptor =>
    have kept := same _ _ found (by rintro _ _ _ ⟨⟩)
    simp only [appended?, kept, constructed?_copy (builder.extend growth) descriptor, started]
    cases initial grown other _ <;> rfl
  | @append id inner argument method called types start operands before found builder split continues =>
    have steady : Steady pool (.call .virtual method (some inner) [argument]) := by
      rintro _ _ _ ⟨⟩
      exact ⟨called, builder.resolved, fun both => absurd (builder.named.symm.trans both.2) (by decide)⟩
    rw [List.length_append, List.length_singleton] at deep
    obtain ⟨bound, rfl⟩ := Nat.exists_eq_add_one_of_ne_zero (Nat.ne_zero_of_lt (Nat.lt_of_succ_lt_succ deep))
    rw [appended?_append (same _ _ found steady) (builder.extend growth) split, continues bound (Nat.lt_of_succ_lt_succ deep)]
    cases started grown other start with
    | error failure => rfl
    | ok initial => simp [Except.map, List.append_assoc]

theorem Builds.length_lt {id : NodeId} (builds : Builds pool store id start operands) (tree : store.Trees [id]) :
    operands.length < (store.preorder id).length := by
  induction builds with
  | empty found | copy found =>
    rw [(tree.children found).1]
    exact Nat.succ_pos _
  | append _ found _ _ continues =>
    obtain ⟨order, below, _⟩ := tree.children found
    have inner := continues (below.of_mem List.mem_cons_self)
    rw [order, List.length_append]
    simp only [Kind.children, Kind.operands, Option.toList, List.length_cons, List.length_nil, List.cons_append, List.flatMap_cons,
      List.length_append]
    omega

theorem starts_of_initial {operand : Operand} (read : initial pool store argument = .ok operand) (growth : pool.Extends grown)
    (same : other.kind? argument = store.kind? argument) : Starts grown other (some argument) [operand] := by
  unfold initial at read
  split at read
  case h_1 method value found =>
    obtain ⟨called, resolved, read⟩ := except_bind_ok.mp read
    have resolved := mapError_ok.mp resolved
    split at read
    · rename_i conversion
      obtain ⟨isString, taken, made⟩ := except_bind_ok.mp read
      cases made
      obtain ⟨types, split, made⟩ := except_bind_ok.mp (mapError_ok.mp taken)
      cases made
      simp only [Bool.and_eq_true, beq_iff_eq] at conversion
      exact .value (same.trans found) (growth.member resolved) conversion.1 conversion.2 split
    · rename_i conversion
      cases read
      refine .itself fun method value called foundToo resolvedToo both => conversion ?_
      cases (same.trans found).symm.trans foundToo
      cases (growth.member resolved).symm.trans resolvedToo
      simp [both.1, both.2]
  case h_2 unrelated =>
    cases read
    exact .itself fun method value called found => absurd (same.symm.trans found) (unrelated method value)

theorem starts_of_started {initial : List Operand} (ran : started pool store start = .ok initial) (growth : pool.Extends grown)
    (same : ∀ argument, start = some argument → other.kind? argument = store.kind? argument) : Starts grown other start initial := by
  cases start with
  | none =>
    cases ran
    exact .empty
  | some argument =>
    cases read : Concatenation.initial pool store argument with
    | error failure =>
      simp only [started, read] at ran
      cases ran
    | ok operand =>
      simp only [started, read] at ran
      cases ran
      exact starts_of_initial read growth (same argument rfl)

end Reading

/-! ## Where calls come from -/

section Sources

def callee? : Kind → Option PoolIndex
  | .call _ method _ _ | .construct method _ => some method
  | _ => none

def Unreadable (pool : Pool) (kind : Kind) : Prop :=
  ∃ method, callee? kind = some method ∧
    ∀ called types, pool.member method = .ok called → Descriptor.parameters called.descriptor ≠ .ok types

theorem Unreadable.of_extends (growth : pool.Extends grown) (unreadable : Unreadable grown kind) : Unreadable pool kind := by
  obtain ⟨method, calls, unknown⟩ := unreadable
  exact ⟨method, calls, fun called types resolved => unknown called types (growth.member resolved)⟩

/-- Every call is a call of the body as it was, at or below the same node. -/
def Sourced (origin store : Store) : Prop :=
  ∀ id kind method, store.kind? id = some kind → callee? kind = some method →
    ∃ source, origin.Reaches id source ∧ origin.kind? source = some kind

def Below (origin : Store) (top child : NodeId) : Prop :=
  ∃ parent kind, origin.Reaches top parent ∧ origin.kind? parent = some kind ∧ child ∈ kind.children

def Faulty (origin : Store) (pool : Pool) (top : NodeId) : Prop :=
  ∃ id kind, origin.Reaches top id ∧ origin.kind? id = some kind ∧ Unreadable pool kind

variable {origin : Store} {top : NodeId}

theorem Below.reaches {child : NodeId} (below : Below origin top child) : origin.Reaches top child := by
  obtain ⟨parent, kind, reached, found, among⟩ := below
  exact reached.tail found among

theorem Below.apart {child : NodeId} (tree : origin.Trees [top]) (below : Below origin top child) :
    child < origin.size ∧ child ≠ top := by
  obtain ⟨parent, kind, reached, found, among⟩ := below
  obtain ⟨inside, apart⟩ := tree.child_inside (tree.mem_preorder_iff.mpr reached) found among
  exact ⟨tree.lt_size (List.mem_singleton_self top) inside, apart⟩

theorem Builds.start_below {argument : NodeId} (builds : Builds pool store id (some argument) operands)
    (reached : store.Reaches top id) : Below store top argument := by
  generalize made : some argument = start at builds
  induction builds with
  | empty => cases made
  | copy found =>
    cases made
    exact ⟨_, _, reached, found, List.mem_cons_self⟩
  | append _ found _ _ continues => exact continues (reached.tail found List.mem_cons_self) made

namespace Sourced

variable (sourced : Sourced origin store) (reached : origin.Reaches top id) (found : store.kind? id = some kind)
include sourced reached found

theorem below {method : PoolIndex} (calls : callee? kind = some method) {child : NodeId} (among : child ∈ kind.children) :
    Below origin top child := by
  obtain ⟨source, onward, same⟩ := sourced id kind method found calls
  exact ⟨source, kind, reached.trans onward, same, among⟩

theorem faulty {method : PoolIndex} (calls : callee? kind = some method)
    (unknown : ∀ called types, pool.member method = .ok called → Descriptor.parameters called.descriptor ≠ .ok types) :
    Faulty origin pool top := by
  obtain ⟨source, onward, same⟩ := sourced id kind method found calls
  exact ⟨source, kind, reached.trans onward, same, method, calls, unknown⟩

end Sourced

/-- Operands stand below the top, and reading them fails at a call that cannot be read. -/
def Traced (origin : Store) (pool : Pool) (top : NodeId) : Except Failure (Option (List Operand)) → Prop
  | .ok looked => ∀ operands, looked = some operands → ∀ operand ∈ operands, Below origin top operand.node
  | .error _ => Faulty origin pool top

theorem traced_none : Traced origin pool top (.ok none) := by rintro _ ⟨⟩

theorem initial_traced (sourced : Sourced origin store) {argument : NodeId} (below : Below origin top argument) :
    Traced origin pool top ((initial pool store argument).map fun operand => some [operand]) := by
  have itself (operand : Operand) (same : Below origin top operand.node) : Traced origin pool top (.ok (some [operand])) := by
    rintro _ ⟨⟩ _ among
    cases List.mem_singleton.mp among
    exact same
  unfold initial
  split
  case h_1 method value found =>
    cases resolved : pool.member method with
    | error error =>
      exact sourced.faulty below.reaches found rfl fun called types known => by cases resolved.symm.trans known
    | ok called =>
      change Traced origin pool top
        (Except.map _ (if (called.owner == "java/lang/String" && called.name == "valueOf") = true then _ else _))
      split
      · unfold takesString
        cases split : Descriptor.parameters called.descriptor with
        | error error =>
          refine sourced.faulty below.reaches found rfl fun read types known parameters => ?_
          cases resolved.symm.trans known
          cases split.symm.trans parameters
        | ok types => exact itself _ (sourced.below below.reaches found rfl List.mem_cons_self)
      · exact itself _ below
  case h_2 => exact itself _ below

theorem constructed?_traced (sourced : Sourced origin store) (reached : origin.Reaches top id) {method : PoolIndex}
    {arguments : List NodeId} (found : store.kind? id = some (.construct method arguments)) :
    Traced origin pool top (constructed? pool store method arguments) := by
  unfold constructed?
  cases resolved : pool.member method with
  | error error => exact sourced.faulty reached found rfl fun called types known => by cases resolved.symm.trans known
  | ok called =>
    change Traced origin pool top (if (!isBuilder called.owner || called.name != "<init>") = true then _ else _)
    split
    · exact traced_none
    · split
      · rintro _ ⟨⟩ _ ⟨⟩
      · split
        · exact traced_none
        · split
          · exact initial_traced sourced (sourced.below reached found rfl List.mem_cons_self)
          · exact traced_none

theorem Traced.append {looked : Except Failure (Option (List Operand))} (before : Traced origin pool top looked) {operand : Operand}
    (last : Below origin top operand.node) : Traced origin pool top (looked.map (Option.map (· ++ [operand]))) := by
  cases looked with
  | error failure => exact before
  | ok earlier =>
    intro operands same other among
    obtain ⟨early, rfl, rfl⟩ := Option.map_eq_some_iff.mp same
    rcases List.mem_append.mp among with among | among
    · exact before early rfl other among
    · cases List.mem_singleton.mp among
      exact last

theorem appended?_traced (sourced : Sourced origin store) {bound : Nat} {builder : NodeId} (reached : origin.Reaches top builder) :
    Traced origin pool top (appended? pool store bound builder) := by
  induction bound generalizing builder with
  | zero => exact traced_none
  | succ bound continues =>
    unfold appended?
    split
    case h_1 method inner arguments found =>
      cases resolved : pool.member method with
      | error error => exact sourced.faulty reached found rfl fun called types known => by cases resolved.symm.trans known
      | ok called =>
        rcases arguments with _ | ⟨argument, _ | ⟨second, rest⟩⟩
        · exact traced_none
        · change Traced origin pool top (if (!isBuilder called.owner || called.name != "append") = true then _ else _)
          split
          · exact traced_none
          · unfold takesString
            cases split : Descriptor.parameters called.descriptor with
            | error error =>
              refine sourced.faulty reached found rfl fun read types known parameters => ?_
              cases resolved.symm.trans known
              cases split.symm.trans parameters
            | ok types =>
              have before := continues (sourced.below reached found rfl List.mem_cons_self).reaches
              have last := sourced.below reached found rfl (.tail _ List.mem_cons_self)
              exact before.append last
        · exact traced_none
    case h_2 method arguments found => exact constructed?_traced sourced reached found
    case h_3 => exact traced_none

theorem operands?_traced (sourced : Sourced origin store) (found : store.kind? id = some kind) :
    Traced origin pool id (operands? pool store kind) := by
  unfold operands?
  split
  case h_1 method builder arguments =>
    cases resolved : pool.member method with
    | error error => exact sourced.faulty (.refl id) found rfl fun called types known => by cases resolved.symm.trans known
    | ok called =>
      change Traced origin pool id
        (if (!arguments.isEmpty || !isBuilder called.owner || called.name != "toString") = true then _ else _)
      split
      · exact traced_none
      · exact appended?_traced sourced (sourced.below (.refl id) found rfl List.mem_cons_self).reaches
  case h_2 => exact traced_none

end Sources

/-! ## One visit -/

section Visits

variable {origin : Store}

inductive Folded (home : ClassId) (table : ClassTable) (store : Store) (id : NodeId) (operands : List Operand) :
    Store → ClassTable → Prop
  | plain {first : NodeId} {rest : List NodeId} {kind : Kind} {grown : Store} (text : needsEmptyString operands = false)
      (nodes : operands.map Operand.node = first :: rest) (summed : sum store id first rest = some (kind, grown)) :
      Folded home table store id operands (grown.replace id kind) table
  | behindEmpty {empty : PoolIndex} {kind : Kind} {grown : Store} {last : ClassTable} (noText : needsEmptyString operands = true)
      (interned : OnTable.interning home (Pool.internString "") table = (.ok empty, last))
      (summed : sum (store.allocate id (.constant empty)).2 id store.size (operands.map Operand.node) = some (kind, grown)) :
      Folded home table store id operands (grown.replace id kind) last

/-- A visit leaves the node as it is or folds a chain. It leaves a chain only where an operand is missing. -/
theorem foldNode_run (found : store.kind? id = some kind) (ran : foldNode home store id table = (.ok changed, last)) :
    ∃ looked, operands? (table.poolOf home) store kind = .ok looked ∧
      (changed = store ∧ last = table ∧ (∀ operands, looked = some operands → ∃ operand ∈ operands, store.size ≤ operand.node) ∨
        ∃ operands, looked = some operands ∧ Folded home table store id operands changed last) := by
  unfold foldNode at ran
  simp only [found, OnTable.pool_bind_ok, OnTable.failure_bind_ok] at ran
  obtain ⟨looked, read, ran⟩ := ran
  refine ⟨looked, read, ?_⟩
  cases looked with
  | none =>
    obtain ⟨rfl, rfl⟩ := OnTable.return_ok ran
    exact .inl ⟨rfl, rfl, by rintro _ ⟨⟩⟩
  | some operands =>
    have inside := Store.lt_size_of_kind? found
    simp only [Store.allocate_fst, pure_bind] at ran
    split at ran
    · rename_i noText
      obtain ⟨empty, middle, interned, ran⟩ := bind_ok.mp ran
      have insideMore : id < (store.allocate id (.constant empty)).2.size := Nat.lt_of_lt_of_le inside Store.size_le_allocate
      obtain ⟨kind, grown, summed⟩ := exists_sum insideMore (Store.size_lt_allocate inside) (operands.map Operand.node)
      simp only [summed] at ran
      obtain ⟨rfl, rfl⟩ := OnTable.return_ok ran
      exact .inr ⟨operands, rfl, .behindEmpty noText interned summed⟩
    · rename_i text
      have text := Bool.eq_false_iff.mpr text
      cases operands with
      | nil => cases text
      | cons operand others =>
        simp only [List.map_cons] at ran
        cases summed : sum store id operand.node (others.map Operand.node) with
        | none =>
          simp only [summed] at ran
          obtain ⟨rfl, rfl⟩ := OnTable.return_ok ran
          refine .inl ⟨rfl, rfl, ?_⟩
          rintro _ ⟨⟩
          refine ⟨operand, List.mem_cons_self, Nat.not_lt.mp fun located => ?_⟩
          obtain ⟨_, _, made⟩ := exists_sum inside located (others.map Operand.node)
          cases summed.symm.trans made
        | some pair =>
          obtain ⟨kind, grown⟩ := pair
          simp only [summed] at ran
          obtain ⟨rfl, rfl⟩ := OnTable.return_ok ran
          exact .inr ⟨_, rfl, .plain text rfl summed⟩

theorem foldNode_spares (ran : foldNode home store id table = (.ok changed, last)) : Store.Spares [id] store changed := by
  rcases foldNode_ok ran with rfl | ⟨old, nodes, kind, grown, _, rfl, _, _, ⟨empty, summed⟩ | ⟨first, rest, _, summed⟩⟩
  · exact .refl [id] _
  · obtain ⟨grows, same⟩ := sum_grows summed
    refine .replace (Nat.le_trans Store.size_le_allocate grows) (fun other old => ?_) id kind
    rw [same other (Nat.lt_of_lt_of_le old Store.size_le_allocate), Store.node?_allocate_of_lt old]
  · obtain ⟨grows, same⟩ := sum_grows summed
    exact .replace grows same id kind

theorem foldNode_steady (found : store.kind? id = some kind) (steady : Steady (table.poolOf home) kind)
    (ran : foldNode home store id table = (.ok changed, last)) : changed = store := by
  obtain ⟨looked, read, ⟨same, _⟩ | ⟨operands, rfl, _⟩⟩ := foldNode_run found ran
  · exact same
  · unfold operands? at read
    split at read
    case h_1 method builder arguments =>
      obtain ⟨called, resolved, apart⟩ := steady _ _ _ rfl
      rw [resolved] at read
      change (if (!arguments.isEmpty || !isBuilder called.owner || called.name != "toString") = true then _ else _) = _ at read
      split at read
      · cases read
      · rename_i accepted
        simp only [Bool.or_eq_true, Bool.not_eq_true', not_or, Bool.not_eq_false, bne_iff_ne, ne_eq, not_not] at accepted
        exact absurd ⟨accepted.1.2, accepted.2⟩ apart
    case h_2 => cases read

theorem sum_kinds {first : NodeId} {rest : List NodeId} {grown : Store} (summed : sum store id first rest = some (kind, grown)) :
    (rest = [] ∧ store.kind? first = some kind ∨ ∃ lhs rhs, kind = .binary .add lhs rhs) ∧
      ∀ other made, store.size ≤ other → grown.kind? other = some made → ∃ lhs rhs, made = .binary .add lhs rhs := by
  induction rest generalizing store first with
  | nil =>
    obtain ⟨_, found, same⟩ := Option.map_eq_some_iff.mp summed
    cases same
    exact ⟨.inl ⟨rfl, found⟩, fun other made new located => absurd (Store.lt_size_of_kind? located) (Nat.not_lt.mpr new)⟩
  | cons next rest continues =>
    cases rest with
    | nil =>
      cases summed
      exact ⟨.inr ⟨_, _, rfl⟩, fun other made new located => absurd (Store.lt_size_of_kind? located) (Nat.not_lt.mpr new)⟩
    | cons second rest =>
      rw [sum_cons_cons] at summed
      obtain ⟨made, fresh⟩ := continues summed
      refine ⟨.inr (made.resolve_left (by rintro ⟨⟨⟩, _⟩)), fun other kind new located => ?_⟩
      by_cases newer : (store.allocate id (.binary .add first next)).2.size ≤ other
      · exact fresh other kind newer located
      · rw [Store.kind?, (sum_grows summed).2 other (Nat.not_le.mp newer)] at located
        exact ⟨_, _, Store.kind?_allocate_of_le new located⟩

theorem Sourced.replace {grown : Store} (sourced : Sourced origin store)
    (same : ∀ other < store.size, grown.node? other = store.node? other)
    (fresh : ∀ other made, store.size ≤ other → grown.kind? other = some made → callee? made = none)
    (new : ∀ method, callee? kind = some method → ∃ source, origin.Reaches id source ∧ origin.kind? source = some kind) :
    Sourced origin (grown.replace id kind) := by
  intro other made method found calls
  by_cases here : other = id
  · subst here
    rw [Store.kind?, Store.node?_replace, if_pos rfl, Option.map_map] at found
    obtain ⟨_, _, rfl⟩ := Option.map_eq_some_iff.mp found
    exact new method calls
  · rw [Store.kind?_replace_of_ne here] at found
    by_cases old : other < store.size
    · rw [Store.kind?, same other old] at found
      exact sourced other made method found calls
    · cases (fresh other made (Nat.not_lt.mp old) found).symm.trans calls

theorem Folded.sourced (sourced : Sourced origin store) (below : ∀ operand ∈ operands, Below origin id operand.node)
    (folded : Folded home table store id operands changed last) : Sourced origin changed := by
  cases folded with
  | @plain first rest kind grown text nodes summed =>
    obtain ⟨made, fresh⟩ := sum_kinds summed
    refine sourced.replace (sum_grows summed).2 (fun other made new found => ?_) fun method calls => ?_
    · obtain ⟨_, _, rfl⟩ := fresh other made new found
      rfl
    · obtain ⟨_, found⟩ | ⟨_, _, rfl⟩ := made
      · have among : first ∈ operands.map Operand.node := nodes ▸ List.mem_cons_self
        obtain ⟨operand, member, rfl⟩ := List.mem_map.mp among
        obtain ⟨source, onward, same⟩ := sourced _ kind method found calls
        exact ⟨source, (below operand member).reaches.trans onward, same⟩
      · cases calls
  | @behindEmpty empty kind grown last noText interned summed =>
    obtain ⟨made, fresh⟩ := sum_kinds summed
    have larger : store.size ≤ (store.allocate id (.constant empty)).2.size := Store.size_le_allocate
    refine sourced.replace (fun other old => ?_) (fun other made new found => ?_) fun method calls => ?_
    · rw [(sum_grows summed).2 other (Nat.lt_of_lt_of_le old larger), Store.node?_allocate_of_lt old]
    · by_cases newer : (store.allocate id (.constant empty)).2.size ≤ other
      · obtain ⟨_, _, rfl⟩ := fresh other made newer found
        rfl
      · rw [Store.kind?, (sum_grows summed).2 other (Nat.not_le.mp newer)] at found
        rw [Store.kind?_allocate_of_le new found]
        rfl
    · obtain ⟨_, found⟩ | ⟨_, _, rfl⟩ := made
      · rw [Store.kind?_allocate_of_le (Nat.le_refl _) found] at calls
        cases calls
      · cases calls

theorem foldNode_sourced (sourced : Sourced origin store) (ran : foldNode home store id table = (.ok changed, last)) :
    Sourced origin changed := by
  cases found : store.kind? id with
  | none =>
    rcases foldNode_ok ran with rfl | ⟨_, _, _, _, located, _⟩
    · exact sourced
    · cases found.symm.trans located
  | some kind =>
    obtain ⟨looked, read, ⟨rfl, _⟩ | ⟨operands, rfl, folded⟩⟩ := foldNode_run found ran
    · exact sourced
    · have traced : Traced origin (table.poolOf home) id _ := operands?_traced sourced found
      rw [read] at traced
      exact folded.sourced sourced (traced operands rfl)

theorem foldNode_error {failure : Failure} (ran : foldNode home store id table = (.error failure, last)) :
    failure = .method (.pool .overflow) ∨
      ∃ kind, store.kind? id = some kind ∧ operands? (table.poolOf home) store kind = .error failure := by
  unfold foldNode at ran
  cases found : store.kind? id with
  | none =>
    simp only [found] at ran
    cases ran
  | some kind =>
    simp only [found, OnTable.pool_bind_error] at ran
    rcases OnTable.failure_bind_error ran with failed | ⟨looked, _, ran⟩
    · exact .inr ⟨kind, rfl, failed⟩
    cases looked with
    | none => cases ran
    | some operands =>
      simp only [Store.allocate_fst, pure_bind] at ran
      split at ran
      · rcases bind_error.mp ran with failed | ⟨empty, _, _, ran⟩
        · exact .inl (OnTable.interning_error (.string "") failed)
        · cases summed : sum (store.allocate id (.constant empty)).2 id store.size (operands.map Operand.node) with
          | none =>
            simp only [summed] at ran
            cases ran
          | some pair =>
            simp only [summed] at ran
            cases ran
      · cases operands with
        | nil => cases ran
        | cons operand others =>
          simp only [List.map_cons] at ran
          cases summed : sum store id operand.node (others.map Operand.node) with
          | none =>
            simp only [summed] at ran
            cases ran
          | some pair =>
            simp only [summed] at ran
            cases ran

theorem Folded.shows (folded : Folded home table store id operands changed last) (inside : id < base) (bounded : base ≤ store.size)
    (apart : ∀ operand ∈ operands, operand.node ≠ id) {file : ClassFile} (known : table.get? home = some file)
    (fits : (last.poolOf home).count ≤ Pool.limit) : Shows (last.poolOf home) changed base id operands := by
  have insideStore := Nat.lt_of_lt_of_le inside bounded
  have leavesApart : ∀ leaf ∈ operands.map Operand.node, leaf ≠ id := by simpa using apart
  cases folded with
  | @plain first rest kind grown text nodes summed =>
    have text := needsEmptyString_eq_false.mp text
    have shown : ∃ leaf ∈ (first :: rest).take 2, ∃ operand ∈ operands, operand.node = leaf ∧ operand.isString = true := by
      obtain ⟨operand, among, isString⟩ := text
      rw [← nodes, ← List.map_take]
      exact ⟨_, List.mem_map_of_mem among, operand, List.mem_of_mem_take among, rfl, isString⟩
    have sum := sum_shows insideStore bounded shown summed
    rw [← nodes] at sum
    have located := Nat.lt_of_lt_of_le insideStore (sum_grows summed).1
    exact .plain text (Store.kind?_replace_self located) (sum.replace (fun _ _ => .inl) inside leavesApart kind)
  | @behindEmpty empty kind grown last noText interned summed =>
    have noText : ∀ operand ∈ operands.take 2, operand.isString = false := by
      intro operand among
      by_contra isString
      have text := needsEmptyString_eq_false.mpr ⟨operand, among, Bool.eq_true_of_not_eq_false isString⟩
      exact absurd (noText.symm.trans text) (by decide)
    have larger : store.size ≤ (store.allocate id (.constant empty)).2.size := Store.size_le_allocate
    have located := Nat.lt_of_lt_of_le insideStore larger
    have sum : SumOf grown base (· = store.size) kind (store.size :: operands.map Operand.node) :=
      sum_shows located (Nat.le_trans bounded larger) ⟨_, by simp, rfl⟩ summed
    obtain ⟨grows, same⟩ := sum_grows summed
    have new : store.size ≠ id := Nat.ne_of_gt insideStore
    have foundEmpty : (grown.replace id kind).kind? store.size = some (.constant empty) := by
      rw [Store.kind?_replace_of_ne new, Store.kind?, same _ (Store.size_lt_allocate insideStore)]
      exact Store.kind?_allocate_self insideStore
    have read : (Pool.Symbol.string "").Names (last.poolOf home) empty :=
      Pool.Symbol.names_of_intern (OuterInstance.interning_ok known interned) fits
    refine .behindEmpty noText bounded foundEmpty read (Store.kind?_replace_self (Nat.lt_of_lt_of_le located grows))
      (sum.replace ?_ inside (List.forall_mem_cons.mpr ⟨new, leavesApart⟩) kind)
    rintro _ _ rfl
    exact .inr ⟨empty, foundEmpty, read⟩

theorem Shows.transfer (shows : Shows pool store base id operands) (growth : pool.Extends grown)
    (same : ∀ node kind, node = id ∨ node ∈ operands.map Operand.node ∨ base ≤ node → store.kind? node = some kind →
      other.kind? node = some kind) : Shows grown other base id operands := by
  have read {index : PoolIndex} (found : pool.string index = .ok (some "")) : grown.string index = .ok (some "") := by
    obtain ⟨textIndex, constant, text⟩ := Pool.string_ok.mp found
    exact Pool.string_ok.mpr ⟨textIndex, growth.get constant, growth.utf8 text⟩
  cases shows with
  | plain text found sum =>
    refine .plain text (same _ _ (.inl rfl) found) (sum.transfer (fun leaf among known => ?_) fun node kind held =>
      same node kind (.inr held))
    exact known.imp_right fun ⟨index, constant, empty⟩ => ⟨index, same _ _ (.inr (.inl among)) constant, read empty⟩
  | @behindEmpty kind first index noText fresh foundEmpty empty found sum =>
    have kept (node : NodeId) (kind : Kind) (held : node ∈ first :: operands.map Operand.node ∨ base ≤ node) :
        store.kind? node = some kind → other.kind? node = some kind := by
      rcases held with among | fresh
      · rcases List.mem_cons.mp among with rfl | among
        · exact same _ _ (.inr (.inr fresh))
        · exact same _ _ (.inr (.inl among))
      · exact same _ _ (.inr (.inr fresh))
    refine .behindEmpty noText fresh (same _ _ (.inr (.inr fresh)) foundEmpty) (read empty) (same _ _ (.inl rfl) found)
      (sum.transfer (fun leaf among known => ?_) kept)
    exact known.imp_right fun ⟨index, constant, empty⟩ => ⟨index, kept _ _ (.inl among) constant, read empty⟩

end Visits

/-! ## Whole walks -/

section Walks

structure Underway (home : ClassId) (table : ClassTable) (draft : Draft) (store : Store) (last : ClassTable) : Prop where
  annotates : table.Annotates home last
  larger : draft.store.size ≤ store.size
  sourced : Sourced draft.store store
  steady : ∀ id kind, draft.store.kind? id = some kind → Steady (table.poolOf home) kind → store.kind? id = some kind

variable {draft : Draft}

theorem underway_self (home : ClassId) (table : ClassTable) (draft : Draft) : Underway home table draft draft.store table where
  annotates := Std.Refl.refl table
  larger := Nat.le_refl _
  sourced := fun id _ _ found _ => ⟨id, .refl id, found⟩
  steady := fun _ _ found _ => found

theorem Underway.foldNode {middle : ClassTable} (underway : Underway home table draft store middle)
    (ran : foldNode home store id middle = (.ok changed, last)) : Underway home table draft changed last where
  annotates := IsTrans.trans _ _ _ underway.annotates ((foldNode_annotates home store id).of_run ran)
  larger := Nat.le_trans underway.larger (foldNode_spares ran).size_le
  sourced := foldNode_sourced underway.sourced ran
  steady := by
    intro other kind found steady
    have before := underway.steady other kind found steady
    by_cases visited : other = id
    · subst visited
      rw [foldNode_steady before (steady.extend (underway.annotates.poolOf home)) ran]
      exact before
    · rw [(foldNode_spares ran).kind? other (Store.lt_size_of_kind? before) (by simpa using visited)]
      exact before

theorem Underway.of_walk {ids : List NodeId}
    (ran : ids.foldlM (Concatenation.foldNode home) draft.store table = (.ok changed, last)) :
    Underway home table draft changed last :=
  foldlM_keeps (fun underway ran => underway.foldNode ran) (underway_self home table draft) ran

theorem operands?_of_concatenates (concatenates : Concatenates pool store id start operands) (trees : store.Trees [id])
    (growth : pool.Extends grown)
    (same : ∀ id kind, store.kind? id = some kind → Steady pool kind → other.kind? id = some kind)
    (larger : store.size ≤ other.size) :
    ∃ kind, store.kind? id = some kind ∧
      operands? grown other kind = (started grown other start).map fun initial => some (initial ++ operands) := by
  obtain @⟨builder, method, called, found, text, builds⟩ := concatenates
  have tree : store.Trees [builder] := trees.child found List.mem_cons_self
  have deep : operands.length < other.size := by
    have bound := tree.listed.length_le_size tree.distinct
    rw [List.flatMap_singleton] at bound
    exact Nat.lt_of_lt_of_le (builds.length_lt tree) (Nat.le_trans bound larger)
  refine ⟨_, found, ?_⟩
  simp only [operands?]
  rw [(text.extend growth).resolved]
  change (if (!([] : List NodeId).isEmpty || !isBuilder called.owner || called.name != "toString") = true then _ else _) = _
  rw [if_neg (by simp [text.owner, text.named])]
  exact appended?_of_builds builds growth same deep

theorem Underway.visit {middle : ClassTable} (underway : Underway home table draft store middle) (tree : draft.store.Trees [id])
    (fits : (table.poolOf home).count ≤ Pool.limit) (concatenates : Concatenates (table.poolOf home) draft.store id start operands)
    (untouched : store.kind? id = draft.store.kind? id) (ran : Concatenation.foldNode home store id middle = (.ok changed, last)) :
    ∃ initial, started (middle.poolOf home) store start = .ok initial ∧
      (∀ operand ∈ initial ++ operands, Below draft.store id operand.node) ∧
      Shows (last.poolOf home) changed draft.store.size id (initial ++ operands) := by
  have growth := underway.annotates.poolOf home
  obtain ⟨kind, found, read⟩ := operands?_of_concatenates concatenates tree growth underway.steady underway.larger
  have inside := Store.lt_size_of_kind? found
  rw [← untouched] at found
  obtain ⟨looked, readToo, outcome⟩ := foldNode_run found ran
  have traced : Traced draft.store (middle.poolOf home) id _ := operands?_traced underway.sourced found
  rw [readToo] at traced
  cases ranStart : started (middle.poolOf home) store start with
  | error failure =>
    rw [ranStart] at read
    cases read.symm.trans readToo
  | ok initial =>
    rw [ranStart] at read
    cases read.symm.trans readToo
    have under := traced _ rfl
    refine ⟨initial, rfl, under, ?_⟩
    rcases outcome with ⟨_, _, missing⟩ | ⟨_, same, folded⟩
    · obtain ⟨operand, among, outside⟩ := missing _ rfl
      have old := ((under operand among).apart tree).1
      exact absurd (Nat.lt_of_lt_of_le old underway.larger) (Nat.not_lt.mpr outside)
    · cases same
      obtain ⟨_, text, _⟩ := concatenates
      obtain ⟨file, known⟩ := ClassTable.get?_of_member (growth.member text.resolved)
      have fitsLast := (((foldNode_annotates home store id).of_run ran).poolOf home).fits (growth.fits fits)
      exact folded.shows inside underway.larger (fun operand among => ((under operand among).apart tree).2) known fitsLast

theorem walk_error {ids : List NodeId} {failure : Failure}
    (ran : ids.foldlM (Concatenation.foldNode home) draft.store table = (.error failure, last)) :
    failure = .method (.pool .overflow) ∨ ∃ visited ∈ ids, Faulty draft.store (table.poolOf home) visited := by
  obtain ⟨before, visited, after, store, middle, rfl, walked, failed⟩ := foldlM_error ran
  have underway := Underway.of_walk walked
  rcases foldNode_error failed with overflow | ⟨kind, found, failed⟩
  · exact .inl overflow
  · have traced : Traced draft.store (middle.poolOf home) visited _ := operands?_traced underway.sourced found
    rw [failed] at traced
    obtain ⟨faulty, kind, below, located, unreadable⟩ := traced
    exact .inr ⟨visited, List.mem_append_right _ List.mem_cons_self, faulty, kind, below, located,
      unreadable.of_extends (underway.annotates.poolOf home)⟩

end Walks

/-- A chain whose nodes are visited once is replaced by the sum of its operands, in order and behind an empty string where neither
of the first two is known to be a string. The pass fails only if there is no room for the empty string or some called method
cannot be read. -/
theorem recover_sums_chains {draft : Draft} (tree : draft.store.Trees [id])
    (once : ∀ node ∈ draft.store.preorder id, (draft.store.postorder draft.statements).count node = 1)
    (fits : (table.poolOf home).count ≤ Pool.limit)
    (concatenates : Concatenates (table.poolOf home) draft.store id start operands) :
    (∀ result last, recover home draft table = (.ok result, last) →
      ∃ initial, Starts (last.poolOf home) result.store start initial ∧
        Shows (last.poolOf home) result.store draft.store.size id (initial ++ operands)) ∧
    ∀ failure last, recover home draft table = (.error failure, last) →
      failure = .method (.pool .overflow) ∨
        ∃ statement ∈ draft.statements, Faulty draft.store (table.poolOf home) statement := by
  constructor
  · intro result last ran
    obtain ⟨changed, walked, rfl⟩ := OnTable.map_ok ran
    obtain ⟨visit, order⟩ := tree.visit once foldNode_spares walked
    have underway := Underway.of_walk visit.walked
    obtain ⟨initial, began, under, shows⟩ := underway.visit visit.tree fits concatenates visit.untouched visit.stepped
    have annotates := (preserves_foldlM (foldNode_annotates home) visit.after visit.changed).of_run visit.rest
    have growth := annotates.poolOf home
    have growthVisit := ((foldNode_annotates home visit.store id).of_run visit.stepped).poolOf home
    -- What is below the node has been visited before it, and nothing of that is visited again.
    refine ⟨initial, starts_of_started began (growthVisit.trans growth) ?_, shows.transfer growth ?_⟩
    · rintro argument rfl
      obtain ⟨found, _, builds⟩ := concatenates
      have under := builds.start_below ((Store.Reaches.refl id).tail found List.mem_cons_self)
      obtain ⟨old, apart⟩ := under.apart visit.tree
      have old := Nat.lt_of_lt_of_le old underway.larger
      have spares := foldNode_spares visit.stepped
      rw [← spares.kind? argument old (by simpa using apart)]
      exact visit.spares.kind? argument (Nat.lt_of_lt_of_le old spares.size_le) (visit.below argument under.reaches apart).2
    · intro node kind place found
      have late : node ∉ visit.after := by
        rcases place with rfl | among | fresh
        · exact visit.notAfter
        · obtain ⟨operand, member, rfl⟩ := List.mem_map.mp among
          have under := under operand member
          exact (visit.below _ under.reaches (under.apart visit.tree).2).2
        · intro late
          have listed : node ∈ draft.store.postorder draft.statements := order ▸ List.mem_append_right _ (.tail _ late)
          obtain ⟨_, _, _, old⟩ := Store.mem_postorder_iff_reaches.mp listed
          exact Nat.not_lt.mpr fresh old
      rwa [visit.spares.kind? node (Store.lt_size_of_kind? found) late]
  · intro failure last ran
    rcases bind_error.mp ran with failed | ⟨_, _, _, returned⟩
    · refine (walk_error failed).imp_right ?_
      rintro ⟨visited, listed, id, kind, onward, found⟩
      obtain ⟨statement, member, way, _⟩ := Store.mem_postorder_iff_reaches.mp listed
      exact ⟨statement, member, id, kind, way.trans onward, found⟩
    · cases returned

/-! ## A chain inside a chain -/

/-- The pool of `a/Main` with the methods of a builder and `String.valueOf(int)`. -/
def builderPool : Pool where
  entries := #[none, some (.utf8 "a/Main"), some (.classInfo 1), some (.utf8 "java/lang/StringBuilder"), some (.classInfo 3),
    some (.utf8 "<init>"), some (.utf8 "()V"), some (.nameAndType 5 6), some (.methodRef 4 7), some (.utf8 "(Ljava/lang/String;)V"),
    some (.nameAndType 5 9), some (.methodRef 4 10), some (.utf8 "append"),
    some (.utf8 "(Ljava/lang/String;)Ljava/lang/StringBuilder;"), some (.nameAndType 12 13), some (.methodRef 4 14),
    some (.utf8 "(I)Ljava/lang/StringBuilder;"), some (.nameAndType 12 16), some (.methodRef 4 17), some (.utf8 "toString"),
    some (.utf8 "()Ljava/lang/String;"), some (.nameAndType 19 20), some (.methodRef 4 21), some (.utf8 "java/lang/String"),
    some (.classInfo 23), some (.utf8 "valueOf"), some (.utf8 "(I)Ljava/lang/String;"), some (.nameAndType 25 26),
    some (.methodRef 24 27)]

def building : ClassTable := ⟨#[{ thisIndex := 2, pool := builderPool }]⟩

/-- `return new StringBuilder(new StringBuilder().append(String.valueOf(x)).toString()).append(y).toString();` -/
def nestedChain : Store :=
  ⟨#[⟨0, none, .construct 8 []⟩, ⟨7, none, .read (.slot .int 0)⟩, ⟨8, none, .call .static 28 none [1]⟩,
    ⟨11, none, .call .virtual 15 (some 0) [2]⟩, ⟨14, none, .call .virtual 22 (some 3) []⟩, ⟨17, none, .construct 11 [4]⟩,
    ⟨20, none, .read (.slot .int 1)⟩, ⟨21, none, .call .virtual 18 (some 5) [6]⟩, ⟨24, none, .call .virtual 22 (some 7) []⟩,
    ⟨27, none, .ret (some 8)⟩]⟩

theorem nestedChain_concatenates : Concatenates (building.poolOf 0) nestedChain 8 (some 4) [⟨6, false⟩] := by
  have initializes : OfBuilder builderPool 11 "<init>"
      ⟨"java/lang/StringBuilder", "<init>", "(Ljava/lang/String;)V", 5, 9⟩ := ⟨rfl, by decide, rfl⟩
  have appends : OfBuilder builderPool 18 "append"
      ⟨"java/lang/StringBuilder", "append", "(I)Ljava/lang/StringBuilder;", 12, 16⟩ := ⟨rfl, by decide, rfl⟩
  have shows : OfBuilder builderPool 22 "toString"
      ⟨"java/lang/StringBuilder", "toString", "()Ljava/lang/String;", 19, 20⟩ := ⟨rfl, by decide, rfl⟩
  have parameters : Descriptor.parameters "(I)Ljava/lang/StringBuilder;" = .ok ["I"] := by rfl
  exact .intro rfl shows (.append (.copy rfl initializes rfl) rfl appends parameters)

def nestedChainSummed : Store :=
  ((⟨nestedChain.nodes ++ #[⟨24, none, .constant 30⟩, ⟨24, none, .binary .add 10 1⟩]⟩ : Store).replace 4
    (.call .static 28 none [1])).replace 8 (.binary .add 11 6)

theorem recover_nestedChain :
    ∃ last, recover 0 ⟨nestedChain, [9]⟩ building = (.ok ⟨nestedChainSummed, [9]⟩, last) := by
  have returned : (recover 0 ⟨nestedChain, [9]⟩ building).1.toOption = some ⟨nestedChainSummed, [9]⟩ := by
    decide +kernel
  refine ⟨_, Prod.ext ?_ rfl⟩
  generalize (recover 0 ⟨nestedChain, [9]⟩ building).1 = result at returned
  cases result with
  | error failure => cases returned
  | ok draft => exact congrArg Except.ok (Option.some.inj returned)

theorem nestedChain_tree : nestedChain.Trees [8] :=
  Store.Lists.trees (.cons rfl (.cons rfl (.cons rfl (.cons rfl (.cons rfl (.cons rfl .nil
    (.cons rfl (.cons rfl .nil .nil) .nil)) .nil) .nil) (.cons rfl .nil .nil)) .nil) .nil) (by decide)

theorem recover_sums_nestedChain :
    ∃ last initial, recover 0 ⟨nestedChain, [9]⟩ building = (.ok ⟨nestedChainSummed, [9]⟩, last) ∧
      Starts (last.poolOf 0) nestedChainSummed (some 4) initial ∧
      Shows (last.poolOf 0) nestedChainSummed nestedChain.size 8 (initial ++ [⟨6, false⟩]) := by
  obtain ⟨last, ran⟩ := recover_nestedChain
  obtain ⟨initial, starts, shows⟩ :=
    (recover_sums_chains nestedChain_tree (by decide) (by decide) nestedChain_concatenates).1 _ _ ran
  exact ⟨last, initial, ran, starts, shows⟩

theorem SumOf.eq_add_of_pair {first second : NodeId} (sum : SumOf store base known kind [first, second]) :
    kind = .binary .add first second := by
  generalize same : [first, second] = leaves at sum
  cases sum with
  | single => cases same
  | pair =>
    cases same
    rfl
  | more _ several =>
    have lengths := congrArg List.length same
    rw [List.length_append, List.length_singleton] at lengths
    exact absurd (Nat.succ.inj lengths) (Nat.ne_of_lt several)

/-- The value that the outer chain starts with is no conversion, but the inner chain is replaced by one. The sum starts with
what is converted there, not with the value. -/
theorem recover_not_sums_value :
    Concatenates (building.poolOf 0) nestedChain 8 (some 4) [⟨6, false⟩] ∧
      nestedChain.kind? 4 = some (.call .virtual 22 (some 3) []) ∧
      ∃ last, recover 0 ⟨nestedChain, [9]⟩ building = (.ok ⟨nestedChainSummed, [9]⟩, last) ∧
        ¬ Shows (last.poolOf 0) nestedChainSummed nestedChain.size 8 [⟨4, true⟩, ⟨6, false⟩] := by
  obtain ⟨last, ran⟩ := recover_nestedChain
  refine ⟨nestedChain_concatenates, rfl, last, ran, fun shows => ?_⟩
  cases shows with
  | plain text found sum =>
    cases found
    cases sum.eq_add_of_pair
  | behindEmpty noText => exact absurd (noText ⟨4, true⟩ (by simp)) (by decide)

end Concatenation

end ClassLift
