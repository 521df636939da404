import ClassLift.Proofs.Action
import ClassLift.Proofs.Body.Tree
import ClassLift.Survey.SwitchMap

namespace ClassLift

/-! ## Sorting by label -/

namespace OrdinalStore

def entry (found : OrdinalStore) : PoolIndex × Int32 := (found.constant, found.label)

def firstWith (entries : List (PoolIndex × Int32)) (number : Nat) : Option PoolIndex :=
  (entries.find? fun entry => entry.2.toInt == (number : Int)).map Prod.fst

structure Dense (entries : List (PoolIndex × Int32)) (count : Nat) : Prop where
  within : ∀ entry ∈ entries, ∃ number : Nat, 1 ≤ number ∧ number ≤ count ∧ entry.2.toInt = number
  covered : ∀ number : Nat, 1 ≤ number → number ≤ count → ∃ entry ∈ entries, entry.2.toInt = number

variable {stores sorted : List OrdinalStore} {entries : List (PoolIndex × Int32)} {count : Nat}

theorem firstWith_cons_of_ne {first : PoolIndex × Int32} {number : Nat} (apart : first.2.toInt ≠ number) :
    firstWith (first :: entries) number = firstWith entries number := by
  rw [firstWith, List.find?_cons_of_neg (by simpa using apart), firstWith]

theorem firstWith_cons_self {first : PoolIndex × Int32} {number : Nat} (same : first.2.toInt = number) :
    firstWith (first :: entries) number = some first.1 := by
  rw [firstWith, List.find?_cons_of_pos (by simpa using same), Option.map_some]

theorem firstOfRuns_eq (last : Option Int32) (low count : Nat) (start : ∀ label, last = some label → label.toInt = low)
    (ordered : sorted.Pairwise fun one other => one.label.toInt ≤ other.label.toInt)
    (within : ∀ found ∈ sorted, last = some found.label ∨
      ∃ number : Nat, low < number ∧ number ≤ low + count ∧ found.label.toInt = number)
    (covered : ∀ number : Nat, low < number → number ≤ low + count → ∃ found ∈ sorted, found.label.toInt = number) :
    firstOfRuns last sorted = (List.range' (low + 1) count).filterMap (firstWith (sorted.map entry)) := by
  induction sorted generalizing last low count with
  | nil =>
    cases count with
    | zero => rfl
    | succ count =>
      obtain ⟨_, among, _⟩ := covered (low + 1) (by omega) (by omega)
      cases among
  | cons found rest continues =>
    obtain ⟨least, ordered⟩ := List.pairwise_cons.mp ordered
    have below {number : Nat} (apart : found.label.toInt ≠ number)
        (there : ∃ other ∈ found :: rest, other.label.toInt = number) : ∃ other ∈ rest, other.label.toInt = number := by
      obtain ⟨other, among, labelled⟩ := there
      rcases List.mem_cons.mp among with rfl | among
      · exact absurd labelled apart
      · exact ⟨other, among, labelled⟩
    unfold firstOfRuns
    split
    case isTrue same =>
      have here := start _ same
      rw [continues last low count start ordered (fun other among => within other (.tail _ among)) fun number more least =>
        below (by omega) (covered number more least)]
      refine List.filterMap_congr fun number listed => (firstWith_cons_of_ne ?_).symm
      have := List.mem_range'_1.mp listed
      change found.label.toInt ≠ number
      omega
    case isFalse other =>
      -- The labels are sorted, so the first is the least that is left.
      have here : found.label.toInt = (low + 1 : Nat) ∧ 0 < count := by
        obtain ⟨number, more, most, labelled⟩ := (within found List.mem_cons_self).resolve_left other
        obtain ⟨next, among, second⟩ := covered (low + 1) (by omega) (by omega)
        have : found.label.toInt ≤ next.label.toInt := by
          rcases List.mem_cons.mp among with rfl | among
          · exact Int.le_refl _
          · exact least next among
        omega
      obtain ⟨here, positive⟩ := here
      obtain ⟨count, rfl⟩ := Nat.exists_eq_succ_of_ne_zero (Nat.ne_of_gt positive)
      rw [List.range'_succ, List.map_cons, List.filterMap_cons_some (firstWith_cons_self here)]
      have later : firstOfRuns (some found.label) rest =
          (List.range' (low + 1 + 1) count).filterMap (firstWith (rest.map entry)) := by
        refine continues (some found.label) (low + 1) count (by rintro _ ⟨⟩; exact here) ordered (fun next among => ?_)
          fun number more most => below (by omega) (covered number (by omega) (by omega))
        have after := least next among
        rcases within next (.tail _ among) with same | ⟨number, more, most, labelled⟩
        · have := start _ same
          omega
        · by_cases again : number = low + 1
          · exact .inl (congrArg some (Int32.toInt_inj.mp (by omega)))
          · exact .inr ⟨number, by omega, by omega, labelled⟩
      rw [later]
      refine congrArg (found.constant :: ·) (List.filterMap_congr fun number listed => (firstWith_cons_of_ne ?_).symm)
      have := List.mem_range'_1.mp listed
      change found.label.toInt ≠ number
      omega

def byLabel (one other : OrdinalStore) : Bool := one.label ≤ other.label

theorem byLabel_iff {one other : OrdinalStore} : one.byLabel other = true ↔ one.label.toInt ≤ other.label.toInt := by
  rw [byLabel, decide_eq_true_iff, Int32.le_iff_toInt_le]

theorem byLabel_trans (one middle other : OrdinalStore) (first : one.byLabel middle = true)
    (second : middle.byLabel other = true) : one.byLabel other = true :=
  byLabel_iff.mpr (Int.le_trans (byLabel_iff.mp first) (byLabel_iff.mp second))

theorem byLabel_total (one other : OrdinalStore) : (one.byLabel other || other.byLabel one) = true := by
  rw [Bool.or_eq_true, byLabel_iff, byLabel_iff]
  exact Int.le_total _ _

theorem filter_mergeSort (number : Nat) :
    (stores.mergeSort byLabel).filter (fun found => found.label.toInt == (number : Int)) =
      stores.filter fun found => found.label.toInt == (number : Int) := by
  have among : (stores.filter fun found => found.label.toInt == (number : Int)).Sublist (stores.mergeSort byLabel) := by
    refine List.sublist_mergeSort byLabel_trans byLabel_total ?_ List.filter_sublist
    refine List.pairwise_of_forall_mem_list fun one first other second => byLabel_iff.mpr ?_
    have same := beq_iff_eq.mp (List.mem_filter.mp first).2
    have alike := beq_iff_eq.mp (List.mem_filter.mp second).2
    exact Int.le_of_eq (same.trans alike.symm)
  have kept := among.filter fun found => found.label.toInt == (number : Int)
  rw [List.filter_filter] at kept
  simp only [Bool.and_self] at kept
  exact (kept.eq_of_length ((List.mergeSort_perm _ _).filter _).length_eq.symm).symm

theorem firstWith_map_entry (number : Nat) :
    firstWith (stores.map entry) number =
      (stores.filter fun found => found.label.toInt == (number : Int)).head?.map OrdinalStore.constant := by
  rw [firstWith, List.find?_map, List.head?_filter, Option.map_map]
  rfl

theorem caseOrder_eq (dense : Dense (stores.map entry) count) :
    caseOrder stores = (List.range' 1 count).filterMap (firstWith (stores.map entry)) := by
  have ordered : (stores.mergeSort byLabel).Pairwise fun one other => one.label.toInt ≤ other.label.toInt :=
    (List.pairwise_mergeSort byLabel_trans byLabel_total stores).imp byLabel_iff.mp
  refine (firstOfRuns_eq none 0 count (fun _ same => by cases same) ordered (fun found among => .inr ?_)
    fun number more most => ?_).trans ?_
  · rw [Nat.zero_add]
    exact dense.within _ (List.mem_map_of_mem (List.mem_mergeSort.mp among))
  · obtain ⟨_, listed, labelled⟩ := dense.covered number more (count.zero_add ▸ most)
    obtain ⟨found, among, rfl⟩ := List.mem_map.mp listed
    exact ⟨found, List.mem_mergeSort.mpr among, labelled⟩
  · refine List.filterMap_congr fun number _ => ?_
    rw [firstWith_map_entry, firstWith_map_entry, filter_mergeSort]

theorem Dense.firstWith_isSome (dense : Dense entries count) {number : Nat} (more : 1 ≤ number) (most : number ≤ count) :
    (firstWith entries number).isSome = true := by
  obtain ⟨entry, among, labelled⟩ := dense.covered number more most
  rw [firstWith, Option.isSome_map, List.find?_isSome]
  exact ⟨entry, among, by simpa using labelled⟩

theorem caseOrder_places (dense : Dense (stores.map entry) count) :
    (caseOrder stores).length = count ∧ ∀ number, 1 ≤ number → number ≤ count →
      (caseOrder stores)[number - 1]? = firstWith (stores.map entry) number := by
  have every : caseOrder stores = (List.range' 1 count).map fun number => (firstWith (stores.map entry) number).getD 0 := by
    rw [caseOrder_eq dense]
    refine Eq.trans (List.filterMap_congr fun number listed => ?_) (congrFun List.filterMap_eq_map' _)
    obtain ⟨more, most⟩ := List.mem_range'_1.mp listed
    obtain ⟨constant, first⟩ := Option.isSome_iff_exists.mp (dense.firstWith_isSome more (by omega))
    rw [first, Option.getD_some]
  rw [every]
  refine ⟨by simp, fun number more most => ?_⟩
  obtain ⟨constant, first⟩ := Option.isSome_iff_exists.mp (dense.firstWith_isSome more most)
  rw [List.getElem?_map, List.getElem?_range' (by omega), Option.map_some]
  rw [show 1 + 1 * (number - 1) = number by omega, first, Option.getD_some]

theorem firstWith_perm {permuted : List (PoolIndex × Int32)} (same : permuted.Perm entries)
    (once : (entries.map Prod.snd).Nodup) (number : Nat) : firstWith permuted number = firstWith entries number := by
  unfold firstWith
  refine congrArg (Option.map Prod.fst) ?_
  cases first : entries.find? fun entry => entry.2.toInt == (number : Int) with
  | none => exact List.find?_eq_none.mpr fun entry among => List.find?_eq_none.mp first entry (same.mem_iff.mp among)
  | some entry =>
    have among := same.mem_iff.mpr (List.mem_of_find?_eq_some first)
    obtain ⟨other, found⟩ := Option.isSome_iff_exists.mp (List.find?_isSome.mpr ⟨entry, among, List.find?_some first⟩)
    have labelled : entry.2.toInt = number := by simpa using List.find?_some first
    have alike : other.2.toInt = number := by simpa using List.find?_some found
    have equal : other.2 = entry.2 := Int32.toInt_inj.mp (alike.trans labelled.symm)
    rw [found, List.inj_on_of_nodup_map once (same.mem_iff.mp (List.mem_of_find?_eq_some found))
      (List.mem_of_find?_eq_some first) equal]

theorem Dense.perm {permuted : List (PoolIndex × Int32)} (dense : Dense entries count) (same : permuted.Perm entries) :
    Dense permuted count where
  within entry among := dense.within entry (same.mem_iff.mp among)
  covered number more most := by
    obtain ⟨entry, among, labelled⟩ := dense.covered number more most
    exact ⟨entry, same.mem_iff.mpr among, labelled⟩

theorem caseOrder_congr {others : List OrdinalStore} (dense : Dense (stores.map entry) count)
    (same : (others.map entry).Perm (stores.map entry))
    (first : ∀ number, firstWith (others.map entry) number = firstWith (stores.map entry) number) :
    caseOrder others = caseOrder stores := by
  rw [caseOrder_eq (dense.perm same), caseOrder_eq dense]
  exact List.filterMap_congr fun number _ => first number

end OrdinalStore

/-! ## What a walk gathers -/

inductive Gathers {α β : Type} (gives : α → β → Prop) : List α → List β → Prop
  | nil : Gathers gives [] []
  | skip {first : α} {rest : List α} {values : List β} (nothing : ∀ value, ¬ gives first value)
      (others : Gathers gives rest values) : Gathers gives (first :: rest) values
  | take {first : α} {rest : List α} {value : β} {values : List β} (here : gives first value)
      (others : Gathers gives rest values) : Gathers gives (first :: rest) (value :: values)

namespace Gathers

variable {α β γ : Type} {gives : α → β → Prop} {passes : β → γ → Prop} {elements : List α} {values others : List β}
  {kept : List γ}

theorem unique (first : Gathers gives elements values) (second : Gathers gives elements others)
    (single : ∀ element one other, gives element one → gives element other → one = other) : values = others := by
  induction first generalizing others with
  | nil =>
    cases second
    rfl
  | skip nothing _ continues =>
    cases second with
    | skip _ second => exact continues second
    | take here _ => exact absurd here (nothing _)
  | take here _ continues =>
    cases second with
    | skip nothing _ => exact absurd here (nothing _)
    | take alike second => rw [single _ _ _ here alike, continues second]

theorem comp (first : Gathers gives elements values) (second : Gathers passes values kept)
    (single : ∀ element one other, gives element one → gives element other → one = other) :
    Gathers (fun element value => ∃ middle, gives element middle ∧ passes middle value) elements kept := by
  induction first generalizing kept with
  | nil =>
    cases second
    exact .nil
  | skip nothing _ continues =>
    refine .skip ?_ (continues second)
    rintro _ ⟨middle, here, _⟩
    exact nothing middle here
  | take here _ continues =>
    cases second with
    | skip blocked second =>
      refine .skip ?_ (continues second)
      rintro value ⟨middle, alike, passes⟩
      rw [single _ _ _ alike here] at passes
      exact blocked value passes
    | take passes second => exact .take ⟨_, here, passes⟩ (continues second)

theorem mono {other : α → β → Prop} (same : ∀ element value, gives element value ↔ other element value)
    (gathers : Gathers gives elements values) : Gathers other elements values := by
  induction gathers with
  | nil => exact .nil
  | skip nothing _ continues => exact .skip (fun value here => nothing value ((same _ value).mpr here)) continues
  | take here _ continues => exact .take ((same _ _).mp here) continues

end Gathers

namespace OrdinalStore

variable {pool : Pool} {store : Store} {kind : Kind} {found other : OrdinalStore}

/-- The form of `map[E.X.ordinal()] = label`, whatever method is called and whatever field is read. -/
def Shape (store : Store) (kind : Kind) (map : NodeId) (method field : PoolIndex) (label : Int32) : Prop :=
  ∃ type index value object, kind = .write (.element type map index) value ∧
    store.kind? value = some (.literal (.int label)) ∧
    store.kind? index = some (.call .virtual method (some object) []) ∧ store.kind? object = some (.read (.static field))

def Fills (pool : Pool) (store : Store) (kind : Kind) (found : OrdinalStore) : Prop :=
  ∃ method field called constant, Shape store kind found.map method field found.label ∧
    pool.member method = .ok called ∧ called.name = "ordinal" ∧ called.descriptor = "()I" ∧
    pool.member field = .ok constant ∧ constant.nameIndex = found.constant

/-- What has to be read to tell whether the node is an ordinal store can be read. -/
def Legible (pool : Pool) (store : Store) (kind : Kind) : Prop :=
  ∀ map method field label, Shape store kind map method field label →
    ∃ called, pool.member method = .ok called ∧
      (called.name = "ordinal" → called.descriptor = "()I" → ∃ constant, pool.member field = .ok constant)

theorem Shape.unique {map otherMap : NodeId} {method field otherMethod otherField : PoolIndex} {label otherLabel : Int32}
    (one : Shape store kind map method field label) (other : Shape store kind otherMap otherMethod otherField otherLabel) :
    map = otherMap ∧ method = otherMethod ∧ field = otherField ∧ label = otherLabel := by
  obtain ⟨type, index, value, object, rfl, literal, call, read⟩ := one
  obtain ⟨_, _, _, _, same, otherLiteral, otherCall, otherRead⟩ := other
  cases same
  cases literal.symm.trans otherLiteral
  cases call.symm.trans otherCall
  cases read.symm.trans otherRead
  exact ⟨rfl, rfl, rfl, rfl⟩

theorem Fills.unique (one : Fills pool store kind found) (second : Fills pool store kind other) : found = other := by
  obtain ⟨method, field, called, constant, shape, _, _, _, read, named⟩ := one
  obtain ⟨otherMethod, otherField, _, otherConstant, otherShape, _, _, _, otherRead, otherNamed⟩ := second
  obtain ⟨maps, rfl, rfl, labels⟩ := shape.unique otherShape
  cases read.symm.trans otherRead
  cases found
  cases other
  simp_all

theorem ofKind?_of_not_shape (shapeless : ∀ map method field label, ¬ Shape store kind map method field label) :
    ofKind? pool store kind = .ok none := by
  unfold ofKind?
  split
  · split
    · rename_i literal call
      split
      · rename_i read
        exact absurd ⟨_, _, _, _, rfl, literal, call, read⟩ (shapeless _ _ _ _)
      · rfl
    · rfl
  · rfl

theorem ofKind?_of_shape {map : NodeId} {method field : PoolIndex} {label : Int32}
    (shape : Shape store kind map method field label) :
    ofKind? pool store kind = pool.member method >>= fun called =>
      if called.name = "ordinal" ∧ called.descriptor = "()I" then
        pool.member field >>= fun constant => .ok (some { map, label, constant := constant.nameIndex })
      else .ok none := by
  obtain ⟨type, index, value, object, rfl, literal, call, read⟩ := shape
  unfold ofKind?
  dsimp only
  rw [literal, call]
  dsimp only
  rw [read]
  refine congrArg (bind _) (funext fun called => ?_)
  by_cases ordinal : called.name = "ordinal" ∧ called.descriptor = "()I"
  · rw [if_pos ordinal, if_neg (by simp [ordinal])]
    rfl
  · rw [if_neg ordinal, if_pos (by simpa [← not_and_or] using ordinal)]
    rfl

theorem ofKind?_ok {result : Option OrdinalStore} (ran : ofKind? pool store kind = .ok result) :
    result = some found ↔ Fills pool store kind found := by
  by_cases shaped : ∃ map method field label, Shape store kind map method field label
  · obtain ⟨map, method, field, label, shape⟩ := shaped
    rw [ofKind?_of_shape shape] at ran
    obtain ⟨called, calls, ran⟩ := except_bind_ok.mp ran
    by_cases ordinal : called.name = "ordinal" ∧ called.descriptor = "()I"
    · rw [if_pos ordinal] at ran
      obtain ⟨constant, reads, ran⟩ := except_bind_ok.mp ran
      have here : Fills pool store kind { map, label, constant := constant.nameIndex } :=
        ⟨method, field, called, constant, shape, calls, ordinal.1, ordinal.2, reads, rfl⟩
      rw [← Except.ok.inj ran, Option.some_inj]
      exact ⟨fun same => same ▸ here, here.unique⟩
    · rw [if_neg ordinal] at ran
      cases ran
      refine iff_of_false (by simp) ?_
      rintro ⟨_, _, _, _, otherShape, otherCalls, named, described, _⟩
      obtain ⟨_, rfl, _⟩ := shape.unique otherShape
      cases calls.symm.trans otherCalls
      exact ordinal ⟨named, described⟩
  · have shapeless : ∀ map method field label, ¬ Shape store kind map method field label :=
      fun map method field label shape => shaped ⟨map, method, field, label, shape⟩
    rw [ofKind?_of_not_shape shapeless] at ran
    cases ran
    refine iff_of_false (by simp) ?_
    rintro ⟨_, _, _, _, shape, _⟩
    exact shapeless _ _ _ _ shape

theorem ofKind?_returns_iff : (∃ result, ofKind? pool store kind = .ok result) ↔ Legible pool store kind := by
  by_cases shaped : ∃ map method field label, Shape store kind map method field label
  · obtain ⟨map, method, field, label, shape⟩ := shaped
    rw [ofKind?_of_shape shape]
    constructor
    · rintro ⟨result, ran⟩ _ _ _ _ other
      obtain ⟨_, rfl, rfl, _⟩ := shape.unique other
      obtain ⟨called, calls, ran⟩ := except_bind_ok.mp ran
      refine ⟨called, calls, fun named described => ?_⟩
      rw [if_pos ⟨named, described⟩] at ran
      obtain ⟨constant, reads, _⟩ := except_bind_ok.mp ran
      exact ⟨constant, reads⟩
    · intro legible
      obtain ⟨called, calls, rest⟩ := legible map method field label shape
      rw [calls]
      dsimp only [bind, Except.bind]
      by_cases ordinal : called.name = "ordinal" ∧ called.descriptor = "()I"
      · obtain ⟨constant, reads⟩ := rest ordinal.1 ordinal.2
        rw [if_pos ordinal, reads]
        exact ⟨_, rfl⟩
      · rw [if_neg ordinal]
        exact ⟨none, rfl⟩
  · have shapeless : ∀ map method field label, ¬ Shape store kind map method field label :=
      fun map method field label shape => shaped ⟨map, method, field, label, shape⟩
    exact iff_of_true ⟨none, ofKind?_of_not_shape shapeless⟩ fun _ _ _ _ shape => absurd shape (shapeless _ _ _ _)

def visitStore (pool : Pool) (store : Store) (_ : NodeId) (node : Node) :
    StateT (List OrdinalStore) (Except PoolError) PUnit := do
  if let some found ← ofKind? pool store node.kind then modify (· ++ [found])

def At (pool : Pool) (store : Store) (id : NodeId) (found : OrdinalStore) : Prop :=
  ∃ kind, store.kind? id = some kind ∧ Fills pool store kind found

theorem At.unique {id : NodeId} (one : At pool store id found) (second : At pool store id other) : found = other := by
  obtain ⟨kind, here, fills⟩ := one
  obtain ⟨_, there, otherFills⟩ := second
  cases here.symm.trans there
  exact fills.unique otherFills

theorem run_visitStore (id : NodeId) (node : Node) (before : List OrdinalStore) :
    (visitStore pool store id node).run before =
      ofKind? pool store node.kind >>= fun result => .ok (⟨⟩, before ++ result.toList) := by
  unfold visitStore
  cases ofKind? pool store node.kind with
  | error error => rfl
  | ok result =>
    cases result with
    | none => exact congrArg (fun after => Except.ok (PUnit.unit, after)) (List.append_nil before).symm
    | some found => rfl

def visitAt (pool : Pool) (store : Store) (id : NodeId) : StateT (List OrdinalStore) (Except PoolError) PUnit :=
  (store.node? id).elim (pure ⟨⟩) (visitStore pool store id)

variable {id : NodeId} {order : List NodeId} {before after : List OrdinalStore}

theorem run_visitAt_ok (ran : (visitAt pool store id).run before = .ok (⟨⟩, after)) :
    (∃ found, At pool store id found ∧ after = before ++ [found]) ∨ (∀ found, ¬ At pool store id found) ∧ after = before := by
  unfold visitAt at ran
  cases located : store.node? id with
  | none =>
    rw [located] at ran
    cases ran
    refine .inr ⟨?_, rfl⟩
    rintro found ⟨kind, here, _⟩
    rw [Store.kind?, located] at here
    cases here
  | some node =>
    have here := Store.kind?_of_node? located
    rw [located, Option.elim_some, run_visitStore] at ran
    obtain ⟨result, read, ran⟩ := except_bind_ok.mp ran
    cases ran
    cases result with
    | none =>
      refine .inr ⟨?_, List.append_nil before⟩
      rintro found ⟨kind, there, fills⟩
      cases here.symm.trans there
      cases (ofKind?_ok read).mpr fills
    | some found => exact .inl ⟨found, ⟨node.kind, here, (ofKind?_ok read).mp rfl⟩, rfl⟩

theorem run_visitAt_returns (legible : ∀ kind, store.kind? id = some kind → Legible pool store kind)
    (before : List OrdinalStore) : ∃ after, (visitAt pool store id).run before = .ok (⟨⟩, after) := by
  unfold visitAt
  cases located : store.node? id with
  | none => exact ⟨before, rfl⟩
  | some node =>
    obtain ⟨result, read⟩ := ofKind?_returns_iff.mpr (legible node.kind (Store.kind?_of_node? located))
    rw [Option.elim_some, run_visitStore, read]
    exact ⟨_, rfl⟩

theorem run_forM_visitAt_ok (ran : (order.forM (visitAt pool store)).run before = .ok (⟨⟩, after)) :
    ∃ stores, Gathers (At pool store) order stores ∧ after = before ++ stores := by
  induction order generalizing before with
  | nil =>
    cases ran
    exact ⟨[], .nil, (List.append_nil _).symm⟩
  | cons id rest continues =>
    rw [List.forM_eq_forM, List.forM_cons, StateT.run_bind] at ran
    obtain ⟨⟨_, middle⟩, first, ran⟩ := except_bind_ok.mp ran
    obtain ⟨stores, gathers, rfl⟩ := continues ran
    rcases run_visitAt_ok first with ⟨found, here, rfl⟩ | ⟨nothing, rfl⟩
    · exact ⟨found :: stores, .take here gathers, by simp⟩
    · exact ⟨stores, .skip nothing gathers, rfl⟩

theorem run_forM_visitAt_returns (legible : ∀ id ∈ order, ∀ kind, store.kind? id = some kind → Legible pool store kind)
    (before : List OrdinalStore) : ∃ after, (order.forM (visitAt pool store)).run before = .ok (⟨⟩, after) := by
  induction order generalizing before with
  | nil => exact ⟨before, rfl⟩
  | cons id rest continues =>
    obtain ⟨middle, first⟩ := run_visitAt_returns (legible id List.mem_cons_self) before
    obtain ⟨after, second⟩ := continues (fun id among => legible id (.tail _ among)) middle
    rw [List.forM_eq_forM, List.forM_cons, StateT.run_bind, first]
    exact ⟨after, second⟩

theorem collect_eq (pool : Pool) (store : Store) (statements : List NodeId) :
    collect pool store statements =
      ((statements.flatMap store.preorder).forM (visitAt pool store)).run [] >>= fun result => .ok result.2 :=
  congrArg (fun walk => walk.run [] >>= fun result => .ok result.2) (Store.walkList_eq_forM (visitStore pool store) statements)

theorem collect_ok {statements : List NodeId} {stores : List OrdinalStore} (ran : collect pool store statements = .ok stores) :
    Gathers (At pool store) (statements.flatMap store.preorder) stores := by
  rw [collect_eq] at ran
  obtain ⟨⟨_, after⟩, walked, ran⟩ := except_bind_ok.mp ran
  obtain ⟨_, gathers, rfl⟩ := run_forM_visitAt_ok walked
  cases ran
  exact gathers

theorem collect_returns {statements : List NodeId}
    (legible : ∀ id ∈ statements.flatMap store.preorder, ∀ kind, store.kind? id = some kind → Legible pool store kind) :
    ∃ stores, collect pool store statements = .ok stores := by
  obtain ⟨after, walked⟩ := run_forM_visitAt_returns legible []
  rw [collect_eq, walked]
  exact ⟨after, rfl⟩

end OrdinalStore

end ClassLift
