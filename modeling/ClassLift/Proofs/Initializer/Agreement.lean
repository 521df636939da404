import ClassLift.Proofs.Analysis.Stage
import ClassLift.Proofs.Body.Equality
import ClassLift.Proofs.Body.First
import ClassLift.Proofs.Body.Tree
import ClassLift.Proofs.Initializer.Lifting

/-!
# The constructors agree on what is lifted

Instance initializers are lifted as far as all constructors of a class start with the same writes. `ClassFile.Lifts` says what
that means without reference to how the constructors are scanned: the largest number of statements behind the constructor calls
that are alike, which of the fields and bodies change, and that nothing else does.
-/

namespace ClassLift

/-! ## Values that can be lifted -/

def Kind.readsLocal : Kind → Bool
  | .read (.slot _ slot) => slot != 0
  | .dupLoad _ | .caught _ | .bump .. => true
  | _ => false

def Kind.bindsLocally : Kind → Bool
  | .increment .. | .assign .. => true
  | kind => kind.readsLocal

def Store.Lacks (store : Store) (forbidden : Kind → Bool) (root : NodeId) : Prop :=
  ∀ id ∈ store.preorder root, ∀ kind, store.kind? id = some kind → forbidden kind = false

theorem Store.dependsOnLocals_eq_false {store : Store} {value : NodeId} :
    store.dependsOnLocals value = false ↔ store.Lacks Kind.bindsLocally value := by
  have same : store.dependsOnLocals value = store.any (fun node => node.kind.bindsLocally) value := by
    refine congrArg (store.any · value) (funext fun node => ?_)
    obtain ⟨offset, line, kind⟩ := node
    cases kind with
    | read place => cases place <;> rfl
    | _ => rfl
  unfold any at same
  simp only [same, find?_eq, Option.isSome_eq_false_iff, Option.isNone_iff_eq_none, List.find?_eq_none, Option.any_eq_true,
    not_exists, not_and, Bool.not_eq_true]
  constructor
  · intro every id among kind found
    obtain ⟨node, located, rfl⟩ := kind?_eq_some.mp found
    exact every id among node located
  · intro lacks id among node located
    exact lacks id among node.kind (kind?_of_node? located)

theorem ClassTable.set_get? {table : ClassTable} {id : ClassId} {file : ClassFile} (found : table.get? id = some file) :
    table.set id file = table := by
  refine congrArg ClassTable.mk (Array.ext_getElem? fun index => ?_)
  rw [Array.getElem?_modify]
  split
  · rename_i here
    subst here
    rw [show table.classes[id]? = some file from found]
    rfl
  · rfl

namespace ClassFile

variable {file after : ClassFile} {name : String} {code otherCode : Code} {index offset position count : Nat} {owner : String}
  {write : InitialWrite} {forbidden : Kind → Bool}

/-! ## The statements behind the constructor calls -/

/-- A constructor that runs the initial values: written by hand, readable, with a body and without a call of another constructor
of the class. -/
structure Initializes (file : ClassFile) (name : String) (index : Nat) (code : Code) : Prop where
  method : ∃ declared, file.methods[index]? = some declared ∧ declared.isConstructor file.pool = true ∧
    declared.access.isSynthetic = false ∧ declared.flagged = false ∧ declared.code = some code
  foreign : ∀ position, ¬ FirstAt (Constructs file.pool code.store) code.statements position name

/-- So many statements behind the constructor call, an own field of the object gets a value. -/
structure InitialAt (file : ClassFile) (forbidden : Kind → Bool) (name : String) (code : Code) (offset : Nat)
    (write : InitialWrite) : Prop where
  statement : ∃ position owner id reference object, FirstAt (Constructs file.pool code.store) code.statements position owner ∧
    code.statements[position + 1 + offset]? = some id ∧
    code.store.kind? id = some (.write (.field reference object) write.value) ∧ code.store.isSlot object 0 = true ∧
    file.ownField? name reference = .ok (some write.field)
  declared : ∃ field, file.fields[write.field]? = some field ∧ field.access.isStatic = false
  independent : code.store.Lacks forbidden write.value

/-- The first `count` statements behind the constructor calls are the same in all constructors. -/
structure Agrees (file : ClassFile) (forbidden : Kind → Bool) (name : String) (count : Nat) : Prop where
  writes : ∀ offset < count, ∃ field, ∀ index code, file.Initializes name index code →
    ∃ value, file.InitialAt forbidden name code offset ⟨field, value⟩
  distinct : ∀ index code, file.Initializes name index code → ∀ one < count, ∀ other < count, ∀ first second,
    file.InitialAt forbidden name code one first → file.InitialAt forbidden name code other second →
    first.field = second.field → one = other
  equal : ∀ offset < count, ∀ index code other otherCode, file.Initializes name index code →
    file.Initializes name other otherCode → index ≠ other → ∀ first second, file.InitialAt forbidden name code offset first →
    file.InitialAt forbidden name otherCode offset second →
    code.store.equalAcross first.value otherCode.store second.value = true

structure Lifts (file after : ClassFile) (forbidden : Kind → Bool) (name : String) (count : Nat) : Prop where
  agrees : file.Agrees forbidden name count
  largest : (∃ index code, file.Initializes name index code) → ∀ more, file.Agrees forbidden name more → more ≤ count
  idle : (∀ index code, ¬ file.Initializes name index code) → count = 0
  uncalled : ∀ index code, file.Initializes name index code →
    (∀ position owner, ¬ FirstAt (Constructs file.pool code.store) code.statements position owner) → count = 0
  bodies : ∀ index code declared, file.Initializes name index code → file.methods[index]? = some declared →
    ∃ position, (0 < count → ∃ owner, FirstAt (Constructs file.pool code.store) code.statements position owner) ∧
      after.methods[index]? = some { declared with code := some (code.without (position + 1) count) }
  others : ∀ index, (∀ code, ¬ file.Initializes name index code) → after.methods[index]? = file.methods[index]?
  values : ∀ index code, file.Initializes name index code → (∀ earlier < index, ∀ code, ¬ file.Initializes name earlier code) →
    ∀ offset < count, ∀ write declared, file.InitialAt forbidden name code offset write →
    file.fields[write.field]? = some declared →
    after.fields[write.field]? = some { declared with initializer := some ⟨index, write.value⟩ }
  kept : ∀ field, (∀ index code offset value, file.Initializes name index code → offset < count →
    ¬ file.InitialAt forbidden name code offset ⟨field, value⟩) → after.fields[field]? = file.fields[field]?
  rest : { after with fields := file.fields, methods := file.methods } = file

theorem initializes_iff : file.Initializes name index code ↔
    file.constructorCode? index = some code ∧
      ∀ position, ¬ FirstAt (Constructs file.pool code.store) code.statements position name := by
  unfold constructorCode?
  constructor
  · rintro ⟨⟨declared, located, constructs, written, unflagged, body⟩, foreign⟩
    exact ⟨by simp [located, constructs, written, unflagged, body], foreign⟩
  · rintro ⟨counts, foreign⟩
    obtain ⟨declared, located, counts⟩ := Option.bind_eq_some_iff.mp counts
    split at counts
    · rename_i holds
      simp only [Bool.and_eq_true, Bool.not_eq_true'] at holds
      exact ⟨⟨declared, located, holds.1.1, holds.1.2, holds.2, counts⟩, foreign⟩
    · cases counts

theorem Initializes.code_unique (first : file.Initializes name index code) (second : file.Initializes name index otherCode) :
    code = otherCode :=
  Option.some.inj ((initializes_iff.mp first).1.symm.trans (initializes_iff.mp second).1)

theorem initialAt_iff (first : FirstAt (Constructs file.pool code.store) code.statements position owner) :
    file.InitialAt Kind.bindsLocally name code offset write ↔
      ∃ id, (code.statements.drop (position + 1))[offset]? = some id ∧
        file.CanLift name code.store (instanceTarget? code.store) acceptsInstance id write := by
  constructor
  · rintro ⟨⟨again, _, id, reference, object, second, located, writes, onThis, own⟩, declared, independent⟩
    obtain ⟨rfl, _⟩ := first.unique second fun _ _ _ => Constructs.unique
    refine ⟨id, by rwa [List.getElem?_drop], ⟨reference, ?_, own⟩, ?_, Store.dependsOnLocals_eq_false.mpr independent⟩
    · simp [writes, instanceTarget?, onThis]
    · obtain ⟨field, found, instance_⟩ := declared
      exact ⟨field, found, by simp [acceptsInstance, instance_]⟩
  · rintro ⟨id, located, ⟨reference, target, own⟩, ⟨field, found, accepted⟩, independent⟩
    obtain ⟨kind, writes, target⟩ := Option.bind_eq_some_iff.mp target
    rw [List.getElem?_drop] at located
    unfold instanceTarget? at target
    split at target
    · rename_i target' object value
      split at target
      · rename_i onThis
        cases target
        refine ⟨⟨position, owner, id, _, object, first, located, writes, onThis, own⟩, ⟨field, found, ?_⟩,
          Store.dependsOnLocals_eq_false.mp independent⟩
        simpa [acceptsInstance] using accepted
      · cases target
    · cases target

theorem CanLift.unique {store : Store} {target? : Kind → Option (PoolIndex × NodeId)} {accepts : Field → Bool} {id : NodeId}
    {other : InitialWrite} (first : file.CanLift name store target? accepts id write)
    (second : file.CanLift name store target? accepts id other) : write = other := by
  obtain ⟨field, value⟩ := write
  obtain ⟨again, other⟩ := other
  obtain ⟨⟨index, target, own⟩, _, _⟩ := first
  obtain ⟨⟨reference, retarget, reown⟩, _, _⟩ := second
  rw [target] at retarget
  cases retarget
  rw [own] at reown
  cases reown
  rfl

/-! ## The scan of the constructors -/

theorem initialWrites_longest {store : Store} {target? : Kind → Option (PoolIndex × NodeId)} {accepts : Field → Bool}
    {seen : List Nat} {statements : List NodeId} {writes : List InitialWrite}
    (ran : file.initialWrites name store target? accepts seen statements = .ok writes)
    (lifts : ∀ offset < count, ∃ id write, statements[offset]? = some id ∧ file.CanLift name store target? accepts id write ∧
      write.field ∉ seen)
    (distinct : ∀ one < count, ∀ other < count, ∀ first second firstWrite secondWrite, statements[one]? = some first →
      statements[other]? = some second → file.CanLift name store target? accepts first firstWrite →
      file.CanLift name store target? accepts second secondWrite → firstWrite.field = secondWrite.field → one = other) :
    count ≤ writes.length := by
  induction statements generalizing seen writes count with
  | nil =>
    cases count with
    | zero => exact Nat.zero_le _
    | succ count =>
      obtain ⟨_, _, located, _⟩ := lifts 0 (Nat.succ_pos _)
      cases located
  | cons statement rest continues =>
    cases count with
    | zero => exact Nat.zero_le _
    | succ count =>
      obtain ⟨_, write, located, canLift, unseen⟩ := lifts 0 (Nat.succ_pos _)
      cases located
      obtain ⟨⟨index, target, own⟩, accepted, independent⟩ := canLift
      unfold initialWrites at ran
      simp only [target] at ran
      obtain ⟨field, owned, ran⟩ := except_bind_ok.mp ran
      rw [own] at owned
      cases owned
      have goes : (!file.fields[write.field]?.any accepts || seen.contains write.field ||
          store.dependsOnLocals write.value) = false := by
        simpa [independent, unseen, Option.any_eq_true] using accepted
      simp only [goes, Bool.false_eq_true, if_false] at ran
      obtain ⟨others, later, same⟩ := except_bind_ok.mp ran
      cases same
      refine Nat.succ_le_succ (continues later ?_ ?_)
      · intro offset inside
        obtain ⟨id, other, located, canLift, fresh⟩ := lifts (offset + 1) (Nat.succ_lt_succ inside)
        refine ⟨id, other, located, canLift, ?_⟩
        rw [List.mem_cons, not_or]
        refine ⟨fun same => ?_, fresh⟩
        have := distinct 0 (Nat.succ_pos _) (offset + 1) (Nat.succ_lt_succ inside) _ _ write other rfl located
          ⟨⟨index, target, own⟩, accepted, independent⟩ canLift same.symm
        cases this
      · intro one insideOne other insideOther first second firstWrite secondWrite there here liftsFirst liftsSecond same
        exact Nat.succ.inj (distinct (one + 1) (Nat.succ_lt_succ insideOne) (other + 1) (Nat.succ_lt_succ insideOther) _ _ _ _
          there here liftsFirst liftsSecond same)

theorem constructorCall?_some {pool : Pool} {store : Store} {base found : Nat} {statements : List NodeId}
    (ran : constructorCall? pool store base statements = .ok (some (found, owner))) :
    ∃ position, found = base + position + 1 ∧ FirstAt (Constructs pool store) statements position owner := by
  induction statements generalizing base with
  | nil => cases ran
  | cons statement rest continues =>
    have passes (silent : ∀ owner, ¬ Constructs pool store statement owner)
        (ran : constructorCall? pool store (base + 1) rest = .ok (some (found, owner))) :
        ∃ position, found = base + position + 1 ∧ FirstAt (Constructs pool store) (statement :: rest) position owner := by
      obtain ⟨position, rfl, first⟩ := continues ran
      exact ⟨position + 1, by omega, .later silent first⟩
    unfold constructorCall? at ran
    split at ran
    · rename_i notCalled
      refine passes (fun owner ⟨_, _, _, calls, _⟩ => ?_) ran
      rw [notCalled] at calls
      cases calls
    · rename_i method arguments calls
      obtain ⟨called, read, ran⟩ := except_bind_ok.mp ran
      split at ran
      · rename_i constructs
        cases ran
        exact ⟨0, rfl, .here ⟨method, arguments, called, calls, read, by simpa using constructs, rfl⟩⟩
      · rename_i ordinary
        refine passes (fun owner ⟨_, _, _, recalls, reread, constructs, _⟩ => ?_) ran
        rw [calls] at recalls
        cases recalls
        rw [read] at reread
        cases reread
        simp [constructs] at ordinary

theorem constructorCall?_none {pool : Pool} {store : Store} {base : Nat} {statements : List NodeId}
    (ran : constructorCall? pool store base statements = .ok none) :
    ¬ FirstAt (Constructs pool store) statements position owner := by
  induction statements generalizing base position with
  | nil => exact nofun
  | cons statement rest continues =>
    unfold constructorCall? at ran
    split at ran
    · rename_i notCalled
      intro first
      cases first with
      | here constructs =>
        obtain ⟨_, _, _, calls, _⟩ := constructs
        simp [notCalled] at calls
      | later _ first => exact continues ran first
    · rename_i method arguments calls
      obtain ⟨called, read, ran⟩ := except_bind_ok.mp ran
      split at ran
      · cases ran
      · rename_i ordinary
        intro first
        cases first with
        | here constructs =>
          obtain ⟨_, _, _, recalls, reread, constructs, _⟩ := constructs
          rw [calls] at recalls
          cases recalls
          rw [read] at reread
          cases reread
          simp [constructs] at ordinary
        | later _ first => exact continues ran first

structure Opened (file : ClassFile) (name : String) (constructor : Constructor) (code : Code) : Prop where
  initializes : file.Initializes name constructor.method code
  called : ∃ position owner, constructor.position = position + 1 ∧
    FirstAt (Constructs file.pool code.store) code.statements position owner
  store : constructor.store = code.store
  collected : file.initialWrites name code.store (instanceTarget? code.store) acceptsInstance []
    (code.statements.drop constructor.position) = .ok constructor.writes

theorem Gathered.opened {constructor : Constructor} (gathered : file.Gathered name constructor code) :
    file.Opened name constructor code := by
  obtain ⟨owner, foreign, sought⟩ := gathered.calls
  obtain ⟨position, behind, first⟩ := constructorCall?_some sought
  refine ⟨initializes_iff.mpr ⟨gathered.counts, fun again second => ?_⟩, ⟨position, owner, by omega, first⟩, gathered.store,
    gathered.collected⟩
  exact foreign (first.unique second fun _ _ _ => Constructs.unique).2

theorem Scans.lists {indices : List Nat} {found : List Constructor} (scans : file.Scans name indices found) :
    ∀ index ∈ indices, ∀ code, file.Initializes name index code → ∃ constructor ∈ found, constructor.method = index := by
  induction scans with
  | nil => exact fun _ member => nomatch member
  | skip absent _ continues =>
    refine List.forall_mem_cons.mpr ⟨fun code initializes => ?_, continues⟩
    cases absent.symm.trans (initializes_iff.mp initializes).1
  | delegate counts calls _ continues =>
    refine List.forall_mem_cons.mpr ⟨fun code initializes => ?_, continues⟩
    obtain ⟨same, foreign⟩ := initializes_iff.mp initializes
    cases counts.symm.trans same
    obtain ⟨position, _, first⟩ := constructorCall?_some calls
    exact absurd first (foreign position)
  | take gathered _ continues =>
    refine List.forall_mem_cons.mpr ⟨fun _ _ => ⟨_, List.mem_cons_self, rfl⟩, fun index among code initializes => ?_⟩
    obtain ⟨constructor, member, same⟩ := continues index among code initializes
    exact ⟨constructor, List.mem_cons_of_mem _ member, same⟩

theorem constructors?_some {indices : List Nat} {found : List Constructor}
    (ran : file.constructors? name indices = .ok (some found)) :
    (∀ constructor ∈ found, ∃ code, file.Opened name constructor code) ∧
      ∀ index ∈ indices, ∀ code, file.Initializes name index code → ∃ constructor ∈ found, constructor.method = index := by
  have scans := constructors?_scans ran
  refine ⟨fun constructor member => ?_, scans.lists⟩
  obtain ⟨code, gathered⟩ := scans.gathered constructor member
  exact ⟨code, gathered.opened⟩

theorem constructors?_none {indices : List Nat} (ran : file.constructors? name indices = .ok none) :
    ∃ index code, file.Initializes name index code ∧
      ∀ position owner, ¬ FirstAt (Constructs file.pool code.store) code.statements position owner := by
  induction indices with
  | nil => cases ran
  | cons index rest continues =>
    unfold constructors? at ran
    split at ran
    · exact continues ran
    · rename_i code counts
      obtain ⟨call, sought, ran⟩ := except_bind_ok.mp ran
      split at ran
      · split at ran
        · exact continues ran
        · obtain ⟨writes, collected, ran⟩ := except_bind_ok.mp ran
          obtain ⟨others, listed, same⟩ := except_bind_ok.mp ran
          cases others with
          | none => exact continues listed
          | some others => cases same
      · rename_i uncalled
        obtain rfl : call = none := by
          cases call with
          | none => rfl
          | some pair => exact (uncalled pair.1 pair.2 rfl).elim
        have silent (position : Nat) (owner : String) :
            ¬ FirstAt (Constructs file.pool code.store) code.statements position owner := constructorCall?_none sought
        exact ⟨index, code, initializes_iff.mpr ⟨counts, fun position => silent position name⟩, silent⟩

namespace Opened

variable {constructor : Constructor} (opened : file.Opened name constructor code)
include opened

theorem run : file.Run name code.store (instanceTarget? code.store) acceptsInstance
    (code.statements.drop constructor.position) constructor.writes :=
  (initialWrites_ok opened.collected).1

theorem initialAt_iff : file.InitialAt Kind.bindsLocally name code offset write ↔
    ∃ id, (code.statements.drop constructor.position)[offset]? = some id ∧
      file.CanLift name code.store (instanceTarget? code.store) acceptsInstance id write := by
  obtain ⟨position, owner, same, first⟩ := opened.called
  rw [same]
  exact ClassFile.initialAt_iff first

theorem initialAt (located : constructor.writes[offset]? = some write) :
    file.InitialAt Kind.bindsLocally name code offset write :=
  opened.initialAt_iff.mpr (opened.run.statement located)

theorem located {found : InitialWrite} (collected : constructor.writes[offset]? = some found)
    (initial : file.InitialAt Kind.bindsLocally name code offset write) : found = write := by
  obtain ⟨id, there, canLift⟩ := opened.run.statement collected
  obtain ⟨again, here, lifts⟩ := opened.initialAt_iff.mp initial
  cases there.symm.trans here
  exact canLift.unique lifts

theorem offset_unique {other : Nat} {first second : InitialWrite} (one : constructor.writes[offset]? = some first)
    (two : constructor.writes[other]? = some second) (same : first.field = second.field) : offset = other := by
  have inside : offset < (constructor.writes.map InitialWrite.field).length := by
    simpa using (List.getElem?_eq_some_iff.mp one).1
  refine (List.getElem?_inj inside opened.run.distinct).mp ?_
  simp [one, two, same]

theorem le_length (agrees : file.Agrees Kind.bindsLocally name count) : count ≤ constructor.writes.length := by
  refine initialWrites_longest opened.collected (fun offset inside => ?_) ?_
  · obtain ⟨field, each⟩ := agrees.writes offset inside
    obtain ⟨value, initial⟩ := each _ _ opened.initializes
    obtain ⟨id, located, canLift⟩ := opened.initialAt_iff.mp initial
    exact ⟨id, _, located, canLift, by simp⟩
  · intro one insideOne other insideOther first second firstWrite secondWrite there here liftsFirst liftsSecond
    exact agrees.distinct _ _ opened.initializes one insideOne other insideOther firstWrite secondWrite
      (opened.initialAt_iff.mpr ⟨first, there, liftsFirst⟩) (opened.initialAt_iff.mpr ⟨second, here, liftsSecond⟩)

end Opened

/-! ## How far the constructors agree -/

theorem le_length_takeWhile_iff {α : Type} {accepts : α → Bool} {elements : List α} :
    count ≤ (elements.takeWhile accepts).length ↔
      ∀ offset < count, ∃ element, elements[offset]? = some element ∧ accepts element = true := by
  induction elements generalizing count with
  | nil =>
    simp only [List.takeWhile_nil, List.length_nil, List.getElem?_nil, reduceCtorEq, false_and, exists_false]
    exact ⟨fun none offset inside => by omega, fun every => Nat.not_lt.mp fun inside => every 0 inside⟩
  | cons element rest continues =>
    cases count with
    | zero => simp
    | succ count =>
      rw [Nat.forall_lt_succ_left]
      by_cases accepted : accepts element = true
      · simp [accepted, continues]
      · simp [accepted]

theorem le_commonWrites_iff {one other : Constructor} :
    count ≤ commonWrites one other ↔ ∀ offset < count, ∃ first second, one.writes[offset]? = some first ∧
      other.writes[offset]? = some second ∧ first.field = second.field ∧
      one.store.equalAcross first.value other.store second.value = true := by
  unfold commonWrites
  rw [le_length_takeWhile_iff]
  refine forall₂_congr fun offset inside => ?_
  simp only [List.getElem?_zip_eq_some, Bool.and_eq_true, beq_iff_eq, Prod.exists]
  grind

theorem le_foldl_common_iff (first : Constructor) (others : List Constructor) (bound : Nat) :
    count ≤ others.foldl (fun count other => min count (commonWrites first other)) bound ↔
      count ≤ bound ∧ ∀ other ∈ others, count ≤ commonWrites first other := by
  induction others generalizing bound with
  | nil => simp
  | cons other rest continues =>
    simp only [List.foldl_cons, continues, Nat.le_min, List.mem_cons, forall_eq_or_imp]
    exact and_assoc

structure Scanned (file : ClassFile) (name : String) (first : Constructor) (others : List Constructor) (count : Nat) : Prop where
  opened : ∀ constructor ∈ first :: others, ∃ code, file.Opened name constructor code
  found : ∀ index code, file.Initializes name index code → ∃ constructor ∈ first :: others, constructor.method = index
  ascending : ((first :: others).map Constructor.method).Pairwise (· < ·)
  common : ∀ more, more ≤ count ↔ more ≤ first.writes.length ∧ ∀ other ∈ others, more ≤ commonWrites first other

namespace Scanned

variable {first constructor : Constructor} {others : List Constructor} (scanned : file.Scanned name first others count)
include scanned

theorem methods_nodup : ((first :: others).map Constructor.method).Nodup := scanned.ascending.imp Nat.ne_of_lt

theorem opened_of_initializes (initializes : file.Initializes name index code) :
    ∃ constructor ∈ first :: others, constructor.method = index ∧ file.Opened name constructor code := by
  obtain ⟨constructor, member, rfl⟩ := scanned.found index code initializes
  obtain ⟨found, opened⟩ := scanned.opened constructor member
  cases opened.initializes.code_unique initializes
  exact ⟨constructor, member, rfl, opened⟩

theorem shared (member : constructor ∈ first :: others) (inside : offset < count) :
    ∃ write value, first.writes[offset]? = some write ∧ constructor.writes[offset]? = some ⟨write.field, value⟩ ∧
      (constructor = first ∨ first.store.equalAcross write.value constructor.store value = true) := by
  obtain ⟨bound, each⟩ := (scanned.common count).mp (Nat.le_refl _)
  rcases List.mem_cons.mp member with rfl | member
  · exact ⟨_, _, List.getElem?_eq_getElem (Nat.lt_of_lt_of_le inside bound),
      List.getElem?_eq_getElem (Nat.lt_of_lt_of_le inside bound), .inl rfl⟩
  · obtain ⟨write, ⟨field, value⟩, here, there, rfl, equal⟩ := le_commonWrites_iff.mp (each _ member) offset inside
    exact ⟨write, value, here, there, .inr equal⟩

theorem agrees : file.Agrees Kind.bindsLocally name count where
  writes := by
    intro offset inside
    obtain ⟨write, _, here, _, _⟩ := scanned.shared List.mem_cons_self inside
    refine ⟨write.field, fun index code initializes => ?_⟩
    obtain ⟨constructor, member, _, opened⟩ := scanned.opened_of_initializes initializes
    obtain ⟨again, value, there, located, _⟩ := scanned.shared member inside
    cases here.symm.trans there
    exact ⟨value, opened.initialAt located⟩
  distinct := by
    intro index code initializes one insideOne other insideOther left right initialOne initialOther same
    obtain ⟨constructor, member, _, opened⟩ := scanned.opened_of_initializes initializes
    obtain ⟨_, _, _, locatedOne, _⟩ := scanned.shared member insideOne
    obtain ⟨_, _, _, locatedOther, _⟩ := scanned.shared member insideOther
    refine opened.offset_unique locatedOne locatedOther ?_
    rw [opened.located locatedOne initialOne, opened.located locatedOther initialOther, same]
  equal := by
    intro offset inside index code other otherCode initializes reinitializes apart left right initialLeft initialRight
    obtain ⟨constructor, member, rfl, opened⟩ := scanned.opened_of_initializes initializes
    obtain ⟨another, among, rfl, reopened⟩ := scanned.opened_of_initializes reinitializes
    obtain ⟨write, _, here, locatedLeft, equalLeft⟩ := scanned.shared member inside
    obtain ⟨again, _, there, locatedRight, equalRight⟩ := scanned.shared among inside
    cases here.symm.trans there
    cases opened.located locatedLeft initialLeft
    cases reopened.located locatedRight initialRight
    rw [← opened.store, ← reopened.store]
    -- Two constructors are compared through the first one, unless one of them is the first.
    rcases equalLeft with rfl | equalLeft
    · rcases equalRight with rfl | equalRight
      · exact absurd rfl apart
      · have same := congrArg InitialWrite.value (Option.some.inj (here.symm.trans locatedLeft))
        rwa [same] at equalRight
    · rcases equalRight with rfl | equalRight
      · have same := congrArg InitialWrite.value (Option.some.inj (there.symm.trans locatedRight))
        rw [same] at equalLeft
        exact Store.equalAcross_symm equalLeft
      · exact Store.equalAcross_trans (Store.equalAcross_symm equalLeft) equalRight

theorem largest {more : Nat} (agrees : file.Agrees Kind.bindsLocally name more) : more ≤ count := by
  obtain ⟨code, opened⟩ := scanned.opened first List.mem_cons_self
  refine (scanned.common more).mpr ⟨opened.le_length agrees, fun other member => le_commonWrites_iff.mpr fun offset inside => ?_⟩
  obtain ⟨otherCode, reopened⟩ := scanned.opened other (List.mem_cons_of_mem _ member)
  have apart : first.method ≠ other.method := by
    intro same
    have nodup := scanned.methods_nodup
    rw [List.map_cons, List.nodup_cons] at nodup
    exact nodup.1 (same ▸ List.mem_map_of_mem member)
  have here := List.getElem?_eq_getElem (Nat.lt_of_lt_of_le inside (opened.le_length agrees))
  have there := List.getElem?_eq_getElem (Nat.lt_of_lt_of_le inside (reopened.le_length agrees))
  refine ⟨_, _, here, there, ?_, ?_⟩
  · obtain ⟨field, each⟩ := agrees.writes offset inside
    obtain ⟨value, initial⟩ := each _ _ opened.initializes
    obtain ⟨revalue, reinitial⟩ := each _ _ reopened.initializes
    rw [opened.located here initial, reopened.located there reinitial]
  · rw [opened.store, reopened.store]
    exact agrees.equal offset inside _ _ _ _ opened.initializes reopened.initializes apart _ _ (opened.initialAt here)
      (reopened.initialAt there)

end Scanned

/-! ## What changes -/

theorem find?_key {α : Type} {key : α → Nat} {elements : List α} {element : α} (distinct : (elements.map key).Nodup)
    (member : element ∈ elements) : elements.find? (key · == key element) = some element := by
  obtain ⟨other, found⟩ : ∃ other, elements.find? (key · == key element) = some other :=
    Option.isSome_iff_exists.mp (List.find?_isSome.mpr ⟨element, member, by simp⟩)
  have same : key other = key element := by simpa using List.find?_some found
  rw [found, List.inj_on_of_nodup_map distinct (List.mem_of_find?_eq_some found) member same]

theorem dropCommon_methods {constructors : List Constructor} (distinct : (constructors.map Constructor.method).Nodup) :
    (file.dropCommon count constructors).methods[index]? =
      match constructors.find? (·.method == index) with
      | none => file.methods[index]?
      | some constructor => file.methods[index]?.map fun declared =>
        { declared with code := declared.code.map (Code.without constructor.position count) } := by
  induction constructors generalizing file with
  | nil => rfl
  | cons constructor rest continues =>
    obtain ⟨apart, distinct⟩ := List.nodup_cons.mp distinct
    refine (continues distinct).trans ?_
    rw [List.find?_cons]
    by_cases here : constructor.method = index
    · have absent : rest.find? (·.method == index) = none :=
        List.find?_eq_none.mpr fun other member same => apart (List.mem_map.mpr ⟨other, member, by simpa [here] using same⟩)
      simp only [absent, here, beq_self_eq_true, dropStatements, modifyMethod, Array.getElem?_modify, if_true]
      rfl
    · have other : (constructor.method == index) = false := by simpa using here
      simp only [other, dropStatements, modifyMethod, Array.getElem?_modify, here, if_false]

theorem setInitializers_rest (file : ClassFile) (method : Nat) (writes : List InitialWrite) :
    { file.setInitializers method writes with fields := file.fields } = file := by
  induction writes generalizing file with
  | nil => rfl
  | cons write rest continues =>
    have step := continues (file.modifyField write.field fun field => { field with initializer := some ⟨method, write.value⟩ })
    exact congrArg (fun changed : ClassFile => { changed with fields := file.fields }) step

theorem dropCommon_rest (file : ClassFile) (count : Nat) (constructors : List Constructor) :
    { file.dropCommon count constructors with methods := file.methods } = file := by
  induction constructors generalizing file with
  | nil => rfl
  | cons constructor rest continues =>
    have step := continues (file.dropStatements constructor.method constructor.position count)
    exact congrArg (fun changed : ClassFile => { changed with methods := file.methods }) step

theorem Code.without_zero (code : Code) (position : Nat) : code.without position 0 = code := by
  simp [Code.without]

theorem lifts_nothing {forbidden : Kind → Bool} (largest : (∃ index code, file.Initializes name index code) →
    ∀ more, file.Agrees forbidden name more → more = 0) : file.Lifts file forbidden name 0 where
  agrees := by
    constructor
    · exact fun _ inside => absurd inside (Nat.not_lt_zero _)
    · exact fun _ _ _ _ inside => absurd inside (Nat.not_lt_zero _)
    · exact fun _ inside => absurd inside (Nat.not_lt_zero _)
  largest some more agrees := (largest some more agrees).le
  idle _ := rfl
  uncalled _ _ _ _ := rfl
  bodies index code declared initializes located := by
    obtain ⟨⟨again, relocated, _, _, _, body⟩, _⟩ := initializes
    cases located.symm.trans relocated
    refine ⟨0, nofun, ?_⟩
    rw [Code.without_zero, ← body, located]
  others _ _ := rfl
  values _ _ _ _ _ inside := absurd inside (Nat.not_lt_zero _)
  kept _ _ := rfl
  rest := rfl

theorem Scanned.lifts {first : Constructor} {others : List Constructor} (scanned : file.Scanned name first others count) :
    file.Lifts ((file.setInitializers first.method (first.writes.take count)).dropCommon count (first :: others))
      Kind.bindsLocally name count where
  agrees := scanned.agrees
  largest _ _ := scanned.largest
  idle none := by
    obtain ⟨code, opened⟩ := scanned.opened first List.mem_cons_self
    exact absurd opened.initializes (none _ _)
  uncalled index code initializes silent := by
    obtain ⟨_, _, _, opened⟩ := scanned.opened_of_initializes initializes
    obtain ⟨position, owner, _, called⟩ := opened.called
    exact absurd called (silent position owner)
  bodies index code declared initializes located := by
    obtain ⟨constructor, member, rfl, opened⟩ := scanned.opened_of_initializes initializes
    obtain ⟨position, owner, same, called⟩ := opened.called
    obtain ⟨⟨again, relocated, _, _, _, body⟩, _⟩ := initializes
    cases located.symm.trans relocated
    refine ⟨position, fun _ => ⟨owner, called⟩, ?_⟩
    rw [dropCommon_methods scanned.methods_nodup, find?_key scanned.methods_nodup member]
    simp [located, body, same]
  others index none := by
    have absent : (first :: others).find? (·.method == index) = Option.none := by
      refine List.find?_eq_none.mpr fun constructor member here => ?_
      obtain ⟨code, opened⟩ := scanned.opened constructor member
      obtain rfl : constructor.method = index := by simpa using here
      exact none code opened.initializes
    rw [dropCommon_methods scanned.methods_nodup, absent, setInitializers_methods]
  values index code initializes least offset inside write declared initial located := by
    obtain ⟨constructor, member, rfl, opened⟩ := scanned.opened_of_initializes initializes
    -- The constructor with the least number is the first one.
    obtain rfl : constructor = first := by
      rcases List.mem_cons.mp member with same | later
      · exact same
      · obtain ⟨firstCode, reopened⟩ := scanned.opened first List.mem_cons_self
        have ascending := scanned.ascending
        rw [List.map_cons, List.pairwise_cons] at ascending
        exact absurd reopened.initializes (least _ (ascending.1 _ (List.mem_map_of_mem later)) _)
    obtain ⟨_, _, here, _, _⟩ := scanned.shared List.mem_cons_self inside
    cases opened.located here initial
    have distinct := opened.run.distinct.sublist ((List.take_sublist count _).map _)
    have among : write ∈ constructor.writes.take count :=
      List.mem_of_getElem? (by rw [List.getElem?_take, if_pos inside, here])
    rw [dropCommon_fields, setInitializers_fields _ _ _ distinct, located, find?_key distinct among]
    rfl
  kept field none := by
    obtain ⟨code, opened⟩ := scanned.opened first List.mem_cons_self
    have absent : (first.writes.take count).find? (·.field == field) = Option.none := by
      refine List.find?_eq_none.mpr fun write member here => ?_
      obtain ⟨offset, located⟩ := List.mem_iff_getElem?.mp member
      rw [List.getElem?_take] at located
      split at located
      · rename_i inside
        obtain rfl : write.field = field := by simpa using here
        exact none _ _ offset write.value opened.initializes inside (opened.initialAt located)
      · cases located
    rw [dropCommon_fields, setInitializers_fields _ _ _ (opened.run.distinct.sublist ((List.take_sublist _ _).map _)), absent]
    simp
  rest := by
    have bodies := dropCommon_rest (file.setInitializers first.method (first.writes.take count)) count (first :: others)
    have fields := setInitializers_rest file first.method (first.writes.take count)
    rw [← bodies] at fields
    simpa using fields

/-- Lifting fails without a trace, or it lifts exactly the writes that the constructors have in common. -/
theorem liftInstanceInitializers_exact (file : ClassFile) :
    (∀ error, file.liftInstanceInitializers = .error error → ∀ table id, table.get? id = some file →
      Stage.liftInstances.perform table id = .ok (table, [.instanceInitializers error])) ∧
    ∀ after, file.liftInstanceInitializers = .ok after →
      ∃ name count, file.name = .ok name ∧ file.Lifts after Kind.bindsLocally name count := by
  constructor
  · intro error failed table id found
    change table.update id (fun file => .ok (file.tryLift liftInstanceInitializers .instanceInitializers)) = _
    unfold ClassTable.update
    simp only [found, tryLift, failed]
    change Except.ok (table.set id file, _) = _
    rw [ClassTable.set_get? found]
  · intro after ran
    unfold liftInstanceInitializers at ran
    obtain ⟨name, named, ran⟩ := except_bind_ok.mp ran
    obtain ⟨found, scanned, ran⟩ := except_bind_ok.mp ran
    refine ⟨name, ?_⟩
    split at ran
    · rename_i constructors
      obtain ⟨each, every⟩ := constructors?_some scanned
      have listed (index : Nat) (code : Code) (initializes : file.Initializes name index code) :
          ∃ constructor ∈ constructors, constructor.method = index := by
        obtain ⟨declared, located, _⟩ := initializes.method
        exact every index (by simpa using (Array.getElem?_eq_some_iff.mp located).1) code initializes
      split at ran
      · rename_i first others
        cases ran
        have ascending := List.Pairwise.sublist (constructors?_ok scanned).2 List.pairwise_lt_range
        exact ⟨_, named, Scanned.lifts ⟨each, listed, ascending, fun more => le_foldl_common_iff first others _⟩⟩
      · rename_i none
        cases ran
        refine ⟨0, named, lifts_nothing fun ⟨index, code, initializes⟩ => ?_⟩
        obtain ⟨constructor, member, _⟩ := listed index code initializes
        cases constructors with
        | nil => cases member
        | cons first others => exact (none first others rfl).elim
    · rename_i uncalled
      cases ran
      obtain rfl : found = none := by
        cases found with
        | none => rfl
        | some constructors => exact (uncalled constructors rfl).elim
      -- A constructor without a constructor call has no statements behind one.
      obtain ⟨index, code, initializes, silent⟩ := constructors?_none scanned
      refine ⟨0, named, lifts_nothing fun _ more agrees => Nat.eq_zero_of_not_pos fun positive => ?_⟩
      obtain ⟨field, every⟩ := agrees.writes 0 positive
      obtain ⟨value, ⟨position, owner, _, _, _, first, _⟩, _⟩ := every index code initializes
      exact silent position owner first

/-! Constructors of a class with an instance field `id` and a static field `next`. -/

/-- `super(); this.id = value; return`, where `value` may read `next`. -/
def numbering (value : Kind) (statements : List NodeId) : Code where
  store := ⟨#[⟨0, none, .read (.slot .reference 0)⟩, ⟨1, none, .call .special 15 (some 0) []⟩,
    ⟨4, none, .read (.slot .reference 0)⟩, ⟨5, none, .read (.static 9)⟩, ⟨8, none, value⟩, ⟨9, none, .write (.field 6 2) 4⟩,
    ⟨12, none, .ret none⟩]⟩
  maxLocals := 1
  statements := statements

def numbered (initializer : Option Initializer) (bodies : List Code) : ClassFile where
  thisIndex := 2
  superIndex := 13
  pool := ⟨#[none, some (.utf8 "a/Main"), some (.classInfo 1), some (.utf8 "id"), some (.utf8 "I"), some (.nameAndType 3 4),
    some (.fieldRef 2 5), some (.utf8 "next"), some (.nameAndType 7 4), some (.fieldRef 2 8), some (.utf8 "<init>"),
    some (.utf8 "()V"), some (.utf8 "java/lang/Object"), some (.classInfo 12), some (.nameAndType 10 11),
    some (.methodRef 13 14)]⟩
  fields := #[{ nameIndex := 3, descriptorIndex := 4, initializer }, { access := ⟨8⟩, nameIndex := 7, descriptorIndex := 4 }]
  methods := (bodies.map fun code => { nameIndex := 10, descriptorIndex := 11, code := some code }).toArray

def sevens (initializer : Option Initializer) (statements : List NodeId) : ClassFile :=
  numbered initializer [numbering (.literal (.int 7)) statements, numbering (.literal (.int 7)) statements]

def sevensConstructor (method : Nat) : Constructor :=
  ⟨method, 1, [⟨0, 4⟩], (numbering (.literal (.int 7)) [1, 5, 6]).store⟩

theorem sevens_commonWrites : commonWrites (sevensConstructor 0) (sevensConstructor 1) = 1 := by
  have equal : (sevensConstructor 0).store.equalAcross 4 (sevensConstructor 1).store 4 = true :=
    Store.equalAcross_iff_within.mpr ⟨1, by decide⟩
  change (List.takeWhile _ [((⟨0, 4⟩ : InitialWrite), (⟨0, 4⟩ : InitialWrite))]).length = 1
  rw [List.takeWhile_cons_of_pos (by exact equal)]
  rfl

theorem sevens_liftInstanceInitializers :
    (sevens none [1, 5, 6]).liftInstanceInitializers = .ok (sevens (some ⟨0, 4⟩) [1, 6]) := by
  have found : (sevens none [1, 5, 6]).constructors? "a/Main" [0, 1] = .ok (some [sevensConstructor 0, sevensConstructor 1]) := by
    with_unfolding_all rfl
  refine except_bind_ok.mpr ⟨"a/Main", by with_unfolding_all rfl, except_bind_ok.mpr ⟨_, found, ?_⟩⟩
  simp only [List.foldl_cons, List.foldl_nil, sevens_commonWrites]
  with_unfolding_all rfl

/-- Two constructors that both start with `this.id = 7`. -/
theorem sevens_lifts :
    ∃ name count, (sevens none [1, 5, 6]).liftInstanceInitializers = .ok (sevens (some ⟨0, 4⟩) [1, 6]) ∧
      (sevens none [1, 5, 6]).Lifts (sevens (some ⟨0, 4⟩) [1, 6]) Kind.bindsLocally name count := by
  obtain ⟨name, count, _, lifts⟩ := (liftInstanceInitializers_exact _).2 _ sevens_liftInstanceInitializers
  exact ⟨name, count, sevens_liftInstanceInitializers, lifts⟩

def serial : ClassFile := numbered none [numbering (.increment .post 3 1) [1, 5, 6]]

theorem serial_initializes (initializes : serial.Initializes name index code) :
    index = 0 ∧ code = numbering (.increment .post 3 1) [1, 5, 6] := by
  obtain ⟨⟨declared, located, _, _, _, body⟩, _⟩ := initializes
  have inside : index < 1 := (Array.getElem?_eq_some_iff.mp located).1
  obtain rfl : index = 0 := Nat.lt_one_iff.mp inside
  cases located
  cases body
  exact ⟨rfl, rfl⟩

theorem serial_call :
    FirstAt (Constructs serial.pool (numbering (.increment .post 3 1) [1, 5, 6]).store) [1, 5, 6] 0 "java/lang/Object" :=
  .here ⟨15, [], _, by with_unfolding_all rfl, by with_unfolding_all rfl, rfl, rfl⟩

/-- `this.id = next++` reads no local, and all constructors start with it, but it stays in the constructor. -/
theorem serial_stays :
    ∃ after, serial.liftInstanceInitializers = .ok after ∧
      ¬ ∃ name count, serial.name = .ok name ∧ serial.Lifts after Kind.readsLocal name count := by
  refine ⟨serial, by with_unfolding_all rfl, ?_⟩
  rintro ⟨name, count, named, lifts⟩
  obtain rfl : "a/Main" = name := Except.ok.inj (.trans (by with_unfolding_all rfl) named)
  have initializes : serial.Initializes "a/Main" 0 (numbering (.increment .post 3 1) [1, 5, 6]) := by
    refine ⟨⟨_, rfl, by with_unfolding_all rfl, by decide, rfl, rfl⟩, fun position own => ?_⟩
    have same := (serial_call.unique own fun _ _ _ => Constructs.unique).2
    exact absurd same (by decide)
  have initial : serial.InitialAt Kind.readsLocal "a/Main" (numbering (.increment .post 3 1) [1, 5, 6]) 0 ⟨0, 4⟩ := by
    refine ⟨⟨0, _, 5, 6, 2, serial_call, rfl, rfl, by decide, by with_unfolding_all rfl⟩, ⟨_, rfl, by decide⟩, ?_⟩
    intro id among kind found
    have below : id ∈ [4, 3] := among
    simp only [List.mem_cons, List.not_mem_nil, or_false] at below
    rcases below with rfl | rfl <;> cases found <;> rfl
  have agrees : serial.Agrees Kind.readsLocal "a/Main" 1 := by
    constructor
    · intro offset inside
      obtain rfl := Nat.lt_one_iff.mp inside
      refine ⟨0, fun index code other => ⟨4, ?_⟩⟩
      obtain ⟨_, rfl⟩ := serial_initializes other
      exact initial
    · intro _ _ _ one insideOne other insideOther _ _ _ _ _
      rw [Nat.lt_one_iff.mp insideOne, Nat.lt_one_iff.mp insideOther]
    · intro _ _ one _ other _ first second apart
      exact absurd ((serial_initializes first).1.trans (serial_initializes second).1.symm) apart
  have positive : 0 < count := lifts.largest ⟨_, _, initializes⟩ 1 agrees
  have lifted := lifts.values 0 _ initializes (fun _ before => absurd before (Nat.not_lt_zero _)) 0 positive ⟨0, 4⟩ _ initial rfl
  cases lifted

end ClassFile

end ClassLift
