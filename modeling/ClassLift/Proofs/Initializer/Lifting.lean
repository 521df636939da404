import ClassLift.Proofs.Analysis.Evolution
import Mathlib.Data.List.Forall2

namespace ClassLift

def Code.without (position count : Nat) (code : Code) : Code :=
  { code with statements := code.statements.take position ++ code.statements.drop (position + count) }

namespace ClassFile

variable {file after : ClassFile} {className : String} {store : Store} {target? : Kind → Option (PoolIndex × NodeId)}
variable {accepts : Field → Bool} {seen : List Nat} {statements : List NodeId} {writes : List InitialWrite}

structure CanLift (file : ClassFile) (className : String) (store : Store) (target? : Kind → Option (PoolIndex × NodeId))
    (accepts : Field → Bool) (id : NodeId) (write : InitialWrite) : Prop where
  target : ∃ index, (store.kind? id).bind target? = some (index, write.value) ∧
    file.ownField? className index = .ok (some write.field)
  accepted : ∃ field, file.fields[write.field]? = some field ∧ accepts field = true
  independent : store.dependsOnLocals write.value = false

structure Run (file : ClassFile) (className : String) (store : Store) (target? : Kind → Option (PoolIndex × NodeId))
    (accepts : Field → Bool) (statements : List NodeId) (writes : List InitialWrite) : Prop where
  split : ∃ run rest, statements = run ++ rest ∧ List.Forall₂ (file.CanLift className store target? accepts) run writes
  distinct : (writes.map InitialWrite.field).Nodup

theorem initialWrites_ok (ran : file.initialWrites className store target? accepts seen statements = .ok writes) :
    file.Run className store target? accepts statements writes ∧ ∀ write ∈ writes, write.field ∉ seen := by
  have stops {seen : List Nat} {statements : List NodeId} :
      file.Run className store target? accepts statements [] ∧ ∀ write ∈ ([] : List InitialWrite), write.field ∉ seen :=
    ⟨⟨⟨[], statements, rfl, .nil⟩, .nil⟩, nofun⟩
  induction statements generalizing seen writes with
  | nil =>
    cases ran
    exact stops
  | cons id rest continues =>
    unfold initialWrites at ran
    split at ran
    · cases ran
      exact stops
    · rename_i index value isWrite
      obtain ⟨owned, own, ran⟩ := except_bind_ok.mp ran
      split at ran
      · rename_i field
        split at ran
        · cases ran
          exact stops
        · rename_i counts
          obtain ⟨others, later, same⟩ := except_bind_ok.mp ran
          cases same
          obtain ⟨⟨⟨run, rest, split, lifts⟩, distinct⟩, unseen⟩ := continues later
          simp only [Bool.or_eq_true, Bool.not_eq_true', not_or, Bool.not_eq_false, Bool.not_eq_true, Option.any_eq_true,
            List.contains_eq_mem, decide_eq_false_iff_not] at counts
          obtain ⟨⟨accepted, fresh⟩, independent⟩ := counts
          refine ⟨⟨⟨id :: run, rest, by rw [split, List.cons_append],
            .cons ⟨⟨index, isWrite, own⟩, accepted, independent⟩ lifts⟩, ?_⟩, ?_⟩
          · refine List.nodup_cons.mpr ⟨fun member => ?_, distinct⟩
            obtain ⟨write, among, same⟩ := List.mem_map.mp member
            exact unseen write among (same ▸ List.mem_cons_self)
          · intro write member
            rcases List.mem_cons.mp member with rfl | member
            · exact fresh
            · exact fun here => unseen write member (List.mem_cons_of_mem _ here)
      · cases ran
        exact stops

theorem Run.statement (run : file.Run className store target? accepts statements writes) {position : Nat} {write : InitialWrite}
    (located : writes[position]? = some write) :
    ∃ id, statements[position]? = some id ∧ file.CanLift className store target? accepts id write := by
  obtain ⟨⟨_, rest, rfl, lifts⟩, -⟩ := run
  induction lifts generalizing position with
  | nil => cases located
  | cons canLift _ continues =>
    cases position with
    | zero =>
      cases located
      exact ⟨_, rfl, canLift⟩
    | succ position => exact continues located

theorem Run.accepted (run : file.Run className store target? accepts statements writes) {write : InitialWrite}
    (member : write ∈ writes) : ∃ field, file.fields[write.field]? = some field ∧ accepts field = true := by
  obtain ⟨position, found⟩ := List.mem_iff_getElem?.mp member
  obtain ⟨_, _, canLift⟩ := run.statement found
  exact canLift.accepted

/-! ## Fields and bodies afterwards -/

theorem setInitializers_fields (file : ClassFile) (method index : Nat) (distinct : (writes.map InitialWrite.field).Nodup) :
    (file.setInitializers method writes).fields[index]? = file.fields[index]?.map fun field =>
      (writes.find? (·.field == index)).elim field fun write => { field with initializer := some ⟨method, write.value⟩ } := by
  induction writes generalizing file with
  | nil => simp [setInitializers]
  | cons write rest continues =>
    obtain ⟨apart, distinct⟩ := List.nodup_cons.mp distinct
    have step := continues (file.modifyField write.field fun field => { field with initializer := some ⟨method, write.value⟩ })
      distinct
    refine Eq.trans step ?_
    rw [modifyField, Array.getElem?_modify, List.find?_cons]
    by_cases here : write.field = index
    · have absent : rest.find? (·.field == index) = none :=
        List.find?_eq_none.mpr fun other member same => apart (List.mem_map.mpr ⟨other, member, by simpa [here] using same⟩)
      simp [here, absent, Function.comp_def]
    · have other : (write.field == index) = false := by simpa using here
      simp [here, other]

@[simp] theorem setInitializers_code? (file : ClassFile) (method index : Nat) (writes : List InitialWrite) :
    (file.setInitializers method writes).code? index = file.code? index := by
  rw [code?, setInitializers_methods, code?]

theorem dropStatements_code? (file : ClassFile) (method position count index : Nat) :
    (file.dropStatements method position count).code? index =
      if method = index then (file.code? index).map (Code.without position count) else file.code? index := by
  rw [code?, dropStatements, modifyMethod, Array.getElem?_modify]
  split
  · cases found : file.methods[index]? with
    | none => simp [code?, found]
    | some declared =>
      simp only [code?, found, Option.map_some, Option.bind_some]
      rfl
  · rfl

/-! ## The two stages -/

theorem staticTarget?_eq_some {kind : Kind} {index : PoolIndex} {value : NodeId}
    (found : staticTarget? kind = some (index, value)) : kind = .write (.static index) value := by
  unfold staticTarget? at found
  split at found
  · cases found
    rfl
  · cases found

theorem instanceTarget?_eq_some {kind : Kind} {index : PoolIndex} {value : NodeId}
    (found : instanceTarget? store kind = some (index, value)) : ∃ place, kind = .write place value := by
  unfold instanceTarget? at found
  split at found
  · split at found
    · cases found
      exact ⟨_, rfl⟩
    · cases found
  · cases found

theorem liftStaticInitializers_ok (ran : file.liftStaticInitializers = .ok after) :
    after = file ∨ ∃ method className code writes, file.staticInitializer? = some method ∧ file.name = .ok className ∧
      file.code? method = some code ∧ file.Run className code.store staticTarget? acceptsStatic code.statements writes ∧
      after = (file.setInitializers method writes).dropStatements method 0 writes.length := by
  unfold liftStaticInitializers at ran
  split at ran
  · rename_i method found
    obtain ⟨className, named, ran⟩ := except_bind_ok.mp ran
    split at ran
    · rename_i code body
      obtain ⟨writes, collected, ran⟩ := except_bind_ok.mp ran
      cases ran
      exact .inr ⟨method, className, code, writes, found, named, body, (initialWrites_ok collected).1, rfl⟩
    · cases ran
      exact .inl rfl
  · cases ran
    exact .inl rfl

structure Runs (file : ClassFile) (className : String) (constructor : Constructor) : Prop where
  body : ∃ code, file.constructorCode? constructor.method = some code ∧ constructor.store = code.store ∧
    file.Run className code.store (instanceTarget? code.store) acceptsInstance (code.statements.drop constructor.position)
      constructor.writes

theorem constructors?_ok {indices : List Nat} {found : List Constructor}
    (ran : file.constructors? className indices = .ok (some found)) :
    (∀ constructor ∈ found, file.Runs className constructor) ∧ (found.map Constructor.method).Sublist indices := by
  have scans := constructors?_scans ran
  refine ⟨fun constructor member => ?_, scans.sublist⟩
  obtain ⟨code, gathered⟩ := scans.gathered constructor member
  exact ⟨code, gathered.counts, gathered.store, (initialWrites_ok gathered.collected).1⟩

theorem commonWrites_le (one other : Constructor) : commonWrites one other ≤ other.writes.length := by
  refine Nat.le_trans (List.takeWhile_sublist _).length_le ?_
  rw [List.length_zip]
  exact Nat.min_le_right ..

theorem foldl_common_le (first : Constructor) (others : List Constructor) (bound : Nat) :
    others.foldl (fun count other => min count (commonWrites first other)) bound ≤ bound ∧
      ∀ other ∈ others, others.foldl (fun count other => min count (commonWrites first other)) bound ≤ other.writes.length := by
  induction others generalizing bound with
  | nil => exact ⟨Nat.le_refl _, nofun⟩
  | cons other rest continues =>
    obtain ⟨below, each⟩ := continues (min bound (commonWrites first other))
    refine ⟨Nat.le_trans below (Nat.min_le_left ..), fun constructor member => ?_⟩
    rcases List.mem_cons.mp member with rfl | member
    · exact Nat.le_trans below (Nat.le_trans (Nat.min_le_right ..) (commonWrites_le _ _))
    · exact each constructor member

def dropCommon (file : ClassFile) (count : Nat) (constructors : List Constructor) : ClassFile :=
  constructors.foldl (fun file constructor => file.dropStatements constructor.method constructor.position count) file

@[simp] theorem dropCommon_fields (file : ClassFile) (count : Nat) (constructors : List Constructor) :
    (file.dropCommon count constructors).fields = file.fields := by
  induction constructors generalizing file with
  | nil => rfl
  | cons constructor rest continues => exact continues _

theorem liftInstanceInitializers_ok (ran : file.liftInstanceInitializers = .ok after) :
    after = file ∨ ∃ className first others count, file.name = .ok className ∧
      (∀ constructor ∈ first :: others, file.Runs className constructor ∧ count ≤ constructor.writes.length) ∧
      ((first :: others).map Constructor.method).Nodup ∧
      after = (file.setInitializers first.method (first.writes.take count)).dropCommon count (first :: others) := by
  unfold liftInstanceInitializers at ran
  obtain ⟨className, named, ran⟩ := except_bind_ok.mp ran
  obtain ⟨found, scanned, ran⟩ := except_bind_ok.mp ran
  split at ran
  · split at ran
    · rename_i first others
      cases ran
      obtain ⟨runs, sublist⟩ := constructors?_ok scanned
      obtain ⟨below, each⟩ := foldl_common_le first others first.writes.length
      refine .inr ⟨className, first, others, _, named, fun constructor member => ⟨runs constructor member, ?_⟩,
        sublist.nodup List.nodup_range, rfl⟩
      rcases List.mem_cons.mp member with rfl | member
      · exact below
      · exact each constructor member
    · cases ran
      exact .inl rfl
  · cases ran
    exact .inl rfl

theorem dropCommon_code?_of_notMem {count index : Nat} {constructors : List Constructor}
    (apart : index ∉ constructors.map Constructor.method) :
    (file.dropCommon count constructors).code? index = file.code? index := by
  induction constructors generalizing file with
  | nil => rfl
  | cons constructor rest continues =>
    obtain ⟨other, apart⟩ := not_or.mp (List.mem_cons.not.mp apart)
    refine (continues apart).trans ?_
    rw [dropStatements_code?, if_neg (Ne.symm other)]

theorem dropCommon_code?_of_mem {count : Nat} {constructors : List Constructor} {constructor : Constructor}
    (distinct : (constructors.map Constructor.method).Nodup) (member : constructor ∈ constructors) :
    (file.dropCommon count constructors).code? constructor.method =
      (file.code? constructor.method).map (Code.without constructor.position count) := by
  induction constructors generalizing file with
  | nil => cases member
  | cons first rest continues =>
    obtain ⟨apart, distinct⟩ := List.nodup_cons.mp distinct
    rcases List.mem_cons.mp member with rfl | member
    · refine (dropCommon_code?_of_notMem apart).trans ?_
      rw [dropStatements_code?, if_pos rfl]
    · have other : first.method ≠ constructor.method := fun same => apart (List.mem_map.mpr ⟨constructor, member, same.symm⟩)
      refine (continues distinct member).trans ?_
      rw [dropStatements_code?, if_neg other]

theorem code?_of_constructorCode? {index : Nat} {code : Code} (found : file.constructorCode? index = some code) :
    file.code? index = some code := by
  obtain ⟨declared, located, counts⟩ := Option.bind_eq_some_iff.mp found
  split at counts
  · rw [code?, located]
    exact counts
  · cases counts

def Gains (file after : ClassFile) (field : Nat) (values : Initializer) : Prop :=
  ∃ old new, file.fields[field]? = some old ∧ after.fields[field]? = some new ∧ new.initializer = some values ∧
    old.initializer ≠ some values

theorem setInitializers_gains {method field : Nat} {values : Initializer} (distinct : (writes.map InitialWrite.field).Nodup)
    (gains : file.Gains (file.setInitializers method writes) field values) :
    ⟨field, values.value⟩ ∈ writes ∧ values.method = method := by
  obtain ⟨old, new, located, there, set, unset⟩ := gains
  rw [setInitializers_fields _ _ _ distinct, located, Option.map_some, Option.some_inj] at there
  cases taken : writes.find? (·.field == field) with
  | none =>
    rw [taken] at there
    cases there
    exact absurd set unset
  | some write =>
    rw [taken] at there
    subst there
    cases set
    have here : write.field = field := by simpa using List.find?_some taken
    exact ⟨here ▸ List.mem_of_find?_eq_some taken, rfl⟩

/-- What lifting takes from a body: a stretch of writes, among them those of all values that fields gain from it. -/
structure Takes (file after : ClassFile) (index : Nat) (code : Code) (position count : Nat) : Prop where
  rest : after.code? index = some (code.without position count)
  writes : ∀ offset < count, ∃ id place value, code.statements[position + offset]? = some id ∧
    code.store.kind? id = some (.write place value)
  gains : ∀ field value, file.Gains after field ⟨index, value⟩ → ∃ offset < count, ∃ id place,
    code.statements[position + offset]? = some id ∧ code.store.kind? id = some (.write place value)

theorem Takes.nothing {index : Nat} {code : Code} (same : after.code? index = some code)
    (gains : ∀ field value, ¬ file.Gains after field ⟨index, value⟩) : file.Takes after index code 0 0 :=
  ⟨by simp [same, Code.without], nofun, fun field value gained => absurd gained (gains field value)⟩

theorem Run.takes {index position count : Nat} {code : Code}
    (run : file.Run className code.store target? accepts (code.statements.drop position) writes) (bound : count ≤ writes.length)
    (recognized : ∀ kind reference value, target? kind = some (reference, value) → ∃ place, kind = .write place value)
    (rest : after.code? index = some (code.without position count))
    (gains : ∀ field value, file.Gains after field ⟨index, value⟩ → ⟨field, value⟩ ∈ writes.take count) :
    file.Takes after index code position count := by
  have isWrite {offset : Nat} {write : InitialWrite} (found : writes[offset]? = some write) :
      ∃ id place, code.statements[position + offset]? = some id ∧ code.store.kind? id = some (.write place write.value) := by
    obtain ⟨id, located, canLift⟩ := run.statement found
    obtain ⟨reference, isWrite, -⟩ := canLift.target
    obtain ⟨kind, kindFound, target⟩ := Option.bind_eq_some_iff.mp isWrite
    obtain ⟨place, rfl⟩ := recognized kind reference _ target
    rw [List.getElem?_drop] at located
    exact ⟨id, place, located, kindFound⟩
  refine ⟨rest, fun offset inside => ?_, fun field value gained => ?_⟩
  · obtain ⟨id, place, located, found⟩ := isWrite (List.getElem?_eq_getElem (Nat.lt_of_lt_of_le inside bound))
    exact ⟨id, place, _, located, found⟩
  · obtain ⟨offset, found⟩ := List.mem_iff_getElem?.mp (gains field value gained)
    rw [List.getElem?_take] at found
    split at found
    · rename_i inside
      obtain ⟨id, place, located, kindFound⟩ := isWrite found
      exact ⟨offset, inside, id, place, located, kindFound⟩
    · cases found

theorem not_gains_self (field : Nat) (values : Initializer) : ¬ file.Gains file field values := by
  rintro ⟨old, new, located, there, set, unset⟩
  cases located.symm.trans there
  exact unset set

theorem liftStaticInitializers_takes {index : Nat} {code : Code} (ran : file.liftStaticInitializers = .ok after)
    (body : file.code? index = some code) : ∃ position count, file.Takes after index code position count := by
  rcases liftStaticInitializers_ok ran with rfl | ⟨method, className, found, writes, -, -, located, run, rfl⟩
  · exact ⟨0, 0, .nothing body fun _ _ => not_gains_self _ _⟩
  by_cases here : method = index
  · subst here
    cases located.symm.trans body
    refine ⟨0, writes.length, run.takes (Nat.le_refl _) (fun _ _ _ target => ⟨_, staticTarget?_eq_some target⟩) ?_ ?_⟩
    · rw [dropStatements_code?, if_pos rfl, setInitializers_code?, body]
      rfl
    · intro field value gained
      rw [List.take_length]
      exact (setInitializers_gains run.distinct gained).1
  · refine ⟨0, 0, .nothing ?_ fun field value gained => ?_⟩
    · rw [dropStatements_code?, if_neg here, setInitializers_code?, body]
    · exact here (setInitializers_gains run.distinct gained).2.symm

theorem liftInstanceInitializers_takes {index : Nat} {code : Code} (ran : file.liftInstanceInitializers = .ok after)
    (body : file.code? index = some code) : ∃ position count, file.Takes after index code position count := by
  rcases liftInstanceInitializers_ok ran with rfl | ⟨className, first, others, count, -, runs, distinct, rfl⟩
  · exact ⟨0, 0, .nothing body fun _ _ => not_gains_self _ _⟩
  -- All constructors lose their common writes, but the values are those of the first one.
  have gained {field : Nat} {values : Initializer} (gains : file.Gains ((file.setInitializers first.method
      (first.writes.take count)).dropCommon count (first :: others)) field values) :
      ⟨field, values.value⟩ ∈ first.writes.take count ∧ values.method = first.method := by
    obtain ⟨⟨code, -, -, run⟩, -⟩ := runs first List.mem_cons_self
    obtain ⟨old, new, located, there, set, unset⟩ := gains
    rw [dropCommon_fields] at there
    exact setInitializers_gains (run.distinct.sublist ((List.take_sublist _ _).map _)) ⟨old, new, located, there, set, unset⟩
  by_cases listed : index ∈ (first :: others).map Constructor.method
  · obtain ⟨constructor, member, rfl⟩ := List.mem_map.mp listed
    obtain ⟨⟨found, counts, -, run⟩, below⟩ := runs constructor member
    cases (code?_of_constructorCode? counts).symm.trans body
    refine ⟨constructor.position, count, run.takes below (fun _ _ _ => instanceTarget?_eq_some) ?_ ?_⟩
    · rw [dropCommon_code?_of_mem distinct member, setInitializers_code?, body]
      rfl
    · intro field value gains
      obtain ⟨among, same⟩ := gained gains
      cases List.inj_on_of_nodup_map distinct member List.mem_cons_self same
      exact among
  · refine ⟨0, 0, .nothing ?_ fun field value gains => ?_⟩
    · rw [dropCommon_code?_of_notMem listed, setInitializers_code?, body]
    · exact listed (List.mem_map.mpr ⟨first, List.mem_cons_self, (gained gains).2.symm⟩)

end ClassFile

end ClassLift
