import ClassLift.Proofs.Analysis.Stage
import ClassLift.Proofs.Initializer.Mirror

/-!
# The order of an enum and lifted initializers

The field of all constants is read from its initial value if that was lifted, and from the first write to a field of its name
otherwise. Both give the same constants: lifting takes the first write of each field, and it takes nothing that the search for
a field of another name would stop at. `ClassFile.constants?` says what is read off a class without the marks that are left on
the way, and `enumValues_of_lifted` that lifting makes no difference.
-/

namespace ClassLift

namespace ClassFile

variable {lifts : Prop} {changes : String → Prop} {file before middle after : ClassFile} {className : String}

/-! ## The constants of a class -/

def valuesField? (file : ClassFile) (className : String) : Option Nat :=
  (file.findField? "$VALUES" ("[L" ++ className ++ ";")).or (file.findField? "ENUM$VALUES" ("[L" ++ className ++ ";"))

def listedConstants? (file : ClassFile) (className : String) (values : Initializer) :
    Except PoolError (Option (List PoolIndex)) := do
  let some code := file.code? values.method | return none
  match code.store.kind? values.value with
  | some (.call .static index _ _) =>
      let called ← file.pool.member index
      if called.owner != className || called.name != "$values" then return none
      let some method := file.findMethod? called.name called.descriptor | return none
      file.returnedConstants? method
  | _ => literalConstants? file.pool code.store values.value

def constants? (file : ClassFile) : Except PoolError (Option (List PoolIndex)) := do
  let className ← file.name
  let some index := file.valuesField? className | return none
  let some field := file.fields[index]? | return none
  let some values ← file.valuesOf? className field | return none
  file.listedConstants? className values

theorem run_read_bind {α β : Type} (result : Except PoolError α) (next : α → Decoding β) (file : ClassFile) :
    ((liftM result : Decoding α) >>= next) file =
      match result with
      | .ok value => next value file
      | .error error => (.error error, file) := by
  cases result <;> rfl

theorem enumConstants?_run (file : ClassFile) (className : String) (values : Initializer) :
    (enumConstants? className values file).1 = file.listedConstants? className values ∧
      (enumConstants? className values file).2.enumValues = file.enumValues := by
  unfold enumConstants? listedConstants?
  rw [run_get_bind]
  cases file.code? values.method with
  | none => exact ⟨rfl, rfl⟩
  | some code =>
    dsimp only
    generalize code.store.kind? values.value = kind
    by_cases isCall : ∃ index object arguments, kind = some (.call .static index object arguments)
    · obtain ⟨index, _, _, rfl⟩ := isCall
      dsimp only
      rw [run_read_bind]
      cases file.pool.member index with
      | error error => exact ⟨rfl, rfl⟩
      | ok called =>
        dsimp only [bind, Except.bind]
        split
        · exact ⟨rfl, rfl⟩
        · cases file.findMethod? called.name called.descriptor <;> exact ⟨rfl, rfl⟩
    · repeat' split
      all_goals first
        | exact absurd ⟨_, _, _, rfl⟩ isCall
        | exact ⟨rfl, rfl⟩

@[simp] theorem markMethod_enumValues (file : ClassFile) (name descriptor : String) :
    (file.markMethod name descriptor).enumValues = file.enumValues := by
  unfold markMethod
  cases file.findMethod? name descriptor <;> rfl

theorem recordListed_ok {values : Initializer}
    (ran : (do
      let some constants ← enumConstants? className values | return
      modify (·.recordEnumValues className constants) : Decoding Unit) file = (.ok (), after)) :
    ∃ found, file.listedConstants? className values = .ok found ∧ after.enumValues = found.or file.enumValues := by
  obtain ⟨found, last, listed, ran⟩ := bind_ok.mp ran
  obtain ⟨same, kept⟩ := enumConstants?_run file className values
  rw [listed] at same kept
  refine ⟨found, same.symm, ?_⟩
  cases found with
  | none =>
    obtain ⟨-, rfl⟩ := pure_ok.mp ran
    exact kept
  | some constants =>
    rw [← modify_ok.mp ran]
    simp [recordEnumValues]

theorem decodeEnumValues_ok (ran : decodeEnumValues file = (.ok (), after)) :
    ∃ found, file.constants? = .ok found ∧ after.enumValues = found.or file.enumValues := by
  have nothing {last : ClassFile} (stopped : (pure () : Decoding Unit) last = (.ok (), after))
      (same : last.enumValues = file.enumValues) :
      ∃ found, (pure none : Except PoolError (Option (List PoolIndex))) = .ok found ∧
        after.enumValues = found.or file.enumValues := by
    obtain ⟨-, rfl⟩ := pure_ok.mp stopped
    exact ⟨none, rfl, same⟩
  unfold decodeEnumValues at ran
  rw [run_get_bind, run_read_bind] at ran
  unfold constants? valuesField?
  cases named : file.name with
  | error error =>
    rw [named] at ran
    cases ran
  | ok className =>
    rw [named] at ran
    dsimp only [bind, Except.bind] at ran ⊢
    generalize (file.findField? "$VALUES" ("[L" ++ className ++ ";")).or
      (file.findField? "ENUM$VALUES" ("[L" ++ className ++ ";")) = position at ran ⊢
    cases position with
    | none => exact nothing ran rfl
    | some index =>
      obtain ⟨_, marked, marks, ran⟩ := bind_ok.mp ran
      cases modify_ok.mp marks
      dsimp only
      cases located : file.fields[index]? with
      | none =>
        rw [located] at ran
        exact nothing ran rfl
      | some field =>
        rw [located] at ran
        dsimp only
        replace ran := (run_read_bind (file.valuesOf? className field) _ _).symm.trans ran
        cases found : file.valuesOf? className field with
        | error error =>
          rw [found] at ran
          cases ran
        | ok values =>
          rw [found] at ran
          cases values with
          | none => exact nothing ran rfl
          | some values =>
            -- The mark on the field is not read again.
            exact @recordListed_ok (file.modifyField index Field.markSynthetic) _ className values ran

namespace Mirrors

variable (mirrors : before.Mirrors lifts changes after)
include mirrors

theorem returnedConstants?_eq (kept : ¬ changes "$values") {method : Nat} {descriptor : String}
    (found : before.findMethod? "$values" descriptor = some method) :
    after.returnedConstants? method = before.returnedConstants? method := by
  obtain ⟨declared, located, named⟩ := findMethod?_named found
  have same := mirrors.code?_eq located named kept
  rw [returnedConstants?, returnedConstants?, same, mirrors.pool]

theorem listedConstants?_eq (kept : ¬ changes "$values") (values : Initializer) :
    after.listedConstants? className values = before.listedConstants? className values := by
  have stores := mirrors.code?_store values.method
  unfold listedConstants?
  cases old : before.code? values.method with
  | none =>
    rw [old, Option.map_none, Option.map_eq_none_iff] at stores
    rw [stores]
  | some code =>
    rw [old, Option.map_some, Option.map_eq_some_iff] at stores
    obtain ⟨new, body, same⟩ := stores
    rw [body, mirrors.pool]
    dsimp only
    rw [same]
    split
    · refine congrArg (bind _) (funext fun called => ?_)
      split
      · rfl
      · rename_i own
        obtain ⟨-, named⟩ : called.owner = className ∧ called.name = "$values" := by simpa using own
        rw [mirrors.findMethod?_eq, named]
        cases found : before.findMethod? "$values" called.descriptor with
        | none => rfl
        | some method => exact mirrors.returnedConstants?_eq kept found
    · rfl

theorem valuesOf?_eq (kept : ¬ changes "<clinit>") {old new : Field} (same : old.Develops False new) :
    after.valuesOf? className new = before.valuesOf? className old := by
  have nameIndex : new.nameIndex = old.nameIndex := (congrArg Field.nameIndex same.header :)
  unfold valuesOf?
  rw [same.initializer.resolve_left id, mirrors.staticInitializer?_eq, nameIndex, mirrors.pool]
  cases found : before.staticInitializer? with
  | none => rfl
  | some method =>
    obtain ⟨declared, located, named⟩ := staticInitializer?_named found
    have body := mirrors.code?_eq located named kept
    dsimp only
    rw [body]

theorem constants?_eq (listing : ¬ changes "$values")
    (values : ∀ className index old new, before.name = .ok className → before.valuesField? className = some index →
      before.fields[index]? = some old → after.fields[index]? = some new →
        after.valuesOf? className new = before.valuesOf? className old) :
    after.constants? = before.constants? := by
  unfold constants? valuesField?
  simp only [mirrors.name_eq, mirrors.findField?_eq]
  cases named : before.name with
  | error error => rfl
  | ok className =>
    dsimp only [bind, Except.bind]
    split
    case h_2 => rfl
    case h_1 index located =>
      cases found : before.fields[index]? with
      | none =>
        have outside := Array.getElem?_eq_none_iff.mp found
        rw [Array.getElem?_eq_none_iff.mpr (mirrors.fields.size ▸ outside)]
      | some old =>
        obtain ⟨new, there, _⟩ := mirrors.fields.left index old found
        rw [there]
        dsimp only
        rw [values className index old new named located found there]
        simp only [mirrors.listedConstants?_eq listing]

end Mirrors

theorem decodeSwitchMaps_mirrors (ran : file.decodeSwitchMaps = .ok after) : file.Mirrors lifts changes after :=
  decodeSwitchMaps_related (fun _ position => .modifyField position fun _ => .of_marked (.markSynthetic _))
    (fun _ _ => ⟨rfl, rfl, rfl, rfl, .refl .refl _, .refl .refl _⟩) ran

theorem decodeEnum_run (ran : decodeEnum file = (.ok (), after)) : ∃ middle, file.decodeSwitchMaps = .ok middle ∧
    (if middle.isEnum then decodeEnumValues else pure ()) middle = (.ok (), after) := by
  unfold decodeEnum at ran
  rw [run_get_bind, run_read_bind] at ran
  cases decoded : file.decodeSwitchMaps with
  | error error =>
    rw [decoded] at ran
    cases ran
  | ok middle =>
    rw [decoded] at ran
    obtain ⟨_, current, setting, ran⟩ := bind_ok.mp ran
    cases setting
    exact ⟨middle, rfl, ran⟩

theorem decodeEnum_ok (isEnum : file.isEnum = true) (ran : decodeEnum file = (.ok (), after)) :
    ∃ found, file.constants? = .ok found ∧ after.enumValues = found.or file.enumValues := by
  obtain ⟨middle, decoded, ran⟩ := decodeEnum_run ran
  have mirrors : file.Mirrors False (fun _ => False) middle := decodeSwitchMaps_mirrors decoded
  have still : middle.isEnum = true := by rw [ClassFile.isEnum, mirrors.access]; exact isEnum
  have same : middle.constants? = file.constants? := by
    refine mirrors.constants?_eq id fun className index old new _ _ located there => ?_
    obtain ⟨other, here, develops⟩ := mirrors.fields.left index old located
    cases here.symm.trans there
    exact mirrors.valuesOf?_eq id develops
  rw [if_pos still] at ran
  rw [← same, ← mirrors.enumValues]
  exact decodeEnumValues_ok ran

/-! ## Lifting -/

def DistinctNames (file : ClassFile) : Prop :=
  ∀ (one other : Nat) (first second : Field) (name : String), file.fields[one]? = some first → file.fields[other]? = some second →
    first.hasName file.pool name = true → second.hasName file.pool name = true → one = other

theorem ownField?_ok {index : PoolIndex} {position : Nat} (owned : file.ownField? className index = .ok (some position)) :
    ∃ member field, file.pool.member index = .ok member ∧ member.owner = className ∧
      file.fields[position]? = some field ∧ field.hasName file.pool member.name = true := by
  unfold ownField? at owned
  obtain ⟨member, resolved, owned⟩ := except_bind_ok.mp owned
  split at owned
  · cases owned
  · rename_i own
    obtain ⟨field, located, named⟩ := findField?_named (Except.ok.inj owned)
    exact ⟨member, field, resolved, by simpa using own, located, named⟩

theorem hasName_unique {pool : Pool} {field : Field} {one other : String} (first : field.hasName pool one = true)
    (second : field.hasName pool other = true) : one = other :=
  Except.ok.inj ((Pool.hasText_iff.mp first).symm.trans (Pool.hasText_iff.mp second))

theorem Run.writtenValue? {store : Store} {accepts : Field → Bool} {statements : List NodeId} {writes : List InitialWrite}
    {index : Nat} {field : Field} {fieldName : String}
    (run : file.Run className store staticTarget? accepts statements writes) (distinct : file.DistinctNames)
    (located : file.fields[index]? = some field) (named : field.hasName file.pool fieldName = true) :
    ClassFile.writtenValue? file.pool className fieldName store statements =
      (writes.find? (·.field == index)).elim
        (ClassFile.writtenValue? file.pool className fieldName store (statements.drop writes.length))
        fun write => .ok (some write.value) := by
  obtain ⟨⟨lifted, rest, rfl, lifts⟩, -⟩ := run
  rw [← lifts.length_eq, List.drop_left]
  induction lifts with
  | nil => rfl
  | @cons id write lifted writes canLift _ continues =>
    obtain ⟨reference, isWrite, owned⟩ := canLift.target
    obtain ⟨kind, found, target⟩ := Option.bind_eq_some_iff.mp isWrite
    obtain ⟨member, other, resolved, own, there, called⟩ := ownField?_ok owned
    -- The scan asks for a name and lifting for a field, which is the same as long as no name is used twice.
    have sameField : member.name = fieldName ↔ write.field = index := by
      constructor
      · rintro rfl
        exact distinct _ _ _ _ _ there located called named
      · rintro rfl
        cases there.symm.trans located
        exact hasName_unique called named
    have stops : (member.owner == className && member.name == fieldName) = (write.field == index) := by
      rw [Bool.eq_iff_iff]
      simp [own, sameField]
    rw [List.cons_append, ClassFile.writtenValue?, found, staticTarget?_eq_some target, List.find?_cons]
    dsimp only [bind, Except.bind]
    rw [resolved]
    dsimp only
    rw [stops]
    cases write.field == index with
    | true => rfl
    | false => exact continues

theorem valuesField?_named {index : Nat} {field : Field} (found : file.valuesField? className = some index)
    (located : file.fields[index]? = some field) :
    ∃ name, file.pool.utf8 field.nameIndex = .ok name ∧ field.hasName file.pool name = true := by
  have named {name descriptor : String} (found : file.findField? name descriptor = some index) :
      ∃ name, file.pool.utf8 field.nameIndex = .ok name ∧ field.hasName file.pool name = true := by
    obtain ⟨other, there, text⟩ := findField?_named found
    cases located.symm.trans there
    exact ⟨name, Pool.hasText_iff.mp text, text⟩
  rcases Option.or_eq_some_iff.mp found with found | ⟨-, found⟩
  · exact named found
  · exact named found

theorem valuesOf?_of_some {field : Field} {values : Initializer} (lifted : field.initializer = some values) :
    file.valuesOf? className field = .ok (some values) := by
  unfold valuesOf?
  rw [lifted]
  rfl

theorem valuesOf?_of_none {field : Field} {method : Nat} {code : Code} {name : String} (unset : field.initializer = none)
    (found : file.staticInitializer? = some method) (body : file.code? method = some code)
    (read : file.pool.utf8 field.nameIndex = .ok name) :
    file.valuesOf? className field =
      (writtenValue? file.pool className name code.store code.statements).map (Option.map (⟨method, ·⟩)) := by
  unfold valuesOf?
  rw [unset, found]
  dsimp only
  rw [body, read]
  rfl

theorem liftStaticInitializers_mirrors (ran : file.liftStaticInitializers = .ok after) :
    file.Mirrors True (· = "<clinit>") after := by
  rcases liftStaticInitializers_ok ran with rfl | ⟨method, _, _, writes, found, -, -, -, rfl⟩
  · exact .refl _
  have lifted : file.Mirrors True (· = "<clinit>") (file.setInitializers method writes) := .setInitializers trivial _ _ _
  refine lifted.trans (.dropStatements (by rfl) (fun declared located => ?_) _ _)
  obtain ⟨other, there, named⟩ := staticInitializer?_named (lifted.staticInitializer?_eq.trans found)
  cases located.symm.trans there
  exact named

theorem constants?_of_liftStatic (distinct : file.DistinctNames) (fresh : ∀ field ∈ file.fields, field.initializer = none)
    (ran : file.liftStaticInitializers = .ok after) : after.constants? = file.constants? := by
  rcases liftStaticInitializers_ok ran with rfl | ⟨method, className, code, writes, found, named, body, run, same⟩
  · rfl
  have mirrors := liftStaticInitializers_mirrors ran
  refine mirrors.constants?_eq (by decide) fun name index old new sameName position located there => ?_
  cases named.symm.trans sameName
  obtain ⟨fieldName, read, called⟩ := valuesField?_named position located
  have unset : old.initializer = none := fresh old (Array.mem_of_getElem? located)
  rw [valuesOf?_of_none unset found body read, run.writtenValue? distinct located called]
  have changed : (file.setInitializers method writes).fields[index]? = some new := by rw [← there, same]; rfl
  rw [setInitializers_fields _ _ _ run.distinct, located, Option.map_some, Option.some_inj] at changed
  cases taken : writes.find? (·.field == index) with
  | some write =>
    have set : new.initializer = some ⟨method, write.value⟩ := by
      rw [← changed, taken]
      rfl
    rw [valuesOf?_of_some set]
    rfl
  | none =>
    rw [taken, Option.elim_none] at changed
    subst changed
    have rest : after.code? method = some (code.without 0 writes.length) := by
      rw [same, dropStatements_code?, if_pos rfl, setInitializers_code?, body]
      rfl
    rw [valuesOf?_of_none unset (mirrors.staticInitializer?_eq.trans found) rest (mirrors.pool ▸ read), mirrors.pool]
    simp [Code.without]

theorem Mirrors.dropCommon {constructors : List Constructor} (count : Nat)
    (named : ∀ constructor ∈ constructors, ∀ declared, file.methods[constructor.method]? = some declared →
      declared.hasName file.pool "<init>" = true) : file.Mirrors lifts (· = "<init>") (file.dropCommon count constructors) := by
  induction constructors generalizing file with
  | nil => exact .refl file
  | cons first rest continues =>
    have mirrors : file.Mirrors lifts (· = "<init>") (file.dropStatements first.method first.position count) :=
      .dropStatements (by rfl) (named first List.mem_cons_self) _ _
    refine mirrors.trans (continues fun constructor member declared located => ?_)
    obtain ⟨old, there, same⟩ := mirrors.methods.right located
    exact (same.hasName "<init>").trans (named constructor (List.mem_cons_of_mem _ member) old there)

theorem constructorCode?_named {method : Nat} {code : Code} {declared : Method} (found : file.constructorCode? method = some code)
    (located : file.methods[method]? = some declared) : declared.hasName file.pool "<init>" = true := by
  obtain ⟨other, same, counts⟩ := Option.bind_eq_some_iff.mp found
  cases located.symm.trans same
  split at counts
  · rename_i holds
    exact (Bool.and_eq_true_iff.mp (Bool.and_eq_true_iff.mp holds).1).1
  · cases counts

def ListsStatically (file : ClassFile) : Prop :=
  ∀ className index field, file.name = .ok className → file.valuesField? className = some index →
    file.fields[index]? = some field → field.access.isStatic = true

theorem liftInstanceInitializers_mirrors (ran : file.liftInstanceInitializers = .ok after) :
    file.Mirrors True (· = "<init>") after := by
  rcases liftInstanceInitializers_ok ran with rfl | ⟨_, first, _, count, -, runs, -, rfl⟩
  · exact .refl _
  have lifted : file.Mirrors True (· = "<init>") (file.setInitializers first.method (first.writes.take count)) :=
    .setInitializers trivial _ _ _
  refine lifted.trans (.dropCommon count fun constructor member declared located => ?_)
  obtain ⟨code, counts, -⟩ := (runs constructor member).1.body
  rw [setInitializers_methods] at located
  rw [lifted.pool]
  exact constructorCode?_named counts located

theorem constants?_of_liftInstance (static : file.ListsStatically) (ran : file.liftInstanceInitializers = .ok after) :
    after.constants? = file.constants? := by
  rcases liftInstanceInitializers_ok ran with rfl | ⟨_, first, _, count, -, runs, -, same⟩
  · rfl
  have mirrors := liftInstanceInitializers_mirrors ran
  refine mirrors.constants?_eq (by decide) fun name index old new sameName position located there => ?_
  obtain ⟨code, counts, -, run⟩ := (runs first List.mem_cons_self).1.body
  -- Only fields that are not static take their initial values from constructors.
  have untouched : (first.writes.take count).find? (·.field == index) = none := by
    refine List.find?_eq_none.mpr fun write member here => ?_
    obtain ⟨field, found, accepted⟩ := run.accepted (List.mem_of_mem_take member)
    cases (beq_iff_eq.mp here ▸ found).symm.trans located
    simp [acceptsInstance, static name index old sameName position located] at accepted
  rw [same, dropCommon_fields, setInitializers_fields _ _ _ (run.distinct.sublist ((List.take_sublist _ _).map _)), located,
    untouched] at there
  cases there
  exact mirrors.valuesOf?_eq (by decide) (.refl _)

theorem tryLift_fst {lift : ClassFile → Except PoolError ClassFile} {report : PoolError → Warning} :
    (file.tryLift lift report).1 = file ∨ lift file = .ok (file.tryLift lift report).1 := by
  unfold tryLift
  cases lift file with
  | ok lifted => exact .inr rfl
  | error error => exact .inl rfl

theorem liftInitializers_fst : file.liftInitializers.1 =
    ((file.tryLift liftStaticInitializers .staticInitializers).1.tryLift liftInstanceInitializers .instanceInitializers).1 := by
  unfold liftInitializers tryLift
  cases file.liftStaticInitializers with
  | ok middle =>
    dsimp only
    cases middle.liftInstanceInitializers <;> rfl
  | error error =>
    dsimp only
    cases file.liftInstanceInitializers <;> rfl

theorem isStatic_markSynthetic (access : Access) : access.markSynthetic.isStatic = access.isStatic := by
  have apart : Access.synthetic.bits.toBitVec &&& Access.static.bits.toBitVec = 0 := by decide
  have same : (access.bits ||| Access.synthetic.bits) &&& Access.static.bits = access.bits &&& Access.static.bits := by
    rw [← UInt16.toBitVec_inj]
    simp [BitVec.and_or_distrib_right, apart]
  simp [Access.isStatic, Access.contains, Access.markSynthetic, Access.union, same]

theorem Mirrors.listsStatically (mirrors : before.Mirrors lifts changes after) (static : before.ListsStatically) :
    after.ListsStatically := by
  intro className index field named position located
  obtain ⟨old, there, develops⟩ := mirrors.fields.right located
  rw [mirrors.name_eq] at named
  rw [valuesField?, mirrors.findField?_eq, mirrors.findField?_eq] at position
  have isStatic := static className index old named position there
  rcases develops.access with same | marked
  · rwa [same]
  · rwa [marked, isStatic_markSynthetic]

structure SameOrder (before after : ClassFile) : Prop where
  access : after.access = before.access
  enumValues : after.enumValues = before.enumValues
  constants : after.constants? = before.constants?

theorem SameOrder.refl (file : ClassFile) : file.SameOrder file := ⟨rfl, rfl, rfl⟩

theorem SameOrder.trans (first : before.SameOrder middle) (second : middle.SameOrder after) : before.SameOrder after :=
  ⟨second.access.trans first.access, second.enumValues.trans first.enumValues, second.constants.trans first.constants⟩

theorem SameOrder.decodeEnum {plain lifted : ClassFile} (same : before.SameOrder after) (isEnum : before.isEnum = true)
    (first : ClassFile.decodeEnum before = (.ok (), plain)) (second : ClassFile.decodeEnum after = (.ok (), lifted)) :
    lifted.enumValues = plain.enumValues := by
  obtain ⟨found, read, values⟩ := decodeEnum_ok isEnum first
  obtain ⟨other, readLifted, valuesLifted⟩ := decodeEnum_ok (by rw [ClassFile.isEnum, same.access]; exact isEnum) second
  rw [same.constants, read] at readLifted
  cases readLifted
  rw [valuesLifted, same.enumValues, values]

theorem tryLift_static_sameOrder (distinct : file.DistinctNames) (fresh : ∀ field ∈ file.fields, field.initializer = none) :
    file.SameOrder (file.tryLift liftStaticInitializers .staticInitializers).1 := by
  rcases tryLift_fst with same | ran
  · rw [same]
    exact .refl file
  · have mirrors := liftStaticInitializers_mirrors ran
    exact ⟨mirrors.access, mirrors.enumValues, constants?_of_liftStatic distinct fresh ran⟩

theorem tryLift_instance_sameOrder (static : file.ListsStatically) :
    file.SameOrder (file.tryLift liftInstanceInitializers .instanceInitializers).1 := by
  rcases tryLift_fst with same | ran
  · rw [same]
    exact .refl file
  · have mirrors := liftInstanceInitializers_mirrors ran
    exact ⟨mirrors.access, mirrors.enumValues, constants?_of_liftInstance static ran⟩

/-- Whether initial values are lifted makes no difference to the order of an enum. -/
theorem enumValues_of_lifted (file plain : ClassFile) (isEnum : file.isEnum = true) (distinct : file.DistinctNames)
    (fresh : ∀ field ∈ file.fields, field.initializer = none) (decoded : decodeEnum file = (.ok (), plain)) :
    ∃ found, file.constants? = .ok found ∧ plain.enumValues = found.or file.enumValues ∧
      (∀ lifted, decodeEnum (file.tryLift liftStaticInitializers .staticInitializers).1 = (.ok (), lifted) →
        lifted.enumValues = plain.enumValues) ∧
      (file.ListsStatically → ∀ lifted, decodeEnum file.liftInitializers.1 = (.ok (), lifted) →
        lifted.enumValues = plain.enumValues) := by
  obtain ⟨found, read, values⟩ := decodeEnum_ok isEnum decoded
  have statics := tryLift_static_sameOrder distinct fresh
  refine ⟨found, read, values, fun lifted ran => statics.decodeEnum isEnum decoded ran, fun static lifted ran => ?_⟩
  have still : (file.tryLift liftStaticInitializers .staticInitializers).1.ListsStatically := by
    rcases tryLift_fst with same | ran
    · rwa [same]
    · exact (liftStaticInitializers_mirrors ran).listsStatically static
  rw [liftInitializers_fst] at ran
  exact (statics.trans (tryLift_instance_sameOrder still)).decodeEnum isEnum decoded ran

/-! An enum with the constants `A` and `B`, whose method `$values` lists `B` first. -/

def twoConstants : ClassFile where
  access := ⟨0x4000⟩
  thisIndex := 2
  pool := ⟨#[none, some (.utf8 "E"), some (.classInfo 1), some (.utf8 "A"), some (.utf8 "LE;"), some (.utf8 "$VALUES"),
    some (.utf8 "[LE;"), some (.utf8 "<clinit>"), some (.utf8 "()V"), some (.utf8 "$values"), some (.utf8 "()[LE;"),
    some (.nameAndType 3 4), some (.fieldRef 2 11), some (.nameAndType 5 6), some (.fieldRef 2 13), some (.nameAndType 9 10),
    some (.methodRef 2 15), some (.utf8 "B"), some (.nameAndType 17 4), some (.fieldRef 2 18)]⟩
  fields := #[{ access := ⟨8⟩, nameIndex := 3, descriptorIndex := 4 }, { access := ⟨8⟩, nameIndex := 17, descriptorIndex := 4 },
    { access := ⟨8⟩, nameIndex := 5, descriptorIndex := 6 }]
  methods := #[
    { access := ⟨8⟩, nameIndex := 7, descriptorIndex := 8
      code := some {
        store := ⟨#[⟨0, none, .literal .null⟩, ⟨1, none, .write (.static 12) 0⟩, ⟨4, none, .literal .null⟩,
          ⟨5, none, .write (.static 19) 2⟩, ⟨8, none, .call .static 16 none []⟩, ⟨11, none, .write (.static 14) 4⟩,
          ⟨14, none, .ret none⟩]⟩
        statements := [1, 3, 5, 6] } },
    { access := ⟨8⟩, nameIndex := 9, descriptorIndex := 10
      code := some {
        store := ⟨#[⟨0, none, .literal (.int 2)⟩, ⟨1, none, .newObjectArray 2 0⟩, ⟨4, none, .read (.static 19)⟩,
          ⟨7, none, .read (.static 12)⟩, ⟨10, none, .arrayLiteral 1 [2, 3]⟩, ⟨11, none, .ret (some 4)⟩]⟩
        statements := [5] } }]

theorem twoConstants_distinctNames : twoConstants.DistinctNames := by
  have names (index : Nat) (field : Field) (name : String) (located : twoConstants.fields[index]? = some field)
      (named : field.hasName twoConstants.pool name = true) : ["A", "B", "$VALUES"][index]? = some name := by
    have text := Pool.hasText_iff.mp named
    rcases index with _ | _ | _ | index
    · cases located
      exact congrArg some (Except.ok.inj text)
    · cases located
      exact congrArg some (Except.ok.inj text)
    · cases located
      exact congrArg some (Except.ok.inj text)
    · cases located
  intro one other first second name located there named otherwise
  have here := names one first name located named
  refine (List.getElem?_inj (List.getElem?_eq_some_iff.mp here).1 (by decide)).mp ?_
  exact here.trans (names other second name there otherwise).symm

/-- The initial value is read off the declaration in one run and off `<clinit>` in the other. -/
theorem twoConstants_enumValues :
    (twoConstants.tryLift liftStaticInitializers .staticInitializers).1.fields[2]?.bind Field.initializer = some ⟨0, 4⟩ ∧
      (decodeEnum twoConstants).2.enumValues = some [17, 3] ∧
      (decodeEnum (twoConstants.tryLift liftStaticInitializers .staticInitializers).1).2.enumValues = some [17, 3] ∧
      (decodeEnum twoConstants.liftInitializers.1).2.enumValues = some [17, 3] := by
  have decoded : decodeEnum twoConstants = (.ok (), (decodeEnum twoConstants).2) := Prod.ext (by with_unfolding_all rfl) rfl
  have values : (decodeEnum twoConstants).2.enumValues = some [17, 3] := by with_unfolding_all rfl
  have fresh : ∀ field ∈ twoConstants.fields, field.initializer = none := by simp [twoConstants]
  obtain ⟨found, _, _, statics, whole⟩ :=
    enumValues_of_lifted twoConstants _ (by decide) twoConstants_distinctNames fresh decoded
  refine ⟨by with_unfolding_all rfl, values, ?_, ?_⟩
  · exact (statics _ (Prod.ext (by with_unfolding_all rfl) rfl)).trans values
  · refine (whole (fun className index field _ _ located => ?_) _ (Prod.ext (by with_unfolding_all rfl) rfl)).trans values
    have member := Array.mem_of_getElem? located
    simp only [twoConstants, Array.mem_def, List.mem_cons, List.not_mem_nil, or_false] at member
    rcases member with rfl | rfl | rfl <;> rfl

end ClassFile

end ClassLift
