import ClassLift.Analysis
import ClassLift.Proofs.Body.First
import ClassLift.Proofs.Survey.Evolution

namespace ClassLift

/-! ## Constructors -/

namespace OuterStore

variable {pool : Pool} {className : String} {store : Store} {statement : NodeId} {statements : List NodeId}
  {found other : OuterStore} {reference : PoolIndex} {scans : List OuterStore}

inductive Settles (pool : Pool) (className : String) (store : Store) (statement : NodeId) : OuterStore → Prop
  | assigns {field : PoolIndex} {object value : NodeId}
      (writes : store.kind? statement = some (.write (.field field object) value)) (onThis : store.isSlot object 0 = true)
      (parameter : store.isSlot value 1 = true) : Settles pool className store statement (assigns field)
  | delegates (constructs : Constructs pool store statement className) : Settles pool className store statement delegates

theorem Settles.unique (first : Settles pool className store statement found)
    (second : Settles pool className store statement other) : found = other := by
  have apart {field : PoolIndex} {object value : NodeId}
      (writes : store.kind? statement = some (.write (.field field object) value)) :
      ¬ Constructs pool store statement className := by
    rintro ⟨_, _, _, calls, _⟩
    simp [Store.specialOnThis?, writes] at calls
  cases first with
  | assigns writes _ _ =>
    cases second with
    | assigns rewrites _ _ =>
      rw [writes] at rewrites
      cases rewrites
      rfl
    | delegates constructs => exact absurd constructs (apart writes)
  | delegates constructs =>
    cases second with
    | assigns writes _ _ => exact absurd constructs (apart writes)
    | delegates _ => rfl

theorem scan_ok (ran : scan pool className store statements = .ok found) :
    found = missing ∨ ∃ position, FirstAt (Settles pool className store) statements position found := by
  induction statements with
  | nil =>
    cases ran
    exact .inl rfl
  | cons statement rest continues =>
    -- A statement that the scan passes over decides nothing.
    have passes (silent : ∀ verdict, ¬ Settles pool className store statement verdict)
        (ran : scan pool className store rest = .ok found) :
        found = missing ∨ ∃ position, FirstAt (Settles pool className store) (statement :: rest) position found :=
      (continues ran).imp_right fun ⟨position, first⟩ => ⟨position + 1, .later silent first⟩
    unfold scan at ran
    split at ran
    · rename_i field object value writes
      split at ran
      · rename_i matched
        cases ran
        rw [Bool.and_eq_true] at matched
        exact .inr ⟨0, .here (.assigns writes matched.1 matched.2)⟩
      · rename_i mismatched
        refine passes (fun verdict settles => ?_) ran
        cases settles with
        | assigns rewrites onThis parameter =>
          rw [writes] at rewrites
          cases rewrites
          simp [onThis, parameter] at mismatched
        | delegates constructs =>
          obtain ⟨_, _, _, calls, _⟩ := constructs
          simp [Store.specialOnThis?, writes] at calls
    · rename_i notWritten
      split at ran
      · rename_i notCalled
        refine passes (fun verdict settles => ?_) ran
        cases settles with
        | assigns writes _ _ => exact notWritten _ _ _ writes
        | delegates constructs =>
          obtain ⟨_, _, _, calls, _⟩ := constructs
          simp [notCalled] at calls
      · rename_i method arguments calls
        obtain ⟨called, read, ran⟩ := except_bind_ok.mp ran
        split at ran
        · rename_i own
          cases ran
          simp only [Bool.and_eq_true, beq_iff_eq] at own
          exact .inr ⟨0, .here (.delegates ⟨method, arguments, called, calls, read, own⟩)⟩
        · rename_i foreign
          refine passes (fun verdict settles => ?_) ran
          cases settles with
          | assigns writes _ _ => exact notWritten _ _ _ writes
          | delegates constructs =>
            obtain ⟨_, _, _, recalls, reread, constructs, own⟩ := constructs
            rw [calls] at recalls
            cases recalls
            rw [read] at reread
            cases reread
            simp [constructs, own] at foreign

theorem agreed_some {chosen : PoolIndex} (agree : agreed (some reference) scans = some chosen) :
    chosen = reference ∧ ∀ scan ∈ scans, scan = assigns reference ∨ scan = delegates := by
  induction scans with
  | nil =>
    cases agree
    exact ⟨rfl, by simp⟩
  | cons scan rest continues =>
    cases scan with
    | assigns field =>
      unfold agreed at agree
      split at agree
      · rename_i same
        subst same
        obtain ⟨rfl, others⟩ := continues agree
        exact ⟨rfl, by simpa using others⟩
      · cases agree
    | delegates =>
      obtain ⟨rfl, others⟩ := continues agree
      exact ⟨rfl, by simpa using others⟩
    | missing => cases agree

theorem agreed_none (agree : agreed none scans = some reference) :
    assigns reference ∈ scans ∧ ∀ scan ∈ scans, scan = assigns reference ∨ scan = delegates := by
  induction scans with
  | nil => cases agree
  | cons scan rest continues =>
    cases scan with
    | assigns field =>
      obtain ⟨rfl, others⟩ := agreed_some agree
      exact ⟨by simp, by simpa using others⟩
    | delegates =>
      obtain ⟨assigned, others⟩ := continues agree
      exact ⟨List.mem_cons_of_mem _ assigned, by simpa using others⟩
    | missing => cases agree

end OuterStore

/-! ## Classes -/

namespace ClassFile

variable {config : Config} {file after : ClassFile} {method : Method} {found : OuterStore} {indices : List Nat}
  {scans : List OuterStore} {outerField : OuterField} {stored : Member} {field : Field} {reference : PoolIndex}
  {warnings : List Warning}

structure Considers (file : ClassFile) (method : Method) : Prop where
  among : method ∈ file.methods
  unflagged : method.flagged = false
  constructs : method.isConstructor file.pool = true

def Opens (file : ClassFile) (method : Method) (found : OuterStore) : Prop :=
  ∃ name code position, file.name = .ok name ∧ method.code = some code ∧
    FirstAt (OuterStore.Settles file.pool name code.store) code.instructions position found

def Captures (file : ClassFile) (reference : PoolIndex) : Prop :=
  ∃ method, file.Considers method ∧ file.Opens method (.assigns reference)

/-- How the recorded field, its reference and the constructors hang together. -/
structure Records (file : ClassFile) (outerField : OuterField) (stored : Member) (field : Field) : Prop where
  inner : file.isInner = true
  reference : file.pool.member outerField.reference = .ok stored
  own : file.name = .ok stored.owner
  declared : file.fields[outerField.field]? = some field
  name : file.pool.utf8 field.nameIndex = .ok stored.name
  descriptor : file.pool.utf8 field.descriptorIndex = .ok stored.descriptor
  captured : file.Captures outerField.reference
  constructors : ∀ method, file.Considers method →
    file.Opens method (.assigns outerField.reference) ∨ file.Opens method .delegates

theorem Opens.unique {other : OuterStore} (first : file.Opens method found) (second : file.Opens method other) :
    found = other := by
  obtain ⟨name, code, position, named, body, settled⟩ := first
  obtain ⟨again, same, _, renamed, rebody, resettled⟩ := second
  rw [named] at renamed
  cases renamed
  rw [body] at rebody
  cases rebody
  exact (settled.unique resettled fun _ _ _ => OuterStore.Settles.unique).2

theorem Records.captures_iff (records : file.Records outerField stored field) :
    file.Captures reference ↔ reference = outerField.reference := by
  constructor
  · rintro ⟨method, considered, opens⟩
    rcases records.constructors method considered with assigns | delegates
    · cases opens.unique assigns
      rfl
    · cases opens.unique delegates
  · rintro rfl
    exact records.captured

theorem ofConstructor_ok (ran : OuterStore.ofConstructor file method = .ok found) :
    found = .missing ∨ file.Opens method found := by
  unfold OuterStore.ofConstructor at ran
  split at ran
  · rename_i code body
    obtain ⟨name, named, ran⟩ := except_bind_ok.mp ran
    exact (OuterStore.scan_ok ran).imp_right fun ⟨position, first⟩ => ⟨name, code, position, named, body, first⟩
  · cases ran
    exact .inl rfl

theorem scanConstructors_ok (ran : file.scanConstructors indices = .ok scans) :
    (∀ index ∈ indices, ∀ method, file.methods[index]? = some method → file.Considers method →
      ∃ found ∈ scans, OuterStore.ofConstructor file method = .ok found) ∧
    ∀ found ∈ scans, ∃ method, file.Considers method ∧ OuterStore.ofConstructor file method = .ok found := by
  induction indices generalizing scans with
  | nil =>
    cases ran
    simp
  | cons index rest continues =>
    unfold scanConstructors at ran
    split at ran
    · rename_i absent
      obtain ⟨every, each⟩ := continues ran
      refine ⟨fun position among method there considered => ?_, each⟩
      rcases List.mem_cons.mp among with rfl | among
      · rw [absent] at there
        cases there
      · exact every position among method there considered
    · rename_i method present
      split at ran
      · rename_i skipped
        obtain ⟨every, each⟩ := continues ran
        refine ⟨fun position among other there considered => ?_, each⟩
        rcases List.mem_cons.mp among with rfl | among
        · rw [present] at there
          cases there
          simp [considered.unflagged, considered.constructs] at skipped
        · exact every position among other there considered
      · rename_i looked
        simp only [Bool.or_eq_true, Bool.not_eq_true', not_or, Bool.not_eq_true, Bool.not_eq_false] at looked
        split at ran
        · cases ran
        · rename_i first scanned
          obtain ⟨others, continued, rfl⟩ : ∃ others, file.scanConstructors rest = .ok others ∧ first :: others = scans := by
            cases continued : file.scanConstructors rest with
            | error error => simp [continued, Functor.map, Except.map] at ran
            | ok others => exact ⟨others, rfl, by simpa [continued, Functor.map, Except.map] using ran⟩
          obtain ⟨every, each⟩ := continues continued
          constructor
          · intro position among other there considered
            rcases List.mem_cons.mp among with rfl | among
            · rw [present] at there
              cases there
              exact ⟨first, by simp, scanned⟩
            · obtain ⟨found, listed, ran⟩ := every position among other there considered
              exact ⟨found, List.mem_cons_of_mem _ listed, ran⟩
          · intro found listed
            rcases List.mem_cons.mp listed with rfl | listed
            · exact ⟨method, ⟨Array.mem_of_getElem? present, looked.1, looked.2⟩, scanned⟩
            · exact each found listed

theorem findField?_eq_some {name descriptor : String} {position : Nat}
    (found : file.findField? name descriptor = some position) :
    ∃ field, file.fields[position]? = some field ∧ file.pool.utf8 field.nameIndex = .ok name ∧
      file.pool.utf8 field.descriptorIndex = .ok descriptor := by
  have reads (index : PoolIndex) (text : String) (same : file.pool.hasText index text = true) :
      file.pool.utf8 index = .ok text := by
    unfold Pool.hasText at same
    cases read : file.pool.utf8 index with
    | error error => simp [read, Except.toOption] at same
    | ok found => simpa [read, Except.toOption] using same
  obtain ⟨inside, matched, _⟩ := Array.findIdx?_eq_some_iff_getElem.mp found
  rw [Bool.and_eq_true] at matched
  exact ⟨_, Array.getElem?_eq_getElem inside, reads _ _ matched.1, reads _ _ matched.2⟩

theorem resolveOuterField?_ok (ran : file.resolveOuterField? scans = .ok (some outerField)) :
    OuterStore.agreed none scans = some outerField.reference ∧
      ∃ stored, file.pool.member outerField.reference = .ok stored ∧ file.name = .ok stored.owner ∧
        file.findField? stored.name stored.descriptor = some outerField.field := by
  unfold resolveOuterField? at ran
  split at ran
  · rename_i reference agree
    obtain ⟨stored, read, ran⟩ := except_bind_ok.mp ran
    obtain ⟨name, named, ran⟩ := except_bind_ok.mp ran
    split at ran
    · cases ran
    · rename_i own
      obtain rfl : stored.owner = name := by simpa using own
      obtain ⟨position, found, rfl⟩ := Option.map_eq_some_iff.mp (Except.ok.inj ran)
      exact ⟨agree, stored, read, named, found⟩
  · cases ran

theorem opens_recordOuterField {marked : Method} (differ : method.Marked marked) :
    (file.recordOuterField outerField).Opens marked found ↔ file.Opens method found := by
  unfold Opens
  rw [differ.code]
  rfl

theorem mem_recordOuterField (among : method ∈ (file.recordOuterField outerField).methods) :
    ∃ old ∈ file.methods, old.Marked method := by
  obtain ⟨old, listed, rfl⟩ := Array.mem_map.mp among
  refine ⟨old, listed, ?_⟩
  split
  · exact .markSynthetic old
  · exact .refl old

theorem Considers.of_marked {marked : Method} (differ : method.Marked marked) (listed : method ∈ file.methods)
    (considered : (file.recordOuterField outerField).Considers marked) : file.Considers method := by
  have same : marked.nameIndex = method.nameIndex := (congrArg Method.nameIndex differ.rest :)
  refine ⟨listed, differ.flagged ▸ considered.unflagged, ?_⟩
  have constructs := considered.constructs
  rwa [Method.isConstructor, Method.hasName, same] at constructs

theorem Considers.record (considered : file.Considers method) :
    ∃ marked, method.Marked marked ∧ (file.recordOuterField outerField).Considers marked := by
  refine ⟨if file.exposes outerField method then method.markSynthetic else method, ?_, ?_, ?_, ?_⟩
  · split
    · exact .markSynthetic method
    · exact .refl method
  · exact Array.mem_map.mpr ⟨method, considered.among, rfl⟩
  · split <;> exact considered.unflagged
  · split <;> exact considered.constructs

theorem surveyOuterField_cases (file : ClassFile) :
    file.surveyOuterField.1.outerField = file.outerField ∨
      ∃ scans outerField, file.isInner = true ∧ file.scanConstructors (List.range file.methods.size) = .ok scans ∧
        file.resolveOuterField? scans = .ok (some outerField) ∧
        file.surveyOuterField.1 = file.recordOuterField outerField := by
  unfold surveyOuterField
  split
  · exact .inl rfl
  · rename_i inner
    split
    · exact .inl rfl
    · rename_i scans scanned
      split
      · exact .inl rfl
      · exact .inl rfl
      · rename_i outerField resolved
        exact .inr ⟨scans, outerField, by simpa using inner, scanned, resolved, rfl⟩

theorem surveyOuterField_records (unset : file.outerField = none)
    (recorded : file.surveyOuterField.1.outerField = some outerField) :
    ∃ stored field, file.surveyOuterField.1.Records outerField stored field := by
  rcases surveyOuterField_cases file with same | ⟨scans, candidate, inner, scanned, resolved, same⟩
  · rw [same, unset] at recorded
    cases recorded
  rw [same] at recorded ⊢
  cases recorded
  obtain ⟨agree, stored, read, named, position⟩ := resolveOuterField?_ok resolved
  obtain ⟨every, each⟩ := scanConstructors_ok scanned
  obtain ⟨assigned, others⟩ := OuterStore.agreed_none agree
  obtain ⟨field, declared, name, descriptor⟩ := findField?_eq_some position
  refine ⟨stored, field.markSynthetic, inner, read, named, ?_, name, descriptor, ?_, ?_⟩
  · simp [recordOuterField, modifyField, Array.getElem?_modify, declared]
  · obtain ⟨method, considered, ran⟩ := each _ assigned
    obtain ⟨marked, differ, still⟩ := considered.record
    have opens := (ofConstructor_ok ran).resolve_left (by simp)
    exact ⟨marked, still, (opens_recordOuterField differ).mpr opens⟩
  · intro marked considered
    obtain ⟨method, listed, differ⟩ := mem_recordOuterField considered.among
    have before := considered.of_marked differ listed
    obtain ⟨index, there⟩ := Array.mem_iff_getElem?.mp listed
    have inside : index ∈ List.range file.methods.size := by
      simpa using (Array.getElem?_eq_some_iff.mp there).1
    obtain ⟨found, among, ran⟩ := every index inside method there before
    rw [opens_recordOuterField differ, opens_recordOuterField differ]
    rcases others found among with rfl | rfl
    · exact .inl ((ofConstructor_ok ran).resolve_left (by simp))
    · exact .inr ((ofConstructor_ok ran).resolve_left (by simp))

/-! ## The survey of a class -/

def KeepsOuterField (before after : ClassFile) : Prop := after.outerField = before.outerField

instance : Std.Refl KeepsOuterField := ⟨fun _ => rfl⟩

instance : IsTrans ClassFile KeepsOuterField := ⟨fun _ _ _ first second => Eq.trans second first⟩

theorem interning_keepsOuterField {α : Type} (action : Interning α) : Preserves KeepsOuterField (OnClass.interning action) :=
  fun _ => rfl

theorem nameLocals_keepsOuterField (index : Nat) : Preserves KeepsOuterField (nameLocals index) := by
  unfold nameLocals
  refine .get_bind fun file => ?_
  split
  · split
    · exact preserves_pure _
    · refine preserves_bind (preserves_of_unchanged fun _ => rfl) fun descriptor =>
        preserves_bind (preserves_of_unchanged fun _ => rfl) fun owner => ?_
      extract_lets -underBinder length written isStatic tables
      have rest (this : List LocalVariable) : Preserves KeepsOuterField (tables this) :=
        preserves_bind (preserves_of_unchanged fun _ => rfl) fun types =>
          preserves_bind (interning_keepsOuterField _) fun _ => preserves_bind (interning_keepsOuterField _) fun _ =>
            preserves_modify fun _ => rfl
      split
      · exact preserves_bind (preserves_pure _) rest
      · exact preserves_bind (interning_keepsOuterField _) rest
  · exact preserves_pure _

theorem surveyMethods_keepsOuterField (ran : file.surveyMethods config indices = .ok (after, warnings)) :
    after.outerField = file.outerField := by
  have marks (file : ClassFile) (isMarked : Field → Bool) : (file.markField isMarked).outerField = file.outerField := by
    unfold markField
    split <;> rfl
  have steps (index : Nat) : Preserves KeepsOuterField (surveyMethod config index) :=
    surveyMethod_preserves (fun _ _ => rfl) (fun file _ _ _ => marks file _) (fun _ _ => rfl) (nameLocals_keepsOuterField index)
  exact surveyMethods_related steps (fun _ _ _ => rfl) indices ran

theorem survey_records (ran : file.survey config = .ok (after, warnings)) (unset : file.outerField = none)
    (recorded : after.outerField = some outerField) : ∃ stored field, after.Records outerField stored field := by
  obtain ⟨⟨middle, found⟩, surveyed, same⟩ := except_bind_ok.mp ran
  cases same
  exact surveyOuterField_records ((surveyMethods_keepsOuterField surveyed).trans unset) recorded

end ClassFile

/-! ## What becomes of the field later on -/

namespace OuterInstance

open OuterStore (Settles)

variable {table : ClassTable} {home reader : ClassId} {file : ClassFile} {outerField : OuterField} {pool : Pool} {field : PoolIndex}
  {object : Kind} {name : String}

theorem dropOuterStore_cases (recorded : file.outerField = some outerField) (className : String) (method : Nat) (draft : Draft) :
    dropOuterStore file method draft = draft ∨
      ∃ earlier statement later, draft.statements = earlier ++ statement :: later ∧
        dropOuterStore file method draft = ⟨draft.store, earlier ++ later⟩ ∧
        Settles file.pool className draft.store statement (.assigns outerField.reference) := by
  unfold dropOuterStore
  rw [recorded]
  cases file.methods[method]? with
  | none => exact .inl rfl
  | some declared =>
    dsimp only
    split
    · rcases List.exists_or_eq_self_of_eraseP (isOuterStore draft.store outerField.reference) draft.statements with
        same | ⟨statement, earlier, later, _, stores, split, rest⟩
      · rw [same]
        exact .inl rfl
      · rw [rest]
        refine .inr ⟨earlier, statement, later, split, rfl, ?_⟩
        unfold isOuterStore at stores
        split at stores
        · rename_i target receiver value writes
          simp only [Bool.and_eq_true, beq_iff_eq] at stores
          obtain ⟨⟨rfl, onThis⟩, parameter⟩ := stores
          exact .assigns writes onThis parameter
        · cases stores
    · exact .inl rfl

theorem outerName?_ok (ran : outerName? table reader pool field object = .ok (some name))
    (held : holder? table reader pool object = .ok (some home)) :
    ∃ file outerField declared outer read declaredName, table.get? home = some file ∧ file.outerField = some outerField ∧
      file.fields[outerField.field]? = some declared ∧ file.outer.bind table.get? = some outer ∧ outer.name = .ok name ∧
      pool.member field = .ok read ∧ file.pool.utf8 declared.nameIndex = .ok declaredName ∧ file.name = .ok read.owner ∧
      read.name = declaredName := by
  unfold outerName? at ran
  rw [held] at ran
  simp only [bind, Except.bind, pure, Except.pure] at ran
  repeat' split at ran
  all_goals simp_all

end OuterInstance

/-! ## The recorded field and its type -/

namespace ClassTable

open OuterInstance (dropOuterStore outerName? holder? dropOuterStore_cases outerName?_ok)
open OuterStore (Settles)
open LocalNames (classType)

theorem get?_of_update {table last : ClassTable} {id : ClassId} {file after : ClassFile} {warnings : List Warning}
    {change : ClassFile → Except DescriptorError (ClassFile × List Warning)} (given : table.get? id = some file)
    (ran : table.update id change = .ok (last, warnings)) (kept : last.get? id = some after) :
    change file = .ok (after, warnings) := by
  unfold update at ran
  rw [given] at ran
  obtain ⟨⟨changed, found⟩, run, same⟩ := except_bind_ok.mp ran
  cases same
  rw [run]
  simp only [get?, set, modify, Array.getElem?_modify] at given kept
  simp only [given, if_true, Option.map_some, Option.some.injEq] at kept
  rw [kept]

/-- The field recorded for the enclosing instance is the one that the constructors fill with their first parameter, whatever
its type. It has the type of the enclosing class just when the constructors fill no field of another type. From then on only
stores through the recorded reference are dropped, and only reads of a field with the recorded name are taken for the enclosing
instance. -/
theorem survey_outerField (config : Config) (table surveyed : ClassTable) (home : ClassId) (warnings : List Warning)
    (ran : table.survey config home = .ok (surveyed, warnings)) (before after : ClassFile) (given : table.get? home = some before)
    (unset : before.outerField = none) (kept : surveyed.get? home = some after) (outerField : OuterField)
    (recorded : after.outerField = some outerField) :
    ∃ stored field, after.Records outerField stored field ∧
      (∀ enclosing outer name, before.outer = some enclosing → table.get? enclosing = some outer → outer.name = .ok name →
        (after.pool.utf8 field.descriptorIndex = .ok (classType name) ↔
          ∀ reference, after.Captures reference →
            ∃ filled, after.pool.member reference = .ok filled ∧ filled.descriptor = classType name)) ∧
      ∀ (lifts : Prop) (later : ClassFile) (reached : ClassTable), after.Evolves lifts later →
        later.outerField = some outerField → reached.get? home = some later →
        (∀ method draft, dropOuterStore later method draft = draft ∨
          ∃ earlier statement rest, draft.statements = earlier ++ statement :: rest ∧
            dropOuterStore later method draft = ⟨draft.store, earlier ++ rest⟩ ∧
            Settles later.pool stored.owner draft.store statement (.assigns outerField.reference)) ∧
        ∀ reader pool index object name, holder? reached reader pool object = .ok (some home) →
          outerName? reached reader pool index object = .ok (some name) →
          ∃ read, pool.member index = .ok read ∧ read.owner = stored.owner ∧ read.name = stored.name := by
  obtain ⟨stored, field, records⟩ := ClassFile.survey_records (get?_of_update given ran kept) unset recorded
  refine ⟨stored, field, records, fun _ _ name _ _ _ => ?_, fun lifts later reached evolves stays there => ⟨?_, ?_⟩⟩
  · rw [records.descriptor]
    constructor
    · intro same reference captures
      cases records.captures_iff.mp captures
      exact ⟨stored, records.reference, Except.ok.inj same⟩
    · intro every
      obtain ⟨filled, read, same⟩ := every _ records.captured
      rw [records.reference] at read
      cases read
      rw [same]
  · exact fun method draft => dropOuterStore_cases stays stored.owner method draft
  · intro reader pool index object name held taken
    obtain ⟨file, known, declared, _, read, declaredName, found, same, position, _, _, reads, named, own, equal⟩ :=
      outerName?_ok taken held
    rw [there] at found
    cases found
    rw [stays] at same
    cases same
    -- The declared field has kept its name, and the class its own.
    obtain ⟨old, former, evolved⟩ := evolves.fields.right position
    rw [records.declared] at former
    cases former
    have index : declared.nameIndex = field.nameIndex := (congrArg Field.nameIndex evolved.header :)
    rw [index, evolves.pool.utf8 records.name] at named
    rw [evolves.name_of_ok records.own] at own
    exact ⟨read, reads, (Except.ok.inj own).symm, equal.trans (Except.ok.inj named).symm⟩

/-! A class within `a/Outer` whose constructor fills a field with its parameter, and a getter of that field. -/

def capturing (name type : String) (outerField : Option OuterField) : ClassTable :=
  ⟨#[{ thisIndex := 2, pool := ⟨#[none, some (.utf8 "a/Outer"), some (.classInfo 1)]⟩, inner := [1] },
    { thisIndex := 2
      superIndex := 10
      pool := ⟨#[none, some (.utf8 "a/Outer$1"), some (.classInfo 1), some (.utf8 name), some (.utf8 type),
        some (.nameAndType 3 4), some (.fieldRef 2 5), some (.utf8 "<init>"), some (.utf8 ("(" ++ type ++ ")V")),
        some (.utf8 "java/lang/Object"), some (.classInfo 9), some (.utf8 "()V"), some (.nameAndType 7 11),
        some (.methodRef 10 12), some (.utf8 "get"), some (.utf8 ("()" ++ type))]⟩
      fields := #[{ access := ⟨0x1010⟩, nameIndex := 3, descriptorIndex := 4 }]
      methods := #[
        { nameIndex := 7
          descriptorIndex := 8
          code := some {
            store := ⟨#[⟨0, none, .read (.slot .reference 0)⟩, ⟨1, none, .read (.slot .reference 1)⟩,
              ⟨2, none, .write (.field 6 0) 1⟩, ⟨5, none, .read (.slot .reference 0)⟩,
              ⟨6, none, .call .special 13 (some 3) []⟩, ⟨9, none, .ret none⟩]⟩
            maxLocals := 2
            instructions := [2, 4, 5] } },
        { nameIndex := 14
          descriptorIndex := 15
          code := some {
            store := ⟨#[⟨0, none, .read (.slot .reference 0)⟩, ⟨1, none, .read (.field 6 0)⟩, ⟨4, none, .ret (some 1)⟩]⟩
            maxLocals := 1
            instructions := [2] } }]
      innerAccess := some ⟨0⟩
      isAnonymous := true
      outer := some 0
      outerField }]⟩

theorem survey_capturing_this :
    (capturing "this$0" "La/Outer;" none).survey { nameLocals := false } 1 =
      .ok (capturing "this$0" "La/Outer;" (some ⟨6, 0⟩), []) := by
  with_unfolding_all rfl

theorem survey_capturing_variable :
    (capturing "val$text" "Ljava/lang/String;" none).survey { nameLocals := false } 1 =
      .ok (capturing "val$text" "Ljava/lang/String;" (some ⟨6, 0⟩), []) := by
  with_unfolding_all rfl

/-- A field of the type of the enclosing class. -/
theorem capturing_this_typed :
    ∃ after stored field, (capturing "this$0" "La/Outer;" (some ⟨6, 0⟩)).get? 1 = some after ∧
      after.Records ⟨6, 0⟩ stored field ∧
      (after.pool.utf8 field.descriptorIndex = .ok (classType "a/Outer") ↔
        ∀ reference, after.Captures reference →
          ∃ filled, after.pool.member reference = .ok filled ∧ filled.descriptor = classType "a/Outer") ∧
      after.pool.utf8 field.descriptorIndex = .ok (classType "a/Outer") := by
  obtain ⟨stored, field, records, typed, _⟩ := survey_outerField { nameLocals := false } (capturing "this$0" "La/Outer;" none)
    (capturing "this$0" "La/Outer;" (some ⟨6, 0⟩)) 1 [] survey_capturing_this _ _ rfl rfl rfl ⟨6, 0⟩ rfl
  refine ⟨_, stored, field, rfl, records, typed 0 _ "a/Outer" rfl rfl (by with_unfolding_all rfl), ?_⟩
  cases records.declared
  with_unfolding_all rfl

/-- A captured variable is taken for the enclosing instance: its store is dropped, and its getter returns `a/Outer.this`. -/
theorem capturing_variable_taken :
    ∃ surveyed after outer constructor getter, (capturing "val$text" "Ljava/lang/String;" none).survey { nameLocals := false } 1 =
        .ok (surveyed, []) ∧ surveyed.get? 1 = some after ∧ after.outer.bind surveyed.get? = some outer ∧
      outer.name = .ok "a/Outer" ∧ after.outerField = some ⟨6, 0⟩ ∧
      after.fields[0]?.map (fun field => after.pool.utf8 field.descriptorIndex) = some (.ok "Ljava/lang/String;") ∧
      classType "a/Outer" ≠ "Ljava/lang/String;" ∧
      after.code? 0 = some constructor ∧ (dropOuterStore after 0 ⟨constructor.store, [2, 4, 5]⟩).statements = [4, 5] ∧
      after.code? 1 = some getter ∧ getter.store.kind? 1 = some (.read (.field 6 0)) ∧
      outerName? surveyed 1 after.pool 6 (.read (.slot .reference 0)) = .ok (some "a/Outer") := by
  refine ⟨_, _, _, _, _, survey_capturing_variable, rfl, rfl, by with_unfolding_all rfl, rfl, by with_unfolding_all rfl, by decide, rfl,
    by with_unfolding_all rfl, rfl, rfl, by with_unfolding_all rfl⟩

end ClassTable

end ClassLift
