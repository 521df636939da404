import ClassLift.Proofs.Analysis.Evolution

namespace ClassLift

inductive Stage where
  | survey (config : Config)
  | recover
  | liftStatics
  | liftInstances
  | orderEnum
  | structureBodies (config : Config)

namespace ClassFile

def tryLift (lift : ClassFile → Except PoolError ClassFile) (report : PoolError → Warning) (file : ClassFile) :
    ClassFile × List Warning :=
  match lift file with
  | .ok lifted => (lifted, [])
  | .error error => (file, [report error])

theorem tryLift_develops {lift : ClassFile → Except PoolError ClassFile} (report : PoolError → Warning)
    (lifts : ∀ {file after}, lift file = .ok after → file.Develops True True after) (file : ClassFile) :
    file.Develops True True (file.tryLift lift report).1 := by
  unfold tryLift
  cases lifted : lift file with
  | ok after => exact lifts lifted
  | error error => exact .refl file

end ClassFile

namespace Stage

def perform (table : ClassTable) (id : ClassId) : Stage → Except DescriptorError (ClassTable × List Warning)
  | survey config => table.survey config id
  | recover => table.recover id
  | liftStatics => table.update id fun file => .ok (file.tryLift ClassFile.liftStaticInitializers .staticInitializers)
  | liftInstances => table.update id fun file => .ok (file.tryLift ClassFile.liftInstanceInitializers .instanceInitializers)
  | orderEnum => table.update id fun file => .ok file.readEnumOrder
  | structureBodies config => table.update id (ClassFile.structureBodies config)

theorem perform_develops {table last : ClassTable} {id : ClassId} {stage : Stage} {warnings : List Warning}
    (ran : stage.perform table id = .ok (last, warnings)) : table.Develops True True (· = id) last := by
  have always {change : ClassFile → ClassFile × List Warning} (step : ∀ file, ClassFile.Develops True True file (change file).1)
      (ran : table.update id (fun file => .ok (change file)) = .ok (last, warnings)) : table.Develops True True (· = id) last := by
    refine ClassTable.update_develops (fun {file after found} changed => ?_) ran
    obtain rfl : (change file).1 = after := congrArg Prod.fst (Except.ok.inj changed)
    exact step file
  cases stage with
  | survey config => exact ClassTable.survey_develops ran
  | recover => exact ClassTable.recover_develops ran
  | liftStatics => exact always (ClassFile.tryLift_develops _ (ClassFile.liftStaticInitializers_develops trivial)) ran
  | liftInstances => exact always (ClassFile.tryLift_develops _ (ClassFile.liftInstanceInitializers_develops trivial)) ran
  | orderEnum => exact always ClassFile.readEnumOrder_develops ran
  | structureBodies config => exact ClassTable.update_develops (ClassFile.structureMethods_develops _) ran

end Stage

namespace ClassTable

def performAll (table : ClassTable) : List (Stage × ClassId) → Except DescriptorError (ClassTable × List Warning)
  | [] => .ok (table, [])
  | (stage, id) :: rest => do
      let (table, warnings) ← stage.perform table id
      let (table, more) ← table.performAll rest
      return (table, warnings ++ more)

variable {table last : ClassTable} {calls : List (Stage × ClassId)} {warnings : List Warning}

theorem performAll_develops (ran : table.performAll calls = .ok (last, warnings)) :
    table.Develops True True (∃ call ∈ calls, call.2 = ·) last := by
  induction calls generalizing table warnings with
  | nil =>
    cases ran
    exact .refl _
  | cons call rest continues =>
    obtain ⟨stage, id⟩ := call
    obtain ⟨⟨middle, found⟩, first, ran⟩ := except_bind_ok.mp ran
    obtain ⟨⟨final, more⟩, later, same⟩ := except_bind_ok.mp ran
    cases same
    refine ((Stage.perform_develops first).widen ?_).trans ((continues later).widen ?_)
    · rintro other rfl
      exact ⟨_, List.mem_cons_self, rfl⟩
    · rintro other ⟨call, member, same⟩
      exact ⟨call, List.mem_cons_of_mem _ member, same⟩

/-- No stage moves a node: whatever is called, the nodes of a body keep their offsets and lines, and nodes that were added stand
where a node of the body stood at the start. -/
theorem performAll_keeps_positions (table last : ClassTable) (calls : List (Stage × ClassId)) (warnings : List Warning)
    (ran : table.performAll calls = .ok (last, warnings)) (home : ClassId) (index : Nat) (method : Method) (code : Code)
    (given : table.method? home index = some method) (body : method.code = some code) :
    ∃ result made, last.method? home index = some result ∧ result.code = some made ∧
      (∀ id place, code.store.position? id = some place → made.store.position? id = some place) ∧
      ∀ id place, made.store.position? id = some place → ∃ origin, code.store.position? origin = some place := by
  obtain ⟨result, pool, here, develops, _⟩ := (performAll_develops ran).method? given
  obtain ⟨made, kept, changed⟩ := develops.code_eq_some body
  exact ⟨result, made, here, kept, changed.store.kept, changed.store.added⟩

/-- What else a class has: no stage adds or drops members or changes their declarations, raw bodies or handlers. Flags of members
are only ever set, a flagged method keeps its body, and constants are only added, and to no class but those called on. -/
theorem performAll_frames (table last : ClassTable) (calls : List (Stage × ClassId)) (warnings : List Warning)
    (ran : table.performAll calls = .ok (last, warnings)) (home : ClassId) (file : ClassFile)
    (found : table.get? home = some file) :
    ∃ other, last.get? home = some other ∧
      Pointwise (fun before after : Field => after.header = before.header ∧ before.access.Marked after.access)
        file.fields other.fields ∧
      Pointwise (fun before after : Method =>
        after.header = before.header ∧ before.access.Marked after.access ∧ (before.flagged = true → after.flagged = true) ∧
        (before.code = none → after.code = none) ∧ ∀ code, before.code = some code → ∃ made, after.code = some made ∧
          made.instructions = code.instructions ∧ made.handlers = code.handlers ∧ made.maxLocals = code.maxLocals ∧
          (before.flagged = true → made.store = code.store ∧ made.statements = code.statements)) file.methods other.methods ∧
      file.pool.Extends other.pool ∧ ((∀ call ∈ calls, call.2 ≠ home) → other.pool = file.pool) := by
  obtain ⟨other, there, develops, rest⟩ := (performAll_develops ran).left home file found
  refine ⟨other, there, ⟨develops.fields.size, fun index field located => ?_⟩,
    ⟨develops.methods.size, fun index method located => ?_⟩, develops.pool, fun elsewhere => ?_⟩
  · obtain ⟨result, here, kept⟩ := develops.fields.left index field located
    exact ⟨result, here, kept.header, kept.access⟩
  · obtain ⟨result, here, kept⟩ := develops.methods.left index method located
    refine ⟨result, here, kept.header, kept.access, kept.flagged, kept.code_eq_none, fun code body => ?_⟩
    obtain ⟨made, body, changed⟩ := kept.code_eq_some body
    refine ⟨made, body, changed.instructions, changed.handlers, changed.maxLocals, fun flagged => changed.body.resolve_left ?_⟩
    simp [flagged]
  · rcases rest with ⟨call, member, same⟩ | marks
    · exact absurd same (elsewhere call member)
    · exact marks.2

/-! A class that asks a helper of the enclosing class for the class `int[]`. The helper is flagged. -/

def helperClass (access : Access) : ClassFile where
  thisIndex := 2
  pool := ⟨#[none, some (.utf8 "a/Main"), some (.classInfo 1), some (.utf8 "class$"),
    some (.utf8 "(Ljava/lang/String;)Ljava/lang/Class;")]⟩
  methods := #[{ access, nameIndex := 3, descriptorIndex := 4, flagged := true
                 code := some { store := ⟨#[⟨0, none, .ret none⟩]⟩, instructions := [0], statements := [0] } }]

def lookupPool : Pool :=
  ⟨#[none, some (.utf8 "a/Main$In"), some (.classInfo 1), some (.utf8 "a/Main"), some (.classInfo 3), some (.utf8 "class$"),
    some (.utf8 "(Ljava/lang/String;)Ljava/lang/Class;"), some (.nameAndType 5 6), some (.methodRef 4 7),
    some (.utf8 "[I"), some (.string 9), some (.utf8 "f"), some (.utf8 "()V")]⟩

def lookupStore : Store :=
  ⟨#[⟨0, some 7, .constant 10⟩, ⟨2, some 7, .call .static 8 none [0]⟩, ⟨5, some 7, .discard 1⟩, ⟨6, some 8, .ret none⟩]⟩

def lookupClass (pool : Pool) (store : Store) (statements : List NodeId) : ClassFile where
  thisIndex := 2
  outer := some 0
  pool := pool
  methods := #[{ nameIndex := 11, descriptorIndex := 12, code := some { store, instructions := [2, 3], statements } }]

def lookup : ClassTable := ⟨#[helperClass ⟨8⟩, lookupClass lookupPool lookupStore []]⟩

def lookedUp : ClassTable :=
  ⟨#[helperClass ⟨0x1008⟩,
    lookupClass
      ⟨lookupPool.entries ++ #[some (.utf8 "java/lang/Object"), some (.classInfo 13), some (.utf8 "getClass"),
        some (.utf8 "()Ljava/lang/Class;"), some (.nameAndType 15 16), some (.methodRef 14 17)]⟩
      ⟨(lookupStore.replace 1 (.call .virtual 18 (some 5) [])).nodes ++
        #[⟨2, some 7, .literal (.int 0)⟩, ⟨2, some 7, .newArray .int 4⟩]⟩
      [2]]⟩

theorem performAll_lookup : lookup.performAll [(.recover, 1), (.structureBodies {}, 1)] = .ok (lookedUp, []) := by
  with_unfolding_all rfl

theorem lookup_keeps_positions :
    lookup.performAll [(.recover, 1), (.structureBodies {}, 1)] = .ok (lookedUp, []) ∧
      ∃ result made, lookedUp.method? 1 0 = some result ∧ result.code = some made ∧
        made.store.position? 5 = some (2, some 7) ∧ ∃ origin, lookupStore.position? origin = some (2, some 7) := by
  obtain ⟨result, made, here, body, _, added⟩ := performAll_keeps_positions lookup _ _ _ performAll_lookup 1 0 _ _ rfl rfl
  have same : made.store.position? 5 = some (2, some 7) := by
    cases here
    cases body
    rfl
  exact ⟨performAll_lookup, result, made, here, body, same, added 5 _ same⟩

/-- The helper is marked and keeps its flag, and the pool of its class stays as it is. -/
theorem lookup_frames :
    lookup.performAll [(.recover, 1), (.structureBodies {}, 1)] = .ok (lookedUp, []) ∧
      ∃ other helper, lookedUp.get? 0 = some other ∧ other.methods[0]? = some helper ∧
        helper.access = (⟨8⟩ : Access).markSynthetic ∧ helper.flagged = true ∧ other.pool = (helperClass ⟨8⟩).pool := by
  obtain ⟨other, there, _, methods, _, pool⟩ := performAll_frames lookup _ _ _ performAll_lookup 0 (helperClass ⟨8⟩) rfl
  obtain ⟨helper, here, _, _, flagged, _⟩ := methods.left 0 _ rfl
  refine ⟨performAll_lookup, other, helper, there, here, ?_, flagged rfl, pool (by decide)⟩
  cases there
  cases here
  rfl

end ClassTable

end ClassLift
