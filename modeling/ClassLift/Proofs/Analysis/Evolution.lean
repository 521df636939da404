import ClassLift.Proofs.Idiom.Position
import ClassLift.Proofs.Structure.Position

namespace ClassLift

variable {lifts rewrites : Prop} {config : Config} {file after : ClassFile} {warnings : List Warning}

namespace ClassFile

/-! ## Initializers -/

theorem setInitializers_develops (lifted : lifts) (file : ClassFile) (method : Nat) (writes : List InitialWrite) :
    file.Develops lifts rewrites (file.setInitializers method writes) := by
  unfold setInitializers
  refine List.foldlRecOn writes _ (.refl file) fun _ develops write _ => develops.trans ?_
  exact .modifyField write.field fun _ => ⟨⟨rfl, .inl lifted⟩, .refl _⟩

@[simp] theorem setInitializers_methods (file : ClassFile) (method : Nat) (writes : List InitialWrite) :
    (file.setInitializers method writes).methods = file.methods := by
  induction writes generalizing file with
  | nil => rfl
  | cons write rest continues => exact continues _

def Unflagged (file : ClassFile) (index : Nat) : Prop :=
  ∀ method, file.methods[index]? = some method → method.flagged = false

theorem dropStatements_develops {index : Nat} (unflagged : file.Unflagged index) (position count : Nat) :
    file.Develops lifts True (file.dropStatements index position count) := by
  refine .modifyMethod index fun method found => ?_
  cases body : method.code with
  | none => exact .of_code (.of_locals rfl rfl) (.refl _) id body.symm
  | some code => exact .setCode trivial (unflagged method found) body ⟨rfl, rfl, rfl, .refl _, .inl trivial⟩

theorem Unflagged.dropStatements {index : Nat} (unflagged : file.Unflagged index) (other position count : Nat) :
    (file.dropStatements other position count).Unflagged index := by
  intro method found
  simp only [ClassFile.dropStatements, ClassFile.modifyMethod, Array.getElem?_modify] at found
  split at found
  · obtain ⟨given, located, rfl⟩ := Option.map_eq_some_iff.mp found
    exact unflagged given located
  · exact unflagged method found

theorem unflagged_of_staticInitializer? {index : Nat} (found : file.staticInitializer? = some index) : file.Unflagged index := by
  intro method located
  obtain ⟨inside, holds, _⟩ := Array.findIdx?_eq_some_iff_getElem.mp found
  rw [Array.getElem?_eq_getElem inside, Option.some_inj] at located
  rw [located] at holds
  simpa using (Bool.and_eq_true_iff.mp holds).2

theorem unflagged_of_constructorCode? {index : Nat} {code : Code} (found : file.constructorCode? index = some code) :
    file.Unflagged index := by
  intro method located
  obtain ⟨declared, same, counts⟩ := Option.bind_eq_some_iff.mp found
  cases located.symm.trans same
  split at counts
  · rename_i holds
    simpa using (Bool.and_eq_true_iff.mp holds).2
  · cases counts

structure Gathered (file : ClassFile) (className : String) (constructor : Constructor) (code : Code) : Prop where
  counts : file.constructorCode? constructor.method = some code
  calls : ∃ owner, owner ≠ className ∧
    constructorCall? file.pool code.store 0 code.statements = .ok (some (constructor.position, owner))
  store : constructor.store = code.store
  collected : file.initialWrites className code.store (instanceTarget? code.store) acceptsInstance []
    (code.statements.drop constructor.position) = .ok constructor.writes

inductive Scans (file : ClassFile) (className : String) : List Nat → List Constructor → Prop
  | nil : Scans file className [] []
  | skip {index : Nat} {rest : List Nat} {found : List Constructor} (absent : file.constructorCode? index = none)
      (scans : Scans file className rest found) : Scans file className (index :: rest) found
  | delegate {index position : Nat} {code : Code} {rest : List Nat} {found : List Constructor}
      (counts : file.constructorCode? index = some code)
      (calls : constructorCall? file.pool code.store 0 code.statements = .ok (some (position, className)))
      (scans : Scans file className rest found) : Scans file className (index :: rest) found
  | take {constructor : Constructor} {code : Code} {rest : List Nat} {found : List Constructor}
      (gathered : Gathered file className constructor code) (scans : Scans file className rest found) :
      Scans file className (constructor.method :: rest) (constructor :: found)

section Scans

variable {className : String} {indices : List Nat} {found : List Constructor}

theorem constructors?_scans (ran : file.constructors? className indices = .ok (some found)) :
    file.Scans className indices found := by
  induction indices generalizing found with
  | nil =>
    cases ran
    exact .nil
  | cons index rest continues =>
    unfold constructors? at ran
    split at ran
    · rename_i absent
      exact .skip absent (continues ran)
    · rename_i code counts
      obtain ⟨call, calls, ran⟩ := except_bind_ok.mp ran
      split at ran
      · rename_i position owner
        split at ran
        · rename_i delegates
          obtain rfl : owner = className := by simpa using delegates
          exact .delegate counts calls (continues ran)
        · rename_i foreign
          obtain ⟨writes, collected, ran⟩ := except_bind_ok.mp ran
          obtain ⟨others, listed, same⟩ := except_bind_ok.mp ran
          obtain ⟨tail, rfl, rfl⟩ := Option.map_eq_some_iff.mp (Except.ok.inj same)
          have gathered : file.Gathered className ⟨index, position, writes, code.store⟩ code :=
            ⟨counts, ⟨owner, by simpa using foreign, calls⟩, rfl, collected⟩
          exact .take gathered (continues listed)
      · cases ran

theorem Scans.gathered (scans : file.Scans className indices found) :
    ∀ constructor ∈ found, ∃ code, file.Gathered className constructor code := by
  induction scans with
  | nil => exact fun _ member => nomatch member
  | skip _ _ continues => exact continues
  | delegate _ _ _ continues => exact continues
  | take gathered _ continues => exact List.forall_mem_cons.mpr ⟨⟨_, gathered⟩, continues⟩

theorem Scans.sublist (scans : file.Scans className indices found) : (found.map Constructor.method).Sublist indices := by
  induction scans with
  | nil => exact .slnil
  | skip _ _ continues => exact .cons _ continues
  | delegate _ _ _ continues => exact .cons _ continues
  | take _ _ continues => exact .cons_cons _ continues

end Scans

theorem dropAll_develops {constructors : List Constructor} (count : Nat)
    (unflagged : ∀ constructor ∈ constructors, file.Unflagged constructor.method) :
    file.Develops lifts True (constructors.foldl
      (fun file constructor => file.dropStatements constructor.method constructor.position count) file) := by
  induction constructors generalizing file with
  | nil => exact .refl file
  | cons first rest continues =>
    refine (dropStatements_develops (unflagged first List.mem_cons_self) first.position count).trans (continues ?_)
    exact fun constructor member => (unflagged constructor (List.mem_cons_of_mem _ member)).dropStatements _ _ _

theorem liftStaticInitializers_develops (lifted : lifts) (ran : file.liftStaticInitializers = .ok after) :
    file.Develops lifts True after := by
  unfold liftStaticInitializers at ran
  split at ran
  · rename_i method found
    obtain ⟨className, _, ran⟩ := except_bind_ok.mp ran
    split at ran
    · obtain ⟨writes, _, ran⟩ := except_bind_ok.mp ran
      cases ran
      refine (setInitializers_develops lifted file method writes).trans (dropStatements_develops ?_ _ _)
      intro declared located
      rw [setInitializers_methods] at located
      exact unflagged_of_staticInitializer? found declared located
    · cases ran
      exact .refl file
  · cases ran
    exact .refl file

theorem liftInstanceInitializers_develops (lifted : lifts) (ran : file.liftInstanceInitializers = .ok after) :
    file.Develops lifts True after := by
  unfold liftInstanceInitializers at ran
  obtain ⟨className, _, ran⟩ := except_bind_ok.mp ran
  obtain ⟨found, scanned, ran⟩ := except_bind_ok.mp ran
  split at ran
  · split at ran
    · cases ran
      refine (setInitializers_develops lifted file _ _).trans (dropAll_develops _ fun constructor member declared located => ?_)
      rw [setInitializers_methods] at located
      obtain ⟨code, gathered⟩ := (constructors?_scans scanned).gathered constructor member
      exact unflagged_of_constructorCode? gathered.counts declared located
    · cases ran
      exact .refl file
  · cases ran
    exact .refl file

theorem liftInitializers_develops (lifted : lifts) (file : ClassFile) : file.Develops lifts True file.liftInitializers.1 := by
  have statics : ∀ middle, file.liftStaticInitializers = .ok middle → file.Develops lifts True middle :=
    fun middle ran => liftStaticInitializers_develops lifted ran
  unfold liftInitializers
  -- Instance initializers are lifted whether or not the static ones could be.
  cases ran : file.liftStaticInitializers with
  | ok middle =>
    cases instances : middle.liftInstanceInitializers with
    | ok last => simpa [instances] using (statics middle ran).trans (liftInstanceInitializers_develops lifted instances)
    | error error => simpa [instances] using statics middle ran
  | error error =>
    cases instances : file.liftInstanceInitializers with
    | ok last => simpa [instances] using liftInstanceInitializers_develops lifted instances
    | error error => simpa [instances] using ClassFile.Develops.refl file

/-! ## Enums -/

section SwitchMaps

variable {related : ClassFile → ClassFile → Prop} [Std.Refl related] [IsTrans ClassFile related]
  (mark : ∀ file position, related file (file.modifyField position Field.markSynthetic))
  (record : ∀ file switchMaps, related file { file with switchMaps })
include mark record

theorem recordSwitchMap_related (keyed : List (PoolIndex × OrdinalStore)) (file : ClassFile) (key : PoolIndex) :
    related file (recordSwitchMap keyed file key) := by
  unfold recordSwitchMap
  extract_lets stores isCache marked
  have marks : related file marked := by
    unfold marked
    cases file.fields.findIdx? isCache with
    | none => exact Std.Refl.refl file
    | some position => exact mark file position
  exact IsTrans.trans _ _ _ marks (record marked _)

theorem decodeSwitchMaps_related (ran : file.decodeSwitchMaps = .ok after) : related file after := by
  unfold decodeSwitchMaps at ran
  split at ran
  · obtain ⟨className, _, ran⟩ := except_bind_ok.mp ran
    obtain ⟨stores, _, ran⟩ := except_bind_ok.mp ran
    obtain ⟨keyed, _, ran⟩ := except_bind_ok.mp ran
    cases ran
    exact List.foldlRecOn _ _ (Std.Refl.refl file) fun middle earlier field _ =>
      IsTrans.trans _ _ _ earlier (recordSwitchMap_related mark record keyed middle field)
  · cases ran
    exact Std.Refl.refl file

end SwitchMaps

theorem decodeSwitchMaps_develops (ran : file.decodeSwitchMaps = .ok after) : file.Develops lifts rewrites after :=
  decodeSwitchMaps_related (fun _ position => .markField position) (fun _ _ => .record rfl rfl rfl rfl) ran

section EnumValues

variable {related : ClassFile → ClassFile → Prop} [Std.Refl related]

theorem markMethod_related (markMethod : ∀ file index, related file (file.modifyMethod index Method.markSynthetic))
    (file : ClassFile) (name descriptor : String) : related file (file.markMethod name descriptor) := by
  unfold ClassFile.markMethod
  cases file.findMethod? name descriptor with
  | none => exact Std.Refl.refl file
  | some position => exact markMethod file position

variable [IsTrans ClassFile related]

theorem recordEnumValues_related (markMethod : ∀ file index, related file (file.modifyMethod index Method.markSynthetic))
    (record : ∀ (file : ClassFile) (constants : List PoolIndex), related file { file with enumValues := some constants })
    (file : ClassFile) (className : String) (constants : List PoolIndex) :
    related file (file.recordEnumValues className constants) :=
  IsTrans.trans _ _ _ (IsTrans.trans _ _ _ (record file constants) (markMethod_related markMethod _ _ _))
    (markMethod_related markMethod _ _ _)

theorem enumConstants?_preserves (markMethod : ∀ file index, related file (file.modifyMethod index Method.markSynthetic))
    (className : String) (values : Initializer) : Preserves related (enumConstants? className values) := by
  unfold enumConstants?
  refine .get_bind fun file => ?_
  split
  · split
    · refine preserves_bind (preserves_of_unchanged fun _ => rfl) fun called => ?_
      split
      · exact preserves_pure _
      · split
        · exact preserves_bind (preserves_modify fun file => markMethod file _) fun _ =>
            preserves_of_unchanged fun _ => rfl
        · exact preserves_pure _
    · exact preserves_of_unchanged fun _ => rfl
  · exact preserves_pure _

theorem decodeEnumValues_preserves (markField : ∀ file index, related file (file.modifyField index Field.markSynthetic))
    (markMethod : ∀ file index, related file (file.modifyMethod index Method.markSynthetic))
    (record : ∀ (file : ClassFile) (constants : List PoolIndex), related file { file with enumValues := some constants }) :
    Preserves related decodeEnumValues := by
  unfold decodeEnumValues
  refine .get_bind fun file => preserves_bind (preserves_of_unchanged fun _ => rfl) fun className => ?_
  extract_lets descriptor
  split
  · refine preserves_bind (preserves_modify fun file => markField file _) fun _ => ?_
    split
    · refine preserves_bind (preserves_of_unchanged fun _ => rfl) fun values => ?_
      split
      · refine preserves_bind (enumConstants?_preserves markMethod className _) fun constants => ?_
        split
        · exact preserves_modify fun file => recordEnumValues_related markMethod record file className _
        · exact preserves_pure _
      · exact preserves_pure _
    · exact preserves_pure _
  · exact preserves_pure _

end EnumValues

theorem decodeEnumValues_develops : Preserves (Develops lifts rewrites) decodeEnumValues :=
  decodeEnumValues_preserves (fun _ _ => .markField _) (fun _ _ => .markMethod _) fun _ _ => .record rfl rfl rfl rfl

theorem decodeEnum_develops : Preserves (Develops lifts rewrites) decodeEnum := by
  have ordered : Preserves (Develops lifts rewrites) (do if (← get).isEnum then decodeEnumValues) := by
    refine .get_bind fun file => ?_
    split
    · exact decodeEnumValues_develops
    · exact preserves_pure _
  refine preserves_get_bind fun file => related_bind (.refl file) fun decoded middle read => ?_
  have decodes : file.decodeSwitchMaps = .ok decoded := congrArg Prod.fst read
  obtain rfl : file = middle := congrArg Prod.snd read
  exact related_bind (decodeSwitchMaps_develops decodes) fun _ current _ => ordered current

theorem readEnumOrder_develops (file : ClassFile) : file.Develops lifts rewrites file.readEnumOrder.1 := by
  -- What was decoded before a failure stays.
  have decoded : file.Develops lifts rewrites (decodeEnum file).2 := decodeEnum_develops file
  unfold readEnumOrder
  cases ran : decodeEnum file with
  | mk outcome after =>
    rw [ran] at decoded
    cases outcome <;> exact decoded

/-! ## Structuring -/

theorem structureMethod_develops {index : Nat} (ran : file.structureMethod config index = .ok (after, warnings)) :
    file.Develops lifts True after := by
  unfold structureMethod at ran
  split at ran
  · cases ran
    exact .refl file
  · rename_i method found
    split at ran
    · rename_i code unflagged body
      cases structured : file.structureCode config method code with
      | mk outcome built =>
        simp only [structured] at ran
        have develops := structureCode_develops config file method code
        rw [structured] at develops
        have changed : file.Develops lifts True (file.modifyMethod index fun method => { method with code := some built }) := by
          refine .modifyMethod index fun other located => ?_
          cases found.symm.trans located
          exact .setCode trivial unflagged body develops
        cases outcome with
        | ok _ =>
          cases ran
          exact changed
        | error failure =>
          cases failure with
          | descriptor error => cases ran
          | method error =>
            cases ran
            exact changed.trans (flag_develops _ index error)
    · cases ran
      exact .refl file

theorem structureMethods_develops (indices : List Nat) (ran : file.structureMethods config indices = .ok (after, warnings)) :
    file.Develops lifts True after := by
  induction indices generalizing file warnings with
  | nil =>
    cases ran
    exact .refl _
  | cons index rest continues =>
    obtain ⟨⟨middle, found⟩, first, ran⟩ := except_bind_ok.mp ran
    obtain ⟨⟨last, more⟩, later, same⟩ := except_bind_ok.mp ran
    cases same
    exact (structureMethod_develops first).trans (continues later)

theorem finish_develops (ran : file.finish config = .ok (after, warnings)) :
    file.Develops (config.liftInitializers = true) True after := by
  have lifted : file.Develops (config.liftInitializers = true) True
      (if config.liftInitializers then file.liftInitializers else (file, [])).1 := by
    split
    · rename_i lifts
      exact liftInitializers_develops lifts file
    · exact .refl file
  obtain ⟨⟨last, structuring⟩, structured, same⟩ := except_bind_ok.mp ran
  cases same
  exact (lifted.trans (readEnumOrder_develops _)).trans (structureMethods_develops _ structured)

end ClassFile

/-! ## Whole tables -/

namespace ClassTable

variable {table last : ClassTable} {id root : ClassId}

theorem update_develops {change : ClassFile → Except DescriptorError (ClassFile × List Warning)}
    (step : ∀ {file after warnings}, change file = .ok (after, warnings) → file.Develops lifts rewrites after)
    (ran : table.update id change = .ok (last, warnings)) : table.Develops lifts rewrites (· = id) last := by
  unfold update at ran
  split at ran
  · rename_i file found
    obtain ⟨⟨after, more⟩, changed, same⟩ := except_bind_ok.mp ran
    cases same
    exact .set found (step changed)
  · cases ran
    exact .refl table

theorem survey_develops (ran : table.survey config id = .ok (last, warnings)) : table.Develops lifts rewrites (· = id) last :=
  update_develops ClassFile.survey_develops ran

theorem rebuild_develops (ran : table.rebuild config id = .ok (last, warnings)) :
    table.Develops (config.liftInitializers = true) True (· = id) last := by
  obtain ⟨⟨middle, recovering⟩, recovered, ran⟩ := except_bind_ok.mp ran
  obtain ⟨⟨after, finishing⟩, finished, same⟩ := except_bind_ok.mp ran
  cases same
  exact (recover_develops recovered).trans (update_develops ClassFile.finish_develops finished)

theorem forEach_develops {step : ClassTable → ClassId → Except DescriptorError (ClassTable × List Warning)}
    (steps : ∀ {table id last warnings}, step table id = .ok (last, warnings) → table.Develops lifts rewrites (· = id) last)
    (ids : List ClassId) (ran : table.forEach step ids = .ok (last, warnings)) :
    table.Develops lifts rewrites (· ∈ ids) last := by
  induction ids generalizing table warnings with
  | nil =>
    cases ran
    exact .refl _
  | cons id rest continues =>
    obtain ⟨⟨middle, found⟩, first, ran⟩ := except_bind_ok.mp ran
    obtain ⟨⟨final, more⟩, later, same⟩ := except_bind_ok.mp ran
    cases same
    refine ((steps first).widen fun other here => ?_).trans ((continues later).widen fun other => List.mem_cons_of_mem id)
    exact List.mem_cons.mpr (.inl here)

theorem analyze_ok {analysis : Analysis} (ran : table.analyze config root = .ok analysis) :
    table.Evolves (config.liftInitializers = true) analysis.table ∧
      ((∃ references, analysis.references = .ok references) ↔ (analysis.table.imports root).outcome = .ok ()) := by
  obtain ⟨⟨surveyed, surveying⟩, survey, ran⟩ := except_bind_ok.mp ran
  obtain ⟨⟨rebuilt, rebuilding⟩, rebuild, same⟩ := except_bind_ok.mp ran
  cases same
  have develops : table.Develops (config.liftInitializers = true) True (· ∈ table.subtree root) rebuilt :=
    (forEach_develops survey_develops _ survey).trans (forEach_develops rebuild_develops _ rebuild)
  refine ⟨develops.evolves, ?_⟩
  cases outcome : (rebuilt.imports root).outcome with
  | error error => exact ⟨by rintro ⟨references, ⟨⟩⟩, nofun⟩
  | ok _ => exact ⟨fun _ => rfl, fun _ => ⟨_, rfl⟩⟩

end ClassTable

end ClassLift
