import ClassLift.Proofs.Analysis.Evolution
import ClassLift.Proofs.Idiom.Ordinary
import ClassLift.Proofs.Idiom.Preservation

namespace ClassLift

def ClassFile.replaceBodies (body : Nat → Code → Code) (file : ClassFile) : ClassFile :=
  { file with methods := file.methods.mapIdx fun index method => { method with code := method.code.map (body index) } }

/-- A part of a body that sets static fields to constants. -/
def Kind.isSetting : Kind → Bool
  | .constant _ | .write (.static _) _ | .ret none => true
  | _ => false

namespace Draft

theorem Fold.eq_of_setting {draft next : Draft} (setting : ∀ id kind, draft.store.kind? id = some kind → kind.isSetting)
    (fold : draft.Fold next) : next = draft := by
  have no {id : NodeId} {kind : Kind} (other : kind.isSetting = false) (found : draft.store.kind? id = some kind) : False :=
    Bool.false_ne_true (other.symm.trans (setting id kind found))
  have ordinary (pool : Pool) : draft.Ordinary pool := by
    intro root _ id kind _ found
    have plain := setting id kind found
    cases kind <;> first
      | trivial
      | cases plain
      | exact fun _ _ _ binary => (no rfl binary).elim
  -- A step at a statement leaves an ordinary body alone. A step at a node may be at any node, listed or not, so its kind decides.
  cases fold with
  | outerStore file method =>
    unfold OuterInstance.dropOuterStore
    split
    · split
      · rw [List.eraseP_of_forall_not]
        intro id _ stores
        unfold OuterInstance.isOuterStore at stores
        split at stores
        · exact no rfl ‹_›
        · cases stores
      · rfl
    · rfl
  | setter statements ran =>
    rcases OuterInstance.inlineSetter_ok ran with ⟨rfl, _⟩ | ⟨_, _, _, _, _, _, _, found, ⟨_, _, rfl⟩, _⟩
    · rfl
    · exact (no rfl found).elim
  | outerInstance statements ran =>
    rcases OuterInstance.foldNode_ok ran with
      ⟨rfl, _⟩ | ⟨_, _, _, _, _, found, ⟨_, _, rfl⟩, _⟩ | ⟨_, _, _, _, _, found, _⟩
    · rfl
    · exact (no rfl found).elim
    · exact (no rfl found).elim
  | construction ran =>
    cases (Construction.step_ordinary (ordinary _) rfl).symm.trans ran
    rfl
  | increment targets store spot => rw [Increment.step_ordinary (ordinary {}) rfl]
  | cachedLiteral ran =>
    rw [ClassLiteral.foldCached_ordinary (ordinary {}) rfl] at ran
    cases (OnTable.return_ok ran).1
    rfl
  | @classLiteral home store changed id table last statements ran =>
    have idle : Idles (ClassLiteral.foldCall home store id) table store := by
      unfold ClassLiteral.foldCall
      split
      · exact (no rfl ‹_›).elim
      · exact idles_pure _
    cases idle.symm.trans ran
    rfl
  | @concatenation home store changed id table last statements ran =>
    have idle : Idles (Concatenation.foldNode home store id) table store := by
      unfold Concatenation.foldNode Concatenation.operands?
      split
      case h_1 kind found =>
        refine OnTable.pool_bind_ok.mpr ?_
        split
        · exact (no rfl found).elim
        · rfl
      case h_2 => rfl
    cases idle.symm.trans ran
    rfl
  | assignment store spot => rw [Assignment.step_ordinary (ordinary {}) rfl]
  | arrayLiteral store spot => rw [ArrayLiteral.step_ordinary (ordinary {}) rfl]
  | compoundAssignment store spot => rw [CompoundAssignment.step_ordinary (ordinary {}) rfl]
  | compoundValue store statements id =>
    unfold CompoundAssignment.foldNode
    split
    · exact (no rfl ‹_›).elim
    · rfl
  | conditional ran =>
    cases (Conditional.step_ordinary (ordinary {}) rfl).symm.trans ran
    rfl

end Draft

namespace ClassTable

def replaceBodies (body : ClassId → Nat → Code → Code) (table : ClassTable) : ClassTable :=
  ⟨table.classes.mapIdx fun id file => file.replaceBodies (body id)⟩

theorem replaceBodies_evolves {lifts : Prop} (body : ClassId → Nat → Code → Code) (table : ClassTable) :
    table.Evolves lifts (table.replaceBodies body) :=
  Pointwise.mapIdx fun _ _ => ⟨rfl, .refl _, .refl .refl _, .mapIdx fun _ _ => .of_locals rfl rfl⟩

def bodiesBelow (table : ClassTable) (root : ClassId) : List Code :=
  (table.subtreeFiles root).flatMap fun file => file.methods.toList.filterMap Method.code

/-- Where values are repeated behind the statements that hold them, no comparison of parts of the bodies goes round in a circle.
Then a class whose declarations can be read is analyzed successfully exactly if the initial values that end up in its fields can
be read. Bodies do not help a class whose declarations cannot be read, unless its constants or its declarations refer to
something outside of the pool, which a body may add. -/
theorem analyze_replaceBodies_ok_iff (config : Config) (table : ClassTable) (root : ClassId)
    (body : ClassId → Nat → Code → Code) (analysis : Analysis)
    (fits : ∀ file ∈ table.subtreeFiles root, file.pool.count ≤ Pool.limit)
    (anchored : ∀ code ∈ (table.replaceBodies body).bodiesBelow root, code.StaysAnchored)
    (ran : (table.replaceBodies body).analyze config root = .ok analysis) :
    (∀ code ∈ (table.replaceBodies body).bodiesBelow root, code.Compares) ∧
    (table.DeclarationsReadable root →
      ((∃ references, analysis.references = .ok references) ↔ analysis.table.InitializersReadable root)) ∧
    ((∀ file ∈ table.subtreeFiles root, file.Closed) → (∃ references, analysis.references = .ok references) →
      table.DeclarationsReadable root) ∧
    (config.liftInitializers = false →
      (∀ file ∈ table.subtreeFiles root, ∀ field ∈ file.fields, field.initializer = none) →
      analysis.table.InitializersReadable root) := by
  obtain ⟨evolved, succeeds⟩ := analyze_ok ran
  have evolves := (replaceBodies_evolves body table).trans evolved
  rw [imports_ok] at succeeds
  refine ⟨fun code among => (anchored code among).compares, fun declared => ?_, fun closed succeeded => ?_,
    fun unlifted missing => ?_⟩
  · have kept : analysis.table.DeclarationsReadable root := by
      intro file among
      obtain ⟨old, there, evolves⟩ := evolves.mem_subtreeFiles among
      exact evolves.declarationsReadable (fits old there) (declared old there)
    rw [succeeds, and_iff_right kept]
  · -- A closed class mentions nothing that the growing pool could make readable.
    intro file among
    obtain ⟨other, there, evolves⟩ := evolves.mem_subtreeFiles_left among
    exact (closed file among).declarationsReadable evolves ((succeeds.mp succeeded).1 other there)
  · intro file among
    obtain ⟨old, there, evolves⟩ := evolves.mem_subtreeFiles among
    exact ClassFile.initializersReadable_of_none (by simp [unlifted]) evolves (missing old there)

/-! A class whose static initializer sets a field to a constant, which may be outside of the pool. -/

def settingTo (constant : PoolIndex) : Code where
  store := ⟨#[⟨0, none, .constant constant⟩, ⟨2, none, .write (.static 6) 0⟩, ⟨5, none, .ret none⟩]⟩
  instructions := [1, 2]

def initializedClass : ClassFile where
  access := ⟨33⟩
  thisIndex := 2
  pool := ⟨#[none, some (.utf8 "a/Main"), some (.classInfo 1), some (.utf8 "x"), some (.utf8 "I"), some (.nameAndType 3 4),
    some (.fieldRef 2 5), some (.utf8 "<clinit>"), some (.utf8 "()V")]⟩
  fields := #[{ access := ⟨8⟩, nameIndex := 3, descriptorIndex := 4 }]
  methods := #[{ access := ⟨8⟩, nameIndex := 7, descriptorIndex := 8, code := some (settingTo 1) }]

def initialized : ClassTable := ⟨#[initializedClass]⟩

theorem initialized_declarationsReadable : initialized.DeclarationsReadable 0 := by
  intro file among
  obtain rfl := List.mem_singleton.mp (among : file ∈ [initializedClass])
  refine ⟨⟨"a/Main", rfl⟩, fun mention mentioned => ?_⟩
  have mentioned : mention ∈ [Mention.signature 4, .signature 8] := mentioned
  simp only [List.mem_cons, List.not_mem_nil, or_false] at mentioned
  rcases mentioned with rfl | rfl
  · exact ⟨[], rfl⟩
  · exact ⟨[], rfl⟩

theorem exists_of_outcome {result : Except DescriptorError Analysis} {outcome : Except AnalysisError Unit}
    (evaluated : (result.map fun analysis => analysis.references.map fun _ => ()) = .ok outcome) :
    ∃ analysis, result = .ok analysis ∧ analysis.references.map (fun _ => ()) = outcome := by
  cases result with
  | error error => cases evaluated
  | ok analysis => exact ⟨analysis, rfl, Except.ok.inj evaluated⟩

theorem analyze_unreadable_value :
    ∃ analysis, (initialized.replaceBodies fun _ _ _ => settingTo 999).analyze {} 0 = .ok analysis ∧
      analysis.references.map (fun _ => ()) = .error (.metadata (.outOfBounds 999)) := by
  apply exists_of_outcome
  with_unfolding_all rfl

theorem settingTo_staysAnchored : (settingTo 999).StaysAnchored := by
  have known : ∀ id < 3, ∀ kind ∈ (settingTo 999).store.kind? id, kind.isSetting := by decide
  have setting : ∀ id kind, (settingTo 999).store.kind? id = some kind → kind.isSetting :=
    fun id kind found => known id (Store.lt_size_of_kind? found) kind found
  refine ⟨Store.Lists.trees (.cons rfl (.cons rfl .nil .nil) (.cons rfl .nil .nil)) (by decide), fun draft folds => ?_⟩
  have same : draft = (settingTo 999).raw := by
    induction folds with
    | refl => rfl
    | tail _ fold continues =>
      subst continues
      exact fold.eq_of_setting setting
  subst same
  decide

/-- All declarations can be read, but not the value that was lifted into the field. -/
theorem unreadable_value_decides :
    ∃ analysis, (initialized.replaceBodies fun _ _ _ => settingTo 999).analyze {} 0 = .ok analysis ∧
      initialized.DeclarationsReadable 0 ∧ ¬ analysis.table.InitializersReadable 0 := by
  obtain ⟨analysis, ran, failed⟩ := analyze_unreadable_value
  have fits : ∀ file ∈ initialized.subtreeFiles 0, file.pool.count ≤ Pool.limit := by decide
  have anchored : ∀ code ∈ (initialized.replaceBodies fun _ _ _ => settingTo 999).bodiesBelow 0, code.StaysAnchored := by
    intro code among
    obtain rfl := List.mem_singleton.mp (among : code ∈ [settingTo 999])
    exact settingTo_staysAnchored
  obtain ⟨_, decides, _⟩ := analyze_replaceBodies_ok_iff {} initialized 0 _ analysis fits anchored ran
  refine ⟨analysis, ran, initialized_declarationsReadable, fun initial => ?_⟩
  obtain ⟨references, succeeded⟩ := (decides initialized_declarationsReadable).mpr initial
  rw [succeeded] at failed
  cases failed

/-- With one body the analysis succeeds, with another it fails as a whole. -/
theorem analyze_body_fails :
    ∃ before after, initialized.analyze {} 0 = .ok before ∧ (∃ references, before.references = .ok references) ∧
      (initialized.replaceBodies fun _ _ _ => settingTo 999).analyze {} 0 = .ok after ∧
      ¬ ∃ references, after.references = .ok references := by
  have evaluated : ((initialized.analyze {} 0).map fun analysis => analysis.references.map fun _ => ()) = .ok (.ok ()) := by
    with_unfolding_all rfl
  obtain ⟨before, ran, succeeded⟩ := exists_of_outcome evaluated
  obtain ⟨after, rerun, failed⟩ := analyze_unreadable_value
  refine ⟨before, after, ran, ?_, rerun, ?_⟩
  · cases outcome : before.references with
    | error error =>
      rw [outcome] at succeeded
      cases succeeded
    | ok references => exact ⟨references, rfl⟩
  · rintro ⟨references, same⟩
    rw [same] at failed
    cases failed

end ClassTable

end ClassLift
