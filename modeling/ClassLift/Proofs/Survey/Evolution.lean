import ClassLift.Proofs.Class.Development

namespace ClassLift

variable {lifts rewrites : Prop} {file : ClassFile} {index : Nat}

/-! ## Made-up local variable tables -/

namespace LocalNames

variable {pool before after : Pool} {entries more : List LocalVariable}

def Legible (pool : Pool) (entries : List LocalVariable) : Prop :=
  pool.count ≤ Pool.limit → ∀ mention ∈ LocalVariable.mentions (some entries), mention.Readable pool

theorem Legible.nil : Legible pool [] := fun _ _ among => by cases among

theorem Legible.append (first : Legible pool entries) (second : Legible pool more) : Legible pool (entries ++ more) := by
  intro fits mention among
  rw [LocalVariable.mentions, Option.getD_some, List.map_append, List.mem_append] at among
  exact among.elim (first fits mention) (second fits mention)

theorem Legible.extend (growth : before.Extends after) (legible : Legible before entries) : Legible after entries :=
  fun fits mention among => (legible (Nat.le_trans growth.count_le fits) mention among).extend growth

structure Tables {α : Type} (listed : α → List LocalVariable) (action : Interning α) : Prop where
  grows : Preserves Pool.Extends action
  legible : ∀ {pool value after}, action pool = (.ok value, after) → Legible after (listed value)

theorem entry_tables (length : UInt32) (slot : Slot) (name descriptor : String) :
    Tables (fun found => [found]) (entry length slot name descriptor) where
  grows := preserves_bind (Pool.internUtf8_extends name) fun _ =>
    preserves_bind (Pool.internUtf8_extends descriptor) fun _ => preserves_pure _
  legible := by
    intro pool found after ran fits mention among
    obtain ⟨nameIndex, middle, _, ran⟩ := bind_ok.mp ran
    obtain ⟨descriptorIndex, last, interned, ran⟩ := bind_ok.mp ran
    obtain ⟨rfl, rfl⟩ := pure_ok.mp ran
    simp only [LocalVariable.mentions, Option.getD_some, List.map_cons, List.map_nil, List.mem_singleton] at among
    subst among
    exact Mention.readable_signature.mpr ⟨descriptor, Pool.utf8_ok.mpr (Pool.get_intern interned fits)⟩

theorem receiver_tables (length : UInt32) (owner : String) : Tables id (List.singleton <$> receiver length owner) := by
  have tables := entry_tables length 0 "this" (classType owner)
  rw [← bind_pure_comp]
  constructor
  · exact preserves_bind tables.grows fun _ => preserves_pure _
  · intro pool entries after ran
    obtain ⟨found, middle, entered, ran⟩ := bind_ok.mp ran
    obtain ⟨rfl, rfl⟩ := pure_ok.mp ran
    exact tables.legible entered

theorem parameters_tables (length : UInt32) (slot : Slot) (used types : List String) :
    Tables (fun result => result.1) (parameters length slot used types) := by
  induction types generalizing slot used with
  | nil =>
    refine ⟨preserves_pure _, fun ran => ?_⟩
    obtain ⟨rfl, rfl⟩ := pure_ok.mp ran
    exact .nil
  | cons type rest continues =>
    unfold parameters
    have first := entry_tables length slot (fresh used "param" type) type
    have later := continues (slot + .ofNat (Descriptor.slots type)) (fresh used "param" type :: used)
    constructor
    · exact preserves_bind first.grows fun _ => preserves_bind later.grows fun _ => preserves_pure _
    · intro pool result after ran
      obtain ⟨found, middle, entered, ran⟩ := bind_ok.mp ran
      obtain ⟨⟨others, used, slot⟩, last, listed, ran⟩ := bind_ok.mp ran
      obtain ⟨rfl, rfl⟩ := pure_ok.mp ran
      exact ((first.legible entered).extend (later.grows.of_run listed)).append (later.legible listed)

theorem locals_tables (length : UInt32) (first : Slot) (used : List String) (written : List (Slot × String)) :
    Tables id (locals length first used written) := by
  induction written generalizing used with
  | nil =>
    refine ⟨preserves_pure _, fun ran => ?_⟩
    obtain ⟨rfl, rfl⟩ := pure_ok.mp ran
    exact .nil
  | cons write rest continues =>
    obtain ⟨slot, descriptor⟩ := write
    unfold locals
    by_cases isParameter : slot < first
    · rw [if_pos isParameter]
      exact continues used
    · rw [if_neg isParameter]
      have here := entry_tables length slot (fresh used "local" descriptor) descriptor
      have later := continues (fresh used "local" descriptor :: used)
      constructor
      · exact preserves_bind here.grows fun _ => preserves_bind later.grows fun _ => preserves_pure _
      · intro pool result after ran
        obtain ⟨found, middle, entered, ran⟩ := bind_ok.mp ran
        obtain ⟨others, last, listed, ran⟩ := bind_ok.mp ran
        obtain ⟨rfl, rfl⟩ := pure_ok.mp ran
        exact ((here.legible entered).extend (later.grows.of_run listed)).append (later.legible listed)

end LocalNames

theorem Method.setLocalVariables_develops {pool : Pool} {method : Method} {entries : List LocalVariable}
    (needed : method.needsLocalNames = true) (legible : LocalNames.Legible pool entries) :
    method.Develops rewrites pool (method.setLocalVariables entries) := by
  unfold needsLocalNames at needed
  unfold setLocalVariables
  cases body : method.code with
  | some code =>
    refine ⟨.of_locals rfl rfl, .refl _, id, ?_⟩
    rw [body]
    exact .some ⟨rfl, rfl, rfl, .refl _, .inr ⟨rfl, rfl⟩⟩
  | none =>
    simp only [body, Option.elim_none, Bool.and_eq_true, Option.isNone_iff_eq_none] at needed
    exact .of_code ⟨rfl, .inr ⟨needed.2, legible⟩⟩ (.refl _) id body.symm

theorem interning_develops {α : Type} {action : Interning α} (grows : Preserves Pool.Extends action) :
    Preserves (ClassFile.Develops lifts rewrites) (OnClass.interning action) :=
  fun file => .grow (grows file.pool)

theorem interning_tables {α : Type} {listed : α → List LocalVariable} {action : Interning α} {value : α}
    {after : ClassFile} (tables : LocalNames.Tables listed action)
    (ran : OnClass.interning action file = (.ok value, after)) :
    after.methods = file.methods ∧ file.pool.Extends after.pool ∧ LocalNames.Legible after.pool (listed value) := by
  unfold OnClass.interning at ran
  cases interned : action file.pool with
  | mk outcome pool =>
    simp only [interned] at ran
    cases outcome with
    | error error => cases ran
    | ok found =>
      cases ran
      exact ⟨rfl, tables.grows.of_run interned, tables.legible interned⟩

theorem nameLocals_develops (index : Nat) : Preserves (ClassFile.Develops lifts rewrites) (nameLocals index) := by
  intro file
  unfold nameLocals
  rw [run_get_bind]
  cases found : file.methods[index]? with
  | none => exact .refl file
  | some method =>
    dsimp only
    by_cases needed : method.needsLocalNames = true
    · rw [if_neg (by simp [needed])]
      refine related_read_bind rfl fun descriptor => related_read_bind rfl fun owner => ?_
      have receiver := LocalNames.receiver_tables (method.code.elim 0 LocalNames.lengthOf) owner
      refine related_ite_bind ?_ fun this first ran => ?_
      · split
        · exact .refl file
        · exact interning_develops receiver.grows file
      have tabled : first.methods = file.methods ∧ LocalNames.Legible first.pool this := by
        split at ran
        · cases ran
          exact ⟨rfl, .nil⟩
        · obtain ⟨same, _, legible⟩ := interning_tables receiver ran
          exact ⟨same, legible⟩
      refine related_read_bind rfl fun types => ?_
      -- Further constants only extend the pool in which the entries so far can be read.
      refine related_bind (interning_develops (LocalNames.parameters_tables _ _ _ types).grows _) fun _ second ran => ?_
      obtain ⟨sameSecond, growth, parameters⟩ := interning_tables (LocalNames.parameters_tables _ _ _ types) ran
      refine related_bind (interning_develops (LocalNames.locals_tables _ _ _ _).grows _) fun _ third ran => ?_
      obtain ⟨sameThird, more, locals⟩ := interning_tables (LocalNames.locals_tables _ _ _ _) ran
      refine .modifyMethod index fun other there => ?_
      rw [sameThird, sameSecond, tabled.1, found] at there
      cases there
      exact Method.setLocalVariables_develops needed
        ((((tabled.2.extend growth).append parameters).extend more).append locals)
    · rw [if_pos (by simp [needed])]
      exact .refl file

/-! ## Facts about a class -/

theorem markField_develops (file : ClassFile) (isMarked : Field → Bool) : file.Develops lifts rewrites (file.markField isMarked) := by
  unfold ClassFile.markField
  split
  · exact .markField _
  · exact .refl file

theorem recordSwitchTable_develops (file : ClassFile) (method : Method) (key : PoolIndex) (constants : List PoolIndex) :
    file.Develops lifts rewrites (file.recordSwitchTable method key constants) :=
  (markField_develops file _).trans (.record rfl rfl rfl rfl)

theorem flag_develops (file : ClassFile) (index : Nat) (error : MethodError) :
    file.Develops lifts rewrites (file.flag index error).1 :=
  .modifyMethod index fun method _ => .flag method

section SurveyMethod

variable {related : ClassFile → ClassFile → Prop} [Std.Refl related] [IsTrans ClassFile related]

theorem surveyMethod_preserves {config : Config}
    (exposed : ∀ file accessor, related file
      (file.modifyMethod index fun method => { method.markSynthetic with accessor := some accessor }))
    (tabled : ∀ file method key constants, related file (file.recordSwitchTable method key constants))
    (counted : ∀ file count, related file (file.modifyMethod index fun method => { method with superArguments := count }))
    (named : Preserves related (nameLocals index)) : Preserves related (surveyMethod config index) := by
  have last : Preserves related (if config.nameLocals then nameLocals index else pure ()) := by
    split
    · exact named
    · exact preserves_pure ()
  unfold surveyMethod
  refine .get_bind fun file => ?_
  split
  · refine .get_bind fun file => preserves_bind (preserves_of_unchanged fun _ => rfl) fun accessor => ?_
    extract_lets -underBinder tables
    have rest (done : Unit) : Preserves related (tables done) := by
      refine .get_bind fun file => ?_
      split
      · refine .get_bind fun file => preserves_bind (preserves_of_unchanged fun _ => rfl) fun table => ?_
        extract_lets -underBinder counts
        have rest (done : Unit) : Preserves related (counts done) := by
          refine .get_bind fun file => .get_bind fun file => ?_
          extract_lets -underBinder finished
          split
          · refine .get_bind fun file => preserves_bind (preserves_of_unchanged fun _ => rfl) fun count => ?_
            split
            · exact preserves_bind (preserves_modify fun file => counted file _) fun _ => last
            · exact last
          · exact last
        split
        · exact preserves_bind (preserves_modify fun file => tabled file _ _ _) rest
        · exact rest ()
      · exact preserves_pure ()
    split
    · exact preserves_bind (preserves_modify fun file => exposed file _) rest
    · exact rest ()
  · exact preserves_pure ()

end SurveyMethod

theorem surveyMethod_develops (config : Config) (index : Nat) :
    Preserves (ClassFile.Develops lifts rewrites) (surveyMethod config index) :=
  surveyMethod_preserves
    (fun _ _ => .modifyMethod index fun _ _ => .of_code (.of_locals rfl rfl) (.inr rfl) id rfl)
    recordSwitchTable_develops
    (fun _ _ => .modifyMethod index fun _ _ => .of_code (.of_locals rfl rfl) (.refl _) id rfl)
    (nameLocals_develops index)

namespace ClassFile

variable {config : Config} {after : ClassFile} {warnings : List Warning}

theorem surveyMethods_related {related : ClassFile → ClassFile → Prop} [Std.Refl related] [IsTrans ClassFile related]
    (steps : ∀ index, Preserves related (surveyMethod config index))
    (flags : ∀ file index error, related file (file.flag index error).1) (indices : List Nat)
    (ran : file.surveyMethods config indices = .ok (after, warnings)) : related file after := by
  induction indices generalizing file warnings with
  | nil =>
    cases ran
    exact Std.Refl.refl _
  | cons index rest continues =>
    unfold surveyMethods at ran
    have surveyed : related file (surveyMethod config index file).2 := steps index file
    cases step : surveyMethod config index file with
    | mk outcome middle =>
      rw [step] at surveyed
      simp only [step] at ran
      cases outcome with
      | ok _ => exact IsTrans.trans _ _ _ surveyed (continues ran)
      | error failure =>
        cases failure with
        | descriptor error => cases ran
        | method error =>
          obtain ⟨⟨last, more⟩, later, same⟩ := except_bind_ok.mp ran
          cases same
          exact IsTrans.trans _ _ _ surveyed (IsTrans.trans _ _ _ (flags middle index error) (continues later))

theorem surveyMethods_develops (indices : List Nat) (ran : file.surveyMethods config indices = .ok (after, warnings)) :
    file.Develops lifts rewrites after :=
  surveyMethods_related (surveyMethod_develops config) flag_develops indices ran

theorem recordOuterField_develops (file : ClassFile) (outerField : OuterField) :
    file.Develops lifts rewrites (file.recordOuterField outerField) := by
  refine ⟨rfl, .refl _, .modify .refl fun field _ => .of_marked (.markSynthetic field), .map fun method => ?_⟩
  split
  · exact .of_marked (.markSynthetic method)
  · exact .refl method

theorem surveyOuterField_develops (file : ClassFile) : file.Develops lifts rewrites file.surveyOuterField.1 := by
  unfold surveyOuterField
  split
  · exact .refl file
  · split
    · rename_i index error _
      exact flag_develops file index (.pool error)
    · split
      · exact .refl file
      · exact .refl file
      · exact recordOuterField_develops file _

theorem survey_develops (ran : file.survey config = .ok (after, warnings)) : file.Develops lifts rewrites after := by
  obtain ⟨⟨middle, found⟩, surveyed, same⟩ := except_bind_ok.mp ran
  cases same
  exact (surveyMethods_develops _ surveyed).trans (surveyOuterField_develops middle)

end ClassFile

end ClassLift
