import ClassLift.Proofs.Body.Position
import ClassLift.Proofs.Class.Evolution

/-!
# What a stage may make of a class

`Evolves` follows the declarations of a class and leaves its bodies open. `Develops` follows the bodies too: the raw list, the
handlers and the number of slots stay, nodes keep their positions, members only become synthetic, and a flagged method keeps
its flag and its body. Stages that must not touch bodies at all have `rewrites` false. In a table, a stage works on some classes
and at most marks members of the others.
-/

namespace ClassLift

/-! ## Marks -/

def Access.Marked (before after : Access) : Prop := after = before ∨ after = before.markSynthetic

namespace Access.Marked

variable {before middle after : Access}

theorem refl (access : Access) : access.Marked access := .inl rfl

theorem trans (first : before.Marked middle) (second : middle.Marked after) : before.Marked after := by
  have again : before.markSynthetic.markSynthetic = before.markSynthetic := by
    simp [markSynthetic, union, UInt16.or_assoc]
  rcases first with rfl | rfl
  · exact second
  · rw [Marked, again, or_self] at second
    exact .inr second

end Access.Marked

structure Field.Marked (before after : Field) : Prop where
  access : before.access.Marked after.access
  rest : { after with access := before.access } = before

namespace Field.Marked

variable {before middle after : Field}

theorem refl (field : Field) : field.Marked field := ⟨.refl _, rfl⟩

theorem trans (first : before.Marked middle) (second : middle.Marked after) : before.Marked after := by
  refine ⟨first.access.trans second.access, ?_⟩
  have rest := first.rest
  rw [← second.rest] at rest
  exact rest

theorem markSynthetic (field : Field) : field.Marked field.markSynthetic := ⟨.inr rfl, rfl⟩

end Field.Marked

structure Method.Marked (before after : Method) : Prop where
  access : before.access.Marked after.access
  rest : { after with access := before.access } = before

namespace Method.Marked

variable {before middle after : Method}

theorem refl (method : Method) : method.Marked method := ⟨.refl _, rfl⟩

theorem trans (first : before.Marked middle) (second : middle.Marked after) : before.Marked after := by
  refine ⟨first.access.trans second.access, ?_⟩
  have rest := first.rest
  rw [← second.rest] at rest
  exact rest

theorem markSynthetic (method : Method) : method.Marked method.markSynthetic := ⟨.inr rfl, rfl⟩

theorem code (marked : before.Marked after) : after.code = before.code := (congrArg Method.code marked.rest :)

theorem flagged (marked : before.Marked after) : after.flagged = before.flagged := (congrArg Method.flagged marked.rest :)

theorem evolves {pool : Pool} (marked : before.Marked after) : before.Evolves pool after :=
  .of_locals (congrArg Method.header marked.rest :) (congrArg Method.localVariables marked.rest :)

end Method.Marked

/-! ## Bodies -/

structure Code.Develops (rewrites : Prop) (before after : Code) : Prop where
  instructions : after.instructions = before.instructions
  handlers : after.handlers = before.handlers
  maxLocals : after.maxLocals = before.maxLocals
  store : before.store.Grows after.store
  body : rewrites ∨ after.store = before.store ∧ after.statements = before.statements

namespace Code.Develops

variable {rewrites : Prop} {before middle after : Code}

theorem refl (code : Code) : code.Develops rewrites code := ⟨rfl, rfl, rfl, .refl _, .inr ⟨rfl, rfl⟩⟩

theorem trans (first : before.Develops rewrites middle) (second : middle.Develops rewrites after) :
    before.Develops rewrites after where
  instructions := second.instructions.trans first.instructions
  handlers := second.handlers.trans first.handlers
  maxLocals := second.maxLocals.trans first.maxLocals
  store := first.store.trans second.store
  body := by
    rcases first.body with rewritten | ⟨store, statements⟩
    · exact .inl rewritten
    · exact second.body.imp_right fun kept => ⟨kept.1.trans store, kept.2.trans statements⟩

theorem imp {allowed : Prop} (allows : rewrites → allowed) (develops : before.Develops rewrites after) :
    before.Develops allowed after :=
  { develops with body := develops.body.imp_left allows }

end Code.Develops

/-! ## Members -/

structure Field.Develops (lifts : Prop) (before after : Field) : Prop extends Evolves lifts before after where
  access : before.access.Marked after.access

namespace Field.Develops

variable {lifts : Prop} {before middle after : Field}

theorem refl (field : Field) : field.Develops lifts field := ⟨.refl field, .refl _⟩

theorem trans (first : before.Develops lifts middle) (second : middle.Develops lifts after) : before.Develops lifts after :=
  ⟨first.toEvolves.trans second.toEvolves, first.access.trans second.access⟩

theorem of_marked (marked : before.Marked after) : before.Develops lifts after :=
  ⟨⟨(congrArg Field.header marked.rest :), .inr (congrArg Field.initializer marked.rest :)⟩, marked.access⟩

end Field.Develops

/-- Only the body of a method that is not flagged may be rewritten. -/
structure Method.Develops (rewrites : Prop) (pool : Pool) (before after : Method) : Prop extends Evolves pool before after where
  access : before.access.Marked after.access
  flagged : before.flagged = true → after.flagged = true
  code : before.code.Rel (Code.Develops (rewrites ∧ before.flagged = false)) after.code

namespace Method.Develops

variable {rewrites : Prop} {pool grown : Pool} {before middle after method : Method}

theorem of_code (evolves : before.Evolves pool after) (access : before.access.Marked after.access)
    (flagged : before.flagged = true → after.flagged = true) (same : after.code = before.code) :
    before.Develops rewrites pool after := by
  refine ⟨evolves, access, flagged, ?_⟩
  rw [same]
  cases before.code with
  | none => exact .none
  | some code => exact .some (.refl code)

theorem of_marked (marked : before.Marked after) : before.Develops rewrites pool after :=
  .of_code marked.evolves marked.access (fun flagged => marked.flagged.trans flagged) marked.code

theorem refl (method : Method) : method.Develops rewrites pool method := .of_marked (.refl method)

theorem trans (growth : pool.Extends grown) (first : before.Develops rewrites pool middle)
    (second : middle.Develops rewrites grown after) : before.Develops rewrites grown after := by
  refine ⟨first.toEvolves.trans growth second.toEvolves, first.access.trans second.access,
    fun flagged => second.flagged (first.flagged flagged), ?_⟩
  have unflagged (open_ : rewrites ∧ middle.flagged = false) : rewrites ∧ before.flagged = false := by
    refine ⟨open_.1, ?_⟩
    cases flag : before.flagged with
    | false => rfl
    | true => exact (first.flagged flag).symm.trans open_.2
  have early := first.code
  have late := second.code
  generalize before.code = given at early
  generalize middle.code = between at early late
  generalize after.code = made at late
  cases early with
  | none =>
    cases late
    exact .none
  | some early =>
    cases late with
    | some late => exact .some (early.trans (late.imp unflagged))

theorem code_eq_some {code : Code} (develops : before.Develops rewrites pool after) (body : before.code = some code) :
    ∃ made, after.code = some made ∧ code.Develops (rewrites ∧ before.flagged = false) made := by
  have related := develops.code
  rw [body] at related
  generalize after.code = made at related
  cases related with
  | some changed => exact ⟨_, rfl, changed⟩

theorem code_eq_none (develops : before.Develops rewrites pool after) (body : before.code = none) : after.code = none := by
  have related := develops.code
  rw [body] at related
  generalize after.code = made at related
  cases related
  rfl

theorem flag (method : Method) : method.Develops rewrites pool { method with flagged := true } :=
  .of_code (.of_locals rfl rfl) (.refl _) (fun _ => rfl) rfl

theorem setCode {code made : Code} (allowed : rewrites) (unflagged : method.flagged = false) (given : method.code = some code)
    (develops : code.Develops True made) : method.Develops rewrites pool { method with code := some made } := by
  refine ⟨.of_locals rfl rfl, .refl _, id, ?_⟩
  rw [given]
  exact .some (develops.imp fun _ => ⟨allowed, unflagged⟩)

end Method.Develops

/-! ## Classes -/

namespace ClassFile

structure Develops (lifts rewrites : Prop) (before after : ClassFile) : Prop where
  header : after.header = before.header
  pool : before.pool.Extends after.pool
  fields : Pointwise (Field.Develops lifts) before.fields after.fields
  methods : Pointwise (Method.Develops rewrites after.pool) before.methods after.methods

namespace Develops

variable {lifts rewrites : Prop} {before middle after file : ClassFile}

theorem refl (file : ClassFile) : file.Develops lifts rewrites file :=
  ⟨rfl, .refl _, .refl .refl _, .refl .refl _⟩

theorem trans (first : before.Develops lifts rewrites middle) (second : middle.Develops lifts rewrites after) :
    before.Develops lifts rewrites after where
  header := second.header.trans first.header
  pool := first.pool.trans second.pool
  fields := first.fields.trans second.fields fun _ _ _ => .trans
  methods := first.methods.trans second.methods fun _ _ _ => .trans second.pool

instance : Std.Refl (Develops lifts rewrites) := ⟨refl⟩

instance : IsTrans ClassFile (Develops lifts rewrites) := ⟨fun _ _ _ => trans⟩

theorem grow {pool : Pool} (growth : file.pool.Extends pool) : file.Develops lifts rewrites { file with pool } :=
  ⟨rfl, growth, .refl .refl _, .refl .refl _⟩

theorem modifyMethod (index : Nat) {change : Method → Method}
    (step : ∀ method : Method, file.methods[index]? = some method → method.Develops rewrites file.pool (change method)) :
    file.Develops lifts rewrites (file.modifyMethod index change) :=
  ⟨rfl, .refl _, .refl .refl _, .modify .refl step⟩

theorem modifyField (index : Nat) {change : Field → Field} (step : ∀ field : Field, field.Develops lifts (change field)) :
    file.Develops lifts rewrites (file.modifyField index change) :=
  ⟨rfl, .refl _, .modify .refl fun field _ => step field, .refl .refl _⟩

theorem markMethod (index : Nat) : file.Develops lifts rewrites (file.modifyMethod index Method.markSynthetic) :=
  .modifyMethod index fun method _ => .of_marked (.markSynthetic method)

theorem markField (index : Nat) : file.Develops lifts rewrites (file.modifyField index Field.markSynthetic) :=
  .modifyField index fun field => .of_marked (.markSynthetic field)

theorem record (header : after.header = before.header) (pool : after.pool = before.pool) (fields : after.fields = before.fields)
    (methods : after.methods = before.methods) : before.Develops lifts rewrites after :=
  ⟨header, pool ▸ .refl _, fields ▸ .refl .refl _, methods ▸ .refl .refl _⟩

theorem evolves (develops : before.Develops lifts rewrites after) : before.Evolves lifts after where
  header := develops.header
  pool := develops.pool
  fields := ⟨develops.fields.size, fun position field found =>
    (develops.fields.left position field found).imp fun _ changed => changed.imp_right Field.Develops.toEvolves⟩
  methods := ⟨develops.methods.size, fun position method found =>
    (develops.methods.left position method found).imp fun _ changed => changed.imp_right Method.Develops.toEvolves⟩

end Develops

/-- Constants are added, and members may be marked. All else stays. -/
structure Annotates (before after : ClassFile) : Prop where
  rest : { after with pool := before.pool, fields := before.fields, methods := before.methods } = before
  pool : before.pool.Extends after.pool
  fields : Pointwise Field.Marked before.fields after.fields
  methods : Pointwise Method.Marked before.methods after.methods

namespace Annotates

variable {lifts rewrites : Prop} {before middle after file : ClassFile}

theorem refl (file : ClassFile) : file.Annotates file := ⟨rfl, .refl _, .refl .refl _, .refl .refl _⟩

theorem trans (first : before.Annotates middle) (second : middle.Annotates after) : before.Annotates after where
  rest := by
    have rest := first.rest
    rw [← second.rest] at rest
    exact rest
  pool := first.pool.trans second.pool
  fields := first.fields.trans second.fields fun _ _ _ => .trans
  methods := first.methods.trans second.methods fun _ _ _ => .trans

theorem grow {pool : Pool} (growth : file.pool.Extends pool) : file.Annotates { file with pool } :=
  ⟨rfl, growth, .refl .refl _, .refl .refl _⟩

theorem markMethod (index : Nat) : file.Annotates (file.modifyMethod index Method.markSynthetic) :=
  ⟨rfl, .refl _, .refl .refl _, .modify .refl fun method _ => .markSynthetic method⟩

theorem markField (index : Nat) : file.Annotates (file.modifyField index Field.markSynthetic) :=
  ⟨rfl, .refl _, .modify .refl fun field _ => .markSynthetic field, .refl .refl _⟩

theorem develops (annotates : before.Annotates after) : before.Develops lifts rewrites after where
  header := (congrArg header annotates.rest :)
  pool := annotates.pool
  fields := ⟨annotates.fields.size, fun position field found =>
    (annotates.fields.left position field found).imp fun _ changed => changed.imp_right Field.Develops.of_marked⟩
  methods := ⟨annotates.methods.size, fun position method found =>
    (annotates.methods.left position method found).imp fun _ changed => changed.imp_right Method.Develops.of_marked⟩

end Annotates

def Marks (before after : ClassFile) : Prop := before.Annotates after ∧ after.pool = before.pool

namespace Marks

variable {before middle after : ClassFile}

theorem refl (file : ClassFile) : file.Marks file := ⟨.refl file, rfl⟩

theorem trans (first : before.Marks middle) (second : middle.Marks after) : before.Marks after :=
  ⟨first.1.trans second.1, second.2.trans first.2⟩

end Marks

end ClassFile

/-! ## Tables -/

namespace ClassTable

structure Each (related : ClassId → ClassFile → ClassFile → Prop) (before after : ClassTable) : Prop where
  size : after.classes.size = before.classes.size
  left : ∀ id file, before.get? id = some file → ∃ other, after.get? id = some other ∧ related id file other

namespace Each

variable {related wider : ClassId → ClassFile → ClassFile → Prop} {before middle after table : ClassTable} {id : ClassId}

theorem refl (holds : ∀ id file, related id file file) (table : ClassTable) : table.Each related table :=
  ⟨rfl, fun id file found => ⟨file, found, holds id file⟩⟩

theorem trans (compose : ∀ id one two three, related id one two → related id two three → related id one three)
    (first : before.Each related middle) (second : middle.Each related after) : before.Each related after := by
  refine ⟨second.size.trans first.size, fun id file found => ?_⟩
  obtain ⟨between, there, early⟩ := first.left id file found
  obtain ⟨last, here, late⟩ := second.left id between there
  exact ⟨last, here, compose id _ _ _ early late⟩

theorem imp (subset : ∀ id one two, related id one two → wider id one two) (each : before.Each related after) :
    before.Each wider after :=
  ⟨each.size, fun id file found => (each.left id file found).imp fun _ changed => changed.imp_right (subset id _ _)⟩

theorem modify (holds : ∀ id file, related id file file) {change : ClassFile → ClassFile}
    (step : ∀ file, table.get? id = some file → related id file (change file)) :
    table.Each related (table.modify id change) := by
  refine ⟨Array.size_modify, fun other file found => ?_⟩
  have found : table.classes[other]? = some file := found
  rw [ClassTable.modify, get?, Array.getElem?_modify, found]
  by_cases here : id = other
  · subst here
    simpa using step file found
  · simpa [here] using holds other file

end Each

/-- The class at `home` may get constants, and members of all classes may be marked. -/
def Annotates (home : ClassId) : ClassTable → ClassTable → Prop :=
  Each fun id file other => file.Annotates other ∧ (id = home ∨ other.pool = file.pool)

namespace Annotates

variable {home id : ClassId} {before middle after table : ClassTable}

theorem refl (table : ClassTable) : table.Annotates home table := Each.refl (fun _ file => ⟨.refl file, .inr rfl⟩) table

theorem trans (first : before.Annotates home middle) (second : middle.Annotates home after) : before.Annotates home after := by
  refine Each.trans (fun id _ _ _ early late => ⟨early.1.trans late.1, ?_⟩) first second
  rcases early.2 with own | same
  · exact .inl own
  · exact late.2.imp_right fun other => other.trans same

instance : Std.Refl (Annotates home) := ⟨refl⟩

instance : IsTrans ClassTable (Annotates home) := ⟨fun _ _ _ => trans⟩

theorem grow {change : ClassFile → ClassFile} (step : ∀ file, table.get? home = some file → file.Annotates (change file)) :
    table.Annotates home (table.modify home change) :=
  Each.modify (fun _ file => ⟨.refl file, .inr rfl⟩) fun file found => ⟨step file found, .inl rfl⟩

theorem mark {change : ClassFile → ClassFile} (step : ∀ file : ClassFile, file.Marks (change file)) :
    table.Annotates home (table.modify id change) :=
  Each.modify (fun _ file => ⟨.refl file, .inr rfl⟩) fun file _ => ⟨(step file).1, .inr (step file).2⟩

end Annotates

def Develops (lifts rewrites : Prop) (worked : ClassId → Prop) : ClassTable → ClassTable → Prop :=
  Each fun id file other => file.Develops lifts rewrites other ∧ (worked id ∨ file.Marks other)

namespace Develops

variable {lifts rewrites : Prop} {worked wider : ClassId → Prop} {home : ClassId} {before middle after table : ClassTable}
  {file changed : ClassFile}

theorem refl (table : ClassTable) : table.Develops lifts rewrites worked table :=
  Each.refl (fun _ file => ⟨.refl file, .inr (.refl file)⟩) table

theorem trans (first : before.Develops lifts rewrites worked middle) (second : middle.Develops lifts rewrites worked after) :
    before.Develops lifts rewrites worked after := by
  refine Each.trans (fun id _ _ _ early late => ⟨early.1.trans late.1, ?_⟩) first second
  rcases early.2 with own | marks
  · exact .inl own
  · exact late.2.imp_right marks.trans

instance : Std.Refl (Develops lifts rewrites worked) := ⟨refl⟩

instance : IsTrans ClassTable (Develops lifts rewrites worked) := ⟨fun _ _ _ => trans⟩

theorem widen (subset : ∀ id, worked id → wider id) (develops : before.Develops lifts rewrites worked after) :
    before.Develops lifts rewrites wider after :=
  Each.imp (fun id _ _ both => ⟨both.1, both.2.imp_left (subset id)⟩) develops

theorem modify {change : ClassFile → ClassFile}
    (step : ∀ file, table.get? home = some file → file.Develops lifts rewrites (change file)) :
    table.Develops lifts rewrites (· = home) (table.modify home change) :=
  Each.modify (fun _ file => ⟨.refl file, .inr (.refl file)⟩) fun file found => ⟨step file found, .inl rfl⟩

theorem set (found : table.get? home = some file) (develops : file.Develops lifts rewrites changed) :
    table.Develops lifts rewrites (· = home) (table.set home changed) := by
  refine modify fun other there => ?_
  cases there.symm.trans found
  exact develops

theorem of_annotates (annotates : before.Annotates home after) : before.Develops lifts rewrites (· = home) after :=
  Each.imp (fun _ _ _ both => ⟨both.1.develops, both.2.imp_right fun same => ⟨both.1, same⟩⟩) annotates

theorem evolves (develops : before.Develops lifts rewrites worked after) : before.Evolves lifts after :=
  ⟨develops.size, fun id file found =>
    (develops.left id file found).imp fun _ changed => ⟨changed.1, changed.2.1.evolves⟩⟩

end Develops

end ClassTable

end ClassLift
