import ClassLift.Analysis
import ClassLift.Proofs.Pool.Extension

namespace ClassLift

namespace Mention

def index : Mention → PoolIndex
  | parent index | classRef index | signature index | constant index | member index => index

def Readable (pool : Pool) (mention : Mention) : Prop := ∃ names, mention.names pool = .ok names

variable {before after pool : Pool} {position : PoolIndex}

theorem readable_parent : (parent position).Readable pool ↔ ∃ name, pool.className position = .ok name :=
  exists_map_ok

theorem readable_classRef : (classRef position).Readable pool ↔ ∃ name, pool.className position = .ok name :=
  exists_map_ok

theorem readable_signature : (signature position).Readable pool ↔ ∃ text, pool.utf8 position = .ok text :=
  exists_map_ok

theorem readable_member : (member position).Readable pool ↔ ∃ found, pool.member position = .ok found :=
  exists_map_ok

theorem readable_constant :
    (constant position).Readable pool ↔
      ∃ found, pool.get position = .ok found ∧
        ∀ nameIndex, found = .classInfo nameIndex → ∃ name, pool.className position = .ok name := by
  simp only [Readable, names, except_bind_ok]
  constructor
  · rintro ⟨names, found, got, read⟩
    refine ⟨found, got, ?_⟩
    rintro nameIndex rfl
    exact exists_map_ok.mp ⟨names, read⟩
  · rintro ⟨found, got, named⟩
    cases found with
    | classInfo nameIndex =>
      obtain ⟨names, read⟩ := exists_map_ok.mpr (named nameIndex rfl)
      exact ⟨names, _, got, read⟩
    | _ => exact ⟨[], _, got, rfl⟩

variable {mention : Mention}

theorem Readable.transfer (className : ∀ name, before.className mention.index = .ok name → after.className mention.index = .ok name)
    (utf8 : ∀ text, before.utf8 mention.index = .ok text → after.utf8 mention.index = .ok text)
    (member : ∀ found, before.member mention.index = .ok found → after.member mention.index = .ok found)
    (get : ∀ found, before.get mention.index = .ok found → after.get mention.index = .ok found)
    (readable : mention.Readable before) : mention.Readable after := by
  cases mention with
  | parent position => exact readable_parent.mpr ((readable_parent.mp readable).imp className)
  | classRef position => exact readable_classRef.mpr ((readable_classRef.mp readable).imp className)
  | signature position => exact readable_signature.mpr ((readable_signature.mp readable).imp utf8)
  | member position => exact readable_member.mpr ((readable_member.mp readable).imp member)
  | constant position =>
    obtain ⟨found, got, named⟩ := readable_constant.mp readable
    exact readable_constant.mpr ⟨found, get found got, fun nameIndex same => (named nameIndex same).imp className⟩

theorem Readable.extend (grown : before.Extends after) (readable : mention.Readable before) : mention.Readable after :=
  readable.transfer (fun _ => grown.className) (fun _ => grown.utf8) (fun _ => grown.member) fun _ => grown.get

theorem Readable.restrict (closed : before.Closed) (grown : before.Extends after)
    (inside : mention.index.toNat < before.count) (readable : mention.Readable after) : mention.Readable before :=
  readable.transfer (fun _ => closed.className grown inside) (fun _ => Pool.Closed.utf8 grown inside)
    (fun _ => closed.member grown inside) fun _ => (grown.get_eq inside).symm.trans

end Mention

/-! ## What a class declares -/

namespace Field

def declarationMentions (field : Field) : List Mention :=
  .signature (field.signatureIndex.getD field.descriptorIndex) :: field.annotations.flatMap Annotation.mentions

def initialMentions (file : ClassFile) (field : Field) : List Mention :=
  field.initializer.elim [] fun initializer =>
    (file.code? initializer.method).elim [] fun code => code.store.mentions [initializer.value]

theorem mentions_eq (file : ClassFile) (field : Field) :
    field.mentions file = field.declarationMentions ++ field.initialMentions file :=
  rfl

end Field

namespace ClassFile

def declarationMentions (file : ClassFile) : List Mention :=
  file.ownMentions ++ file.fields.toList.flatMap Field.declarationMentions ++
    file.methods.toList.flatMap Method.declarationMentions

structure DeclarationsReadable (file : ClassFile) : Prop where
  named : ∃ name, file.name = .ok name
  mentions : ∀ mention ∈ file.declarationMentions, mention.Readable file.pool

def InitializersReadable (file : ClassFile) : Prop :=
  ∀ field ∈ file.fields, ∀ mention ∈ field.initialMentions file, mention.Readable file.pool

end ClassFile

namespace ClassTable

def DeclarationsReadable (table : ClassTable) (root : ClassId) : Prop :=
  ∀ file ∈ table.subtreeFiles root, file.DeclarationsReadable

def InitializersReadable (table : ClassTable) (root : ClassId) : Prop :=
  ∀ file ∈ table.subtreeFiles root, file.InitializersReadable

end ClassTable

/-! ## Counts that come to their end -/

def Passage.Readable (pool : Pool) : Passage → Prop
  | .declaration mentions => ∀ mention ∈ mentions, mention.Readable pool
  | .body .. => True

theorem ReferenceMap.countMentions_ok (own : List String) (pool : Pool) (references : ReferenceMap)
    (mentions : List Mention) :
    (references.countMentions own pool mentions).2 = .ok () ↔ ∀ mention ∈ mentions, mention.Readable pool := by
  induction mentions generalizing references with
  | nil => simp [countMentions]
  | cons mention rest continues =>
    unfold countMentions
    rw [List.forall_mem_cons]
    cases read : mention.names pool with
    | error error => simp [Mention.Readable, read]
    | ok names => simp [Mention.Readable, read, continues]

namespace Tally

variable {own : List String}

theorem passage_ok (pool : Pool) (tally : Tally) (part : Passage) :
    (tally.passage own pool part).outcome = .ok () ↔ tally.outcome = .ok () ∧ part.Readable pool := by
  unfold passage
  cases outcome : tally.outcome with
  | error error => simp [outcome]
  | ok _ =>
    cases part with
    | declaration mentions =>
      simp only [Passage.Readable, true_and]
      exact tally.references.countMentions_ok own pool mentions
    | body name mentions =>
      simp only [Passage.Readable, and_true, iff_true]
      split <;> rfl

theorem foldl_passage_ok (pool : Pool) (parts : List Passage) (tally : Tally) :
    (parts.foldl (passage own pool) tally).outcome = .ok () ↔
      tally.outcome = .ok () ∧ ∀ part ∈ parts, part.Readable pool := by
  induction parts generalizing tally with
  | nil => simp
  | cons part rest continues => rw [List.foldl_cons, continues, passage_ok, List.forall_mem_cons, and_assoc]

end Tally

theorem ClassFile.passages_readable (file : ClassFile) :
    (∀ part ∈ file.passages, part.Readable file.pool) ↔
      (∀ mention ∈ file.declarationMentions, mention.Readable file.pool) ∧ file.InitializersReadable := by
  have ofMethod (method : Method) :
      (∀ part ∈ method.passages, part.Readable file.pool) ↔
        ∀ mention ∈ method.declarationMentions, mention.Readable file.pool := by
    unfold Method.passages
    cases method.code <;> simp [Passage.Readable]
  have ofField (field : Field) :
      Passage.Readable file.pool (.declaration (field.mentions file)) ↔
        (∀ mention ∈ field.declarationMentions, mention.Readable file.pool) ∧
          ∀ mention ∈ field.initialMentions file, mention.Readable file.pool := by
    rw [Passage.Readable, Field.mentions_eq, List.forall_mem_append]
  have ofMethods :
      (∀ part ∈ file.methods.toList.flatMap Method.passages, part.Readable file.pool) ↔
        ∀ mention ∈ file.methods.toList.flatMap Method.declarationMentions, mention.Readable file.pool := by
    simp only [List.forall_mem_flatMap, ofMethod]
  have ofFields :
      (∀ part ∈ file.fields.toList.map fun field => Passage.declaration (field.mentions file), part.Readable file.pool) ↔
        (∀ mention ∈ file.fields.toList.flatMap Field.declarationMentions, mention.Readable file.pool) ∧
          file.InitializersReadable := by
    simp only [List.forall_mem_map, ofField, forall_and, List.forall_mem_flatMap, InitializersReadable, Array.mem_toList_iff]
  rw [passages, declarationMentions, List.forall_mem_append, List.forall_mem_cons, ofMethods, ofFields,
    List.forall_mem_append, List.forall_mem_append, Passage.Readable]
  constructor
  · rintro ⟨⟨own, fields, initial⟩, methods⟩
    exact ⟨⟨⟨own, fields⟩, methods⟩, initial⟩
  · rintro ⟨⟨⟨own, fields⟩, methods⟩, initial⟩
    exact ⟨⟨own, fields, initial⟩, methods⟩

theorem Tally.foldl_classFile_ok {own : List String} (files : List ClassFile) (tally : Tally) :
    (files.foldl (classFile own) tally).outcome = .ok () ↔
      tally.outcome = .ok () ∧ ∀ file ∈ files, ∀ part ∈ file.passages, part.Readable file.pool := by
  induction files generalizing tally with
  | nil => simp
  | cons file rest continues =>
    rw [List.foldl_cons, continues, classFile, foldl_passage_ok, List.forall_mem_cons, and_assoc]

theorem mapM_name_ok (files : List ClassFile) :
    (∃ names, files.mapM ClassFile.name = .ok names) ↔ ∀ file ∈ files, ∃ name, file.name = .ok name := by
  induction files with
  | nil => simp [pure, Except.pure]
  | cons file rest continues =>
    rw [List.forall_mem_cons, ← continues, List.mapM_cons]
    cases first : file.name with
    | error error => simp [bind, Except.bind]
    | ok name => cases rest.mapM ClassFile.name <;> simp [bind, Except.bind, pure, Except.pure]

namespace ClassTable

variable (table : ClassTable) (root : ClassId)

theorem countReferences_ok (references : ReferenceMap) :
    (table.countReferences root references).outcome = .ok () ↔
      table.DeclarationsReadable root ∧ table.InitializersReadable root := by
  have names := mapM_name_ok (table.subtreeFiles root)
  unfold countReferences
  cases read : (table.subtreeFiles root).mapM ClassFile.name with
  | error error =>
    simp only [read, reduceCtorEq, exists_false, false_iff] at names
    simp only [read, reduceCtorEq, false_iff]
    rintro ⟨declared, _⟩
    exact names fun file among => (declared file among).named
  | ok own =>
    have named := names.mp ⟨own, read⟩
    simp only [read, Tally.foldl_classFile_ok, true_and, ClassFile.passages_readable]
    constructor
    · intro readable
      exact ⟨fun file among => ⟨named file among, (readable file among).1⟩, fun file among => (readable file among).2⟩
    · rintro ⟨declared, initial⟩ file among
      exact ⟨(declared file among).mentions, initial file among⟩

theorem mem_subtreeFiles_root {file : ClassFile} (found : table.get? root = some file) :
    file ∈ table.subtreeFiles root := by
  have inside : 0 < table.size := Nat.zero_lt_of_lt (Array.getElem?_eq_some_iff.mp found).1
  obtain ⟨steps, more⟩ := Nat.exists_eq_succ_of_ne_zero (Nat.ne_of_gt inside)
  refine List.mem_filterMap.mpr ⟨root, ?_, found⟩
  rw [subtree, more, subtreeFrom]
  exact List.mem_cons_self

/-- Only the names of the classes, what they declare and the initial values of their fields decide on the outcome. -/
theorem imports_ok :
    (table.imports root).outcome = .ok () ↔ table.DeclarationsReadable root ∧ table.InitializersReadable root := by
  have counted := table.countReferences_ok root .empty
  rw [← counted]
  unfold imports
  cases outcome : (table.countReferences root .empty).outcome with
  | error error => simp [outcome]
  | ok _ =>
    cases found : table.get? root with
    | none => simp [outcome]
    | some file =>
      obtain ⟨name, named⟩ := ((counted.mp outcome).1 file (table.mem_subtreeFiles_root root found)).named
      simp [named, outcome]

end ClassTable


end ClassLift
