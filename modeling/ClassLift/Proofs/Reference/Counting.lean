import ClassLift.Proofs.Class.Nesting
import ClassLift.Proofs.Reference.Readable

namespace ClassLift

namespace ReferenceMap

variable {references : ReferenceMap} {own names more : List String} {name : String}

theorem count_add (references : ReferenceMap) (added name : String) :
    (references.add added).count name = references.count name + if name = "" then 0 else [added].count name := by
  unfold add count
  by_cases empty : added = ""
  · subst empty
    rw [if_pos rfl]
    split
    · rfl
    · rename_i apart
      rw [List.count_singleton, if_neg (by simpa using Ne.symm apart), Nat.add_zero]
  · rw [if_neg empty, Std.TreeMap.getD_insert]
    by_cases same : added = name
    · subst same
      simp [empty]
    · simp [same]

theorem count_addAll (references : ReferenceMap) (names : List String) (name : String) :
    (references.addAll names).count name = references.count name + if name = "" then 0 else names.count name := by
  unfold addAll
  induction names generalizing references with
  | nil => simp
  | cons first rest continues =>
    rw [List.foldl_cons, continues, count_add, Nat.add_assoc]
    split
    · rfl
    · rw [← List.count_append, List.singleton_append]

def foreign (own names : List String) (name : String) : Nat := if name = "" ∨ name ∈ own then 0 else names.count name

theorem foreign_nil : foreign own [] name = 0 := by
  simp [foreign]

theorem foreign_eq_zero (skipped : name = "" ∨ name ∈ own) : foreign own names name = 0 := if_pos skipped

theorem foreign_append (own names more : List String) (name : String) :
    foreign own (names ++ more) name = foreign own names name + foreign own more name := by
  unfold foreign
  split
  · rfl
  · exact List.count_append

theorem count_addForeign (own : List String) (references : ReferenceMap) (names : List String) (name : String) :
    (references.addForeign own names).count name = references.count name + foreign own names name := by
  rw [addForeign, count_addAll, foreign]
  by_cases among : name ∈ own
  · have filtered : (names.filter (!own.contains ·)).count name = 0 := List.count_eq_zero.mpr (by simp [among])
    rw [filtered, ite_self, if_pos (.inr among)]
  · rw [List.count_filter (by simpa using among)]
    simp [among]

end ReferenceMap

namespace Mention

def readNames (pool : Pool) : List Mention → List String
  | [] => []
  | mention :: rest => (mention.names pool).toOption.elim [] (· ++ readNames pool rest)

end Mention

open ReferenceMap (foreign foreign_nil foreign_eq_zero foreign_append)

theorem ReferenceMap.count_countMentions (own : List String) (pool : Pool) (references : ReferenceMap) (mentions : List Mention)
    (name : String) :
    (references.countMentions own pool mentions).1.count name =
      references.count name + foreign own (Mention.readNames pool mentions) name := by
  induction mentions generalizing references with
  | nil => rw [countMentions, Mention.readNames, foreign_nil, Nat.add_zero]
  | cons mention rest continues =>
    unfold countMentions Mention.readNames
    cases mention.names pool with
    | error error => exact (congrArg (references.count name + ·) foreign_nil).symm
    | ok names =>
      simp only [Except.toOption, Option.elim_some]
      rw [continues, count_addForeign, foreign_append, Nat.add_assoc]

def Passage.mentions : Passage → List Mention
  | .declaration mentions | .body _ mentions => mentions

/-- The names that a class mentions. Of a body that cannot be read to its end they are those up to there. -/
def ClassFile.mentioned (file : ClassFile) : List String :=
  file.passages.flatMap fun part => Mention.readNames file.pool part.mentions

namespace Tally

variable {own : List String} {pool : Pool} {tally : Tally}

theorem count_passage (part : Passage) (ok : tally.outcome = .ok ()) (name : String) :
    (tally.passage own pool part).references.count name =
      tally.references.count name + foreign own (Mention.readNames pool part.mentions) name := by
  unfold passage
  rw [ok]
  cases part with
  | declaration mentions => exact tally.references.count_countMentions own pool mentions name
  | body index mentions =>
    have counted := tally.references.count_countMentions own pool mentions name
    simp only
    split
    all_goals
      rename_i result
      rwa [result] at counted

theorem count_foldl_passage (parts : List Passage) (ok : (parts.foldl (passage own pool) tally).outcome = .ok ()) (name : String) :
    (parts.foldl (passage own pool) tally).references.count name =
      tally.references.count name + foreign own (parts.flatMap fun part => Mention.readNames pool part.mentions) name := by
  induction parts generalizing tally with
  | nil => rw [List.flatMap_nil, foreign_nil]; rfl
  | cons part rest continues =>
    have first := ((foldl_passage_ok pool (part :: rest) tally).mp ok).1
    rw [List.foldl_cons] at ok ⊢
    rw [continues ok, count_passage part first, List.flatMap_cons, foreign_append, Nat.add_assoc]

theorem count_foldl_classFile (files : List ClassFile) (ok : (files.foldl (classFile own) tally).outcome = .ok ()) (name : String) :
    (files.foldl (classFile own) tally).references.count name =
      tally.references.count name + foreign own (files.flatMap ClassFile.mentioned) name := by
  induction files generalizing tally with
  | nil => rw [List.flatMap_nil, foreign_nil]; rfl
  | cons file rest continues =>
    rw [List.foldl_cons] at ok ⊢
    have first := ((foldl_classFile_ok rest (tally.classFile own file)).mp ok).1
    rw [continues ok, classFile, count_foldl_passage file.passages first, List.flatMap_cons, foreign_append, Nat.add_assoc]
    rfl

end Tally

theorem mapM_name_eq {files : List ClassFile} {own : List String} (read : files.mapM ClassFile.name = .ok own) :
    own = files.filterMap fun file => file.name.toOption := by
  induction files generalizing own with
  | nil =>
    cases read
    rfl
  | cons file rest continues =>
    rw [List.mapM_cons] at read
    obtain ⟨name, named, read⟩ := except_bind_ok.mp read
    obtain ⟨names, others, same⟩ := except_bind_ok.mp read
    cases same
    rw [List.filterMap_cons_some (b := name) (by rw [named]; rfl), ← continues others]

namespace ClassTable

/-- How often the class and the classes nested in it mention a name that is not their own. -/
def foreignMentions (table : ClassTable) (root : ClassId) : String → Nat :=
  foreign ((table.subtreeFiles root).filterMap fun file => file.name.toOption) ((table.subtreeFiles root).flatMap ClassFile.mentioned)

theorem count_countReferences {table : ClassTable} {root : ClassId} {references : ReferenceMap}
    (ok : (table.countReferences root references).outcome = .ok ()) (name : String) :
    (table.countReferences root references).references.count name = references.count name + table.foreignMentions root name := by
  unfold countReferences at ok ⊢
  cases read : (table.subtreeFiles root).mapM ClassFile.name with
  | error error =>
    simp only [read] at ok
    cases ok
  | ok own =>
    simp only [read] at ok ⊢
    cases mapM_name_eq read
    exact Tally.count_foldl_classFile _ ok name

end ClassTable

def ClassFile.Countable (file : ClassFile) : Prop :=
  (∃ name, file.name = .ok name) ∧ ∀ part ∈ file.passages, part.Readable file.pool

theorem ClassTable.countReferences_ok_iff (table : ClassTable) (root : ClassId) (references : ReferenceMap) :
    (table.countReferences root references).outcome = .ok () ↔ ∀ file ∈ table.subtreeFiles root, file.Countable := by
  rw [countReferences_ok, DeclarationsReadable, InitializersReadable, ← forall₂_and]
  refine forall₂_congr fun file _ => ?_
  rw [ClassFile.Countable, ClassFile.passages_readable, ← and_assoc]
  exact and_congr_left fun _ => ⟨fun readable => ⟨readable.named, readable.mentions⟩, fun readable => ⟨readable.1, readable.2⟩⟩

/-! ## Other orders -/

namespace ClassFile.Rearranged

variable {place : ClassId → ClassId} {file moved : ClassFile}

section One

variable (rearranged : file.Rearranged place moved)
include rearranged

theorem pool : moved.pool = file.pool := (congrArg ClassFile.pool rearranged.rest :)

theorem name : moved.name = file.name := (congrArg ClassFile.name rearranged.rest :)

theorem passages : moved.passages.Perm file.passages := by
  have own : moved.ownMentions = file.ownMentions := (congrArg ClassFile.ownMentions rearranged.rest :)
  have methods : moved.methods = file.methods := (congrArg ClassFile.methods rearranged.rest :)
  have fields (field : Field) : field.mentions moved = field.mentions file :=
    (congrArg (fun file => field.mentions file) rearranged.rest :)
  unfold ClassFile.passages
  rw [own, methods]
  simp only [fields]
  exact .append_right _ (.cons _ (rearranged.fields.map _))

theorem mentioned : moved.mentioned.Perm file.mentioned := by
  unfold ClassFile.mentioned
  rw [rearranged.pool]
  exact rearranged.passages.flatMap_right _

theorem countable : moved.Countable ↔ file.Countable := by
  rw [Countable, Countable, rearranged.name, rearranged.pool]
  exact and_congr_right fun _ => ⟨fun readable part among => readable part (rearranged.passages.mem_iff.mpr among),
    fun readable part among => readable part (rearranged.passages.mem_iff.mp among)⟩

end One

variable {files others : List ClassFile} (same : List.Forall₂ (fun file moved => file.Rearranged place moved) files others)
include same

theorem names_eq : (others.filterMap fun file => file.name.toOption) = files.filterMap fun file => file.name.toOption := by
  induction same with
  | nil => rfl
  | cons first _ continues => rw [List.filterMap_cons, List.filterMap_cons, first.name, continues]

theorem flatMap_mentioned : (others.flatMap ClassFile.mentioned).Perm (files.flatMap ClassFile.mentioned) := by
  induction same with
  | nil => exact .nil
  | cons first _ continues => exact .append first.mentioned continues

theorem forall_countable : (∀ file ∈ others, file.Countable) ↔ ∀ file ∈ files, file.Countable := by
  induction same with
  | nil => simp
  | cons first _ continues => rw [List.forall_mem_cons, List.forall_mem_cons, first.countable, continues]

end ClassFile.Rearranged

namespace ClassTable

variable {place : ClassId → ClassId} {table other : ClassTable} {root : ClassId}

theorem Rearranged.forall₂ (rearranged : Rearranged place table other) {ids : List ClassId} (inside : ∀ id ∈ ids, id < table.size) :
    List.Forall₂ (fun file moved => file.Rearranged place moved) (ids.filterMap table.get?) ((ids.map place).filterMap other.get?) := by
  induction ids with
  | nil => exact .nil
  | cons id rest continues =>
    obtain ⟨here, others⟩ := List.forall_mem_cons.mp inside
    have known : table.get? id = some table.classes[id] := Array.getElem?_eq_getElem here
    obtain ⟨moved, found, same⟩ := rearranged.classes id _ known
    rw [List.map_cons, List.filterMap_cons_some known, List.filterMap_cons_some found]
    exact .cons same (continues others)

theorem Rearranged.subtreeFiles (rearranged : Rearranged place table other) (nested : table.Nested) (inside : root < table.size) :
    ∃ files, files.Perm (other.subtreeFiles (place root)) ∧
      List.Forall₂ (fun file moved => file.Rearranged place moved) (table.subtreeFiles root) files :=
  ⟨_, ((rearranged.subtree nested inside).filterMap other.get?).symm,
    rearranged.forall₂ fun _ => nested.lt_size_of_subtree inside⟩

/-- A count that comes to its end adds to each name how often it is mentioned, whatever was counted before. That is nothing for the
empty name and the names of the classes that are looked at. It does not depend on the order of fields and nested classes. -/
theorem countReferences_additive (table : ClassTable) (root : ClassId) :
    (∀ references, (table.countReferences root references).outcome = .ok () → ∀ name,
      (table.countReferences root references).references.count name = references.count name + table.foreignMentions root name) ∧
    table.foreignMentions root "" = 0 ∧
    (∀ file ∈ table.subtreeFiles root, ∀ name, file.name = .ok name → table.foreignMentions root name = 0) ∧
    (table.Nested → root < table.size → ∀ place other, Rearranged place table other →
      (∀ references, (other.countReferences (place root) references).outcome = .ok () ↔
        (table.countReferences root references).outcome = .ok ()) ∧
      ∀ name, other.foreignMentions (place root) name = table.foreignMentions root name) := by
  refine ⟨fun references ok name => count_countReferences ok name, foreign_eq_zero (.inl rfl), fun file among name named => ?_,
    fun nested inside place other rearranged => ?_⟩
  · exact foreign_eq_zero (.inr (List.mem_filterMap.mpr ⟨file, among, by rw [named]; rfl⟩))
  · obtain ⟨files, same, moved⟩ := rearranged.subtreeFiles nested inside
    refine ⟨fun references => ?_, fun name => ?_⟩
    · rw [countReferences_ok_iff, countReferences_ok_iff, ← ClassFile.Rearranged.forall_countable moved]
      exact ⟨fun all file among => all file (same.mem_iff.mp among), fun all file among => all file (same.mem_iff.mpr among)⟩
    · have mentioned := (same.flatMap_right ClassFile.mentioned).symm.trans (ClassFile.Rearranged.flatMap_mentioned moved)
      have own : ∀ name, name ∈ (other.subtreeFiles (place root)).filterMap (fun file => file.name.toOption) ↔
          name ∈ (table.subtreeFiles root).filterMap fun file => file.name.toOption := by
        intro name
        rw [← ClassFile.Rearranged.names_eq moved]
        exact (same.filterMap _).mem_iff.symm
      simp only [foreignMentions, foreign, own, mentioned.count_eq]

/-! A class with two fields and two nested classes. The body of each nested class breaks off after its first statement. -/

def mentioningPool (name : String) : Pool where
  entries := #[none, some (.utf8 name), some (.classInfo 1), some (.utf8 "Lx/X;"), some (.utf8 "[La/A$B;"), some (.utf8 "()V"),
    some (.utf8 "x/X"), some (.classInfo 6)]

/-- `new x.X(); <a field that cannot be read>; new x.X();` -/
def brokenBody : Method where
  nameIndex := 5
  descriptorIndex := 5
  code := some {
    store := ⟨#[⟨0, none, .allocate 7⟩, ⟨3, none, .read (.static 99)⟩, ⟨6, none, .allocate 7⟩]⟩
    statements := [0, 1, 2] }

def mentioning (inner : List String) (fields : Array Field) : ClassTable :=
  inner.foldl
    (fun table name => table.insert { thisIndex := 2, pool := mentioningPool name, methods := #[brokenBody] } (some 0))
    (empty.insert { thisIndex := 2, pool := mentioningPool "a/A", fields } none)

def oneOrder : ClassTable :=
  mentioning ["a/A$B", "a/A$C"] #[{ nameIndex := 3, descriptorIndex := 3 }, { nameIndex := 4, descriptorIndex := 4 }]

def otherOrder : ClassTable :=
  mentioning ["a/A$C", "a/A$B"] #[{ nameIndex := 4, descriptorIndex := 4 }, { nameIndex := 3, descriptorIndex := 3 }]

theorem oneOrder_nested : oneOrder.Nested := by
  refine Built.nested ?_
  simp only [oneOrder, mentioning, List.foldl_cons, List.foldl_nil]
  refine .insert (.insert (.insert .empty ?_ ?_) ?_ ?_) ?_ ?_ <;> simp [size_insert]

def exchanged : ClassId → ClassId
  | 1 => 2
  | 2 => 1
  | id => id

theorem oneOrder_rearranged : Rearranged exchanged oneOrder otherOrder := by
  refine ⟨rfl, fun id file known => ?_⟩
  rcases id with _ | _ | _ | id
  · cases known
    exact ⟨_, rfl, .swap _ _ _, .swap _ _ _, rfl⟩
  · cases known
    exact ⟨_, rfl, .refl _, .nil, rfl⟩
  · cases known
    exact ⟨_, rfl, .refl _, .nil, rfl⟩
  · cases known

theorem countReferences_eitherOrder :
    (otherOrder.countReferences 0 (ReferenceMap.empty.add "x/X")).references.count "x/X" = 1 + 3 ∧
      (otherOrder.countReferences 0 (ReferenceMap.empty.add "x/X")).references.count "a/A$B" = 0 := by
  obtain ⟨_, _, own, reordered⟩ := countReferences_additive oneOrder 0
  obtain ⟨outcomes, amounts⟩ := reordered oneOrder_nested (by decide) exchanged otherOrder oneOrder_rearranged
  have ok := (outcomes (ReferenceMap.empty.add "x/X")).mpr rfl
  obtain ⟨counts, _⟩ := countReferences_additive otherOrder 0
  have mentioned : oneOrder.foreignMentions 0 "x/X" = 3 := by decide +kernel
  have skipped : oneOrder.foreignMentions 0 "a/A$B" = 0 := own _ (.tail _ List.mem_cons_self) "a/A$B" rfl
  refine ⟨?_, ?_⟩
  · rw [counts _ ok, ← mentioned, ← amounts]
    rfl
  · rw [counts _ ok, ← skipped, ← amounts]
    rfl

end ClassTable

end ClassLift
