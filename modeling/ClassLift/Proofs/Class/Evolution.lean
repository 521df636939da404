import ClassLift.Proofs.Reference.Readable

/-!
# What the analysis may make of a class

Every step of the analysis changes bodies, adds constants and records what it found out, but what a class file declares stays
as it is. `ClassFile.Evolves` says so for a class and `ClassTable.Evolves` for a table. Both are preorders, so that a run is
judged by its steps. Two things may be added to declarations: names for the parameters of methods without a body, which can
always be read, and, where initializers are lifted, initial values.
-/

namespace ClassLift

/-! ## Arrays changed in place -/

structure Pointwise {α : Type} (related : α → α → Prop) (before after : Array α) : Prop where
  size : after.size = before.size
  left : ∀ (position : Nat) (element : α), before[position]? = some element →
    ∃ other, after[position]? = some other ∧ related element other

namespace Pointwise

variable {α : Type} {related : α → α → Prop} {before middle after : Array α}

theorem right (pointwise : Pointwise related before after) {position : Nat} {element : α}
    (found : after[position]? = some element) : ∃ old, before[position]? = some old ∧ related old element := by
  have inside := (Array.getElem?_eq_some_iff.mp found).1
  rw [pointwise.size] at inside
  have present := Array.getElem?_eq_getElem inside
  obtain ⟨other, same, holds⟩ := pointwise.left position _ present
  cases found.symm.trans same
  exact ⟨_, present, holds⟩

theorem refl (holds : ∀ element, related element element) (elements : Array α) : Pointwise related elements elements :=
  ⟨rfl, fun _ element found => ⟨element, found, holds element⟩⟩

theorem trans {early late : α → α → Prop} (first : Pointwise early before middle) (second : Pointwise late middle after)
    (compose : ∀ one two three, early one two → late two three → related one three) : Pointwise related before after := by
  refine ⟨second.size.trans first.size, fun position element found => ?_⟩
  obtain ⟨other, there, earlier⟩ := first.left position element found
  obtain ⟨last, here, later⟩ := second.left position other there
  exact ⟨last, here, compose _ _ _ earlier later⟩

theorem modify (holds : ∀ element, related element element) {position : Nat} {change : α → α}
    (step : ∀ element, before[position]? = some element → related element (change element)) :
    Pointwise related before (before.modify position change) := by
  refine ⟨Array.size_modify, fun other element found => ?_⟩
  rw [Array.getElem?_modify, found]
  by_cases here : position = other
  · subst here
    simpa using step element found
  · simpa [here] using holds element

theorem map {change : α → α} (step : ∀ element, related element (change element)) :
    Pointwise related before (before.map change) := by
  refine ⟨Array.size_map, fun position element found => ⟨change element, ?_, step element⟩⟩
  rw [Array.getElem?_map, found]
  rfl

theorem mapIdx {change : Nat → α → α} (step : ∀ position element, related element (change position element)) :
    Pointwise related before (before.mapIdx change) := by
  refine ⟨Array.size_mapIdx, fun position element found => ⟨change position element, ?_, step position element⟩⟩
  rw [Array.getElem?_mapIdx, found]
  rfl

end Pointwise

/-! ## Classes -/

namespace Field

def header (field : Field) : Field := { field with access := ⟨0⟩, initializer := none }

structure Evolves (lifts : Prop) (before after : Field) : Prop where
  header : after.header = before.header
  initializer : lifts ∨ after.initializer = before.initializer

namespace Evolves

variable {lifts : Prop} {before middle after : Field}

theorem refl (field : Field) : field.Evolves lifts field := ⟨rfl, .inr rfl⟩

theorem trans (first : before.Evolves lifts middle) (second : middle.Evolves lifts after) : before.Evolves lifts after := by
  refine ⟨second.header.trans first.header, ?_⟩
  rcases second.initializer with lifted | same
  · exact .inl lifted
  · exact first.initializer.imp_right same.trans

end Evolves

end Field

namespace Method

/-- What the class file declares of a method, apart from the local variables of a method without code. -/
def header (method : Method) : Method :=
  { method with
    access := ⟨0⟩, code := none, localVariables := none, flagged := false, superArguments := 0, accessor := none }

theorem declarationMentions_eq (method : Method) :
    method.declarationMentions = method.header.declarationMentions ++ LocalVariable.mentions method.localVariables := by
  simp [declarationMentions, header, LocalVariable.mentions]

/-- Made-up local variables can be read in a pool that is not oversized. -/
structure Evolves (pool : Pool) (before after : Method) : Prop where
  header : after.header = before.header
  locals : after.localVariables = before.localVariables ∨ before.localVariables = none ∧
    (pool.count ≤ Pool.limit → ∀ mention ∈ LocalVariable.mentions after.localVariables, mention.Readable pool)

namespace Evolves

variable {before middle after : Method} {pool grown : Pool}

theorem of_locals (header : after.header = before.header) (locals : after.localVariables = before.localVariables) :
    before.Evolves pool after :=
  ⟨header, .inl locals⟩

theorem extend (growth : pool.Extends grown) (evolves : before.Evolves pool after) : before.Evolves grown after := by
  refine ⟨evolves.header, evolves.locals.imp_right fun ⟨missing, readable⟩ => ⟨missing, fun fits mention among => ?_⟩⟩
  exact (readable (Nat.le_trans growth.count_le fits) mention among).extend growth

theorem trans (growth : pool.Extends grown) (first : before.Evolves pool middle) (second : middle.Evolves grown after) :
    before.Evolves grown after := by
  refine ⟨second.header.trans first.header, ?_⟩
  rcases (first.extend growth).locals with same | ⟨missing, readable⟩
  · rw [← same]
    exact second.locals
  · rcases second.locals with same | ⟨_, readable⟩
    · rw [same]
      exact .inr ⟨missing, readable⟩
    · exact .inr ⟨missing, readable⟩

end Evolves

end Method

namespace ClassFile

/-- What the class file declares of a class, apart from its pool and its members. -/
def header (file : ClassFile) : ClassFile :=
  { file with pool := {}, fields := #[], methods := #[], switchMaps := {}, outerField := none, enumValues := none }

structure Evolves (lifts : Prop) (before after : ClassFile) : Prop where
  header : after.header = before.header
  pool : before.pool.Extends after.pool
  fields : Pointwise (Field.Evolves lifts) before.fields after.fields
  methods : Pointwise (Method.Evolves after.pool) before.methods after.methods

variable {lifts : Prop} {before middle after : ClassFile}

namespace Evolves

theorem trans (first : before.Evolves lifts middle) (second : middle.Evolves lifts after) : before.Evolves lifts after where
  header := second.header.trans first.header
  pool := first.pool.trans second.pool
  fields := first.fields.trans second.fields fun _ _ _ => .trans
  methods := first.methods.trans second.methods fun _ _ _ => .trans second.pool

variable (evolves : before.Evolves lifts after)
include evolves

theorem name_of_ok {name : String} (named : before.name = .ok name) : after.name = .ok name := by
  have same : after.thisIndex = before.thisIndex := (congrArg ClassFile.thisIndex evolves.header :)
  rw [ClassFile.name, same]
  exact evolves.pool.className named

theorem ownMentions_eq : after.ownMentions = before.ownMentions := (congrArg ClassFile.ownMentions evolves.header :)

theorem mem_declarationMentions {mention : Mention} (among : mention ∈ before.declarationMentions) :
    mention ∈ after.declarationMentions := by
  simp only [declarationMentions, List.mem_append, List.mem_flatMap, Array.mem_toList_iff, evolves.ownMentions_eq] at among ⊢
  rcases among with (own | ⟨field, among, mentioned⟩) | ⟨method, among, mentioned⟩
  · exact .inl (.inl own)
  · obtain ⟨position, found⟩ := Array.mem_iff_getElem?.mp among
    obtain ⟨other, there, evolved⟩ := evolves.fields.left position field found
    have same : other.declarationMentions = field.declarationMentions := (congrArg Field.declarationMentions evolved.header :)
    exact .inl (.inr ⟨other, Array.mem_of_getElem? there, same ▸ mentioned⟩)
  · obtain ⟨position, found⟩ := Array.mem_iff_getElem?.mp among
    obtain ⟨other, there, evolved⟩ := evolves.methods.left position method found
    refine .inr ⟨other, Array.mem_of_getElem? there, ?_⟩
    rw [Method.declarationMentions_eq, List.mem_append] at mentioned ⊢
    rw [evolved.header]
    refine mentioned.imp_right fun listed => ?_
    rcases evolved.locals with same | ⟨missing, _⟩
    · rwa [same]
    · rw [missing] at listed
      cases listed

theorem mentioned_or_readable (fits : before.pool.count ≤ Pool.limit) {mention : Mention}
    (among : mention ∈ after.declarationMentions) :
    mention ∈ before.declarationMentions ∨ mention.Readable after.pool := by
  simp only [declarationMentions, List.mem_append, List.mem_flatMap, Array.mem_toList_iff, evolves.ownMentions_eq] at among ⊢
  rcases among with (own | ⟨field, among, mentioned⟩) | ⟨method, among, mentioned⟩
  · exact .inl (.inl (.inl own))
  · obtain ⟨position, found⟩ := Array.mem_iff_getElem?.mp among
    obtain ⟨old, there, evolved⟩ := evolves.fields.right found
    have same : field.declarationMentions = old.declarationMentions := (congrArg Field.declarationMentions evolved.header :)
    exact .inl (.inl (.inr ⟨old, Array.mem_of_getElem? there, same ▸ mentioned⟩))
  · obtain ⟨position, found⟩ := Array.mem_iff_getElem?.mp among
    obtain ⟨old, there, evolved⟩ := evolves.methods.right found
    rw [Method.declarationMentions_eq, evolved.header, List.mem_append] at mentioned
    rcases evolved.locals with same | ⟨_, readable⟩
    · refine .inl (.inr ⟨old, Array.mem_of_getElem? there, ?_⟩)
      rwa [Method.declarationMentions_eq, List.mem_append, ← same]
    · rcases mentioned with declared | listed
      · refine .inl (.inr ⟨old, Array.mem_of_getElem? there, ?_⟩)
        rw [Method.declarationMentions_eq]
        exact List.mem_append_left _ declared
      · exact .inr (readable (evolves.pool.fits fits) mention listed)

theorem declarationsReadable (fits : before.pool.count ≤ Pool.limit) (readable : before.DeclarationsReadable) :
    after.DeclarationsReadable := by
  obtain ⟨name, named⟩ := readable.named
  refine ⟨⟨name, evolves.name_of_ok named⟩, fun mention among => ?_⟩
  rcases evolves.mentioned_or_readable fits among with mentioned | legible
  · exact (readable.mentions mention mentioned).extend evolves.pool
  · exact legible

end Evolves

/-- The constants and the declarations of the class refer to nothing outside of its pool. -/
structure Closed (file : ClassFile) : Prop where
  pool : file.pool.Closed
  name : file.thisIndex.toNat < file.pool.count
  mentions : ∀ mention ∈ file.declarationMentions, mention.index.toNat < file.pool.count

theorem Closed.declarationsReadable (closed : before.Closed) (evolves : before.Evolves lifts after)
    (readable : after.DeclarationsReadable) : before.DeclarationsReadable := by
  obtain ⟨name, named⟩ := readable.named
  have same : after.thisIndex = before.thisIndex := (congrArg ClassFile.thisIndex evolves.header :)
  rw [ClassFile.name, same] at named
  refine ⟨⟨name, closed.pool.className evolves.pool closed.name named⟩, fun mention among => ?_⟩
  exact (readable.mentions mention (evolves.mem_declarationMentions among)).restrict closed.pool evolves.pool
    (closed.mentions mention among)

theorem initializersReadable_of_none (unlifted : ¬ lifts) (evolves : before.Evolves lifts after)
    (none : ∀ field ∈ before.fields, field.initializer = none) : after.InitializersReadable := by
  intro field among mention mentioned
  obtain ⟨position, found⟩ := Array.mem_iff_getElem?.mp among
  obtain ⟨old, there, evolved⟩ := evolves.fields.right found
  have missing : field.initializer = .none :=
    (evolved.initializer.resolve_left unlifted).trans (none old (Array.mem_of_getElem? there))
  rw [Field.initialMentions, missing] at mentioned
  cases mentioned

end ClassFile

/-! ## Tables -/

namespace ClassTable

def Evolves (lifts : Prop) (before after : ClassTable) : Prop :=
  Pointwise (ClassFile.Evolves lifts) before.classes after.classes

variable {lifts : Prop} {before middle after : ClassTable} {file : ClassFile}

namespace Evolves

theorem trans (first : before.Evolves lifts middle) (second : middle.Evolves lifts after) : before.Evolves lifts after :=
  Pointwise.trans first second fun _ _ _ => .trans

variable (evolves : before.Evolves lifts after)
include evolves

theorem inner_eq (id : ClassId) : (after.get? id).elim [] ClassFile.inner = (before.get? id).elim [] ClassFile.inner := by
  cases found : before.get? id with
  | none =>
    have outside : after.get? id = none := by
      have := Array.getElem?_eq_none_iff.mp found
      exact Array.getElem?_eq_none_iff.mpr (evolves.size ▸ this)
    rw [outside]
  | some file =>
    obtain ⟨other, there, evolved⟩ := evolves.left id file found
    have there : after.get? id = some other := there
    rw [there]
    exact (congrArg ClassFile.inner evolved.header :)

theorem subtree_eq (root : ClassId) : after.subtree root = before.subtree root := by
  have from_eq (steps : Nat) (pending : List ClassId) : after.subtreeFrom steps pending = before.subtreeFrom steps pending := by
    induction steps generalizing pending with
    | zero => rfl
    | succ steps same =>
      cases pending with
      | nil => rfl
      | cons id pending => rw [subtreeFrom, subtreeFrom, evolves.inner_eq, same]
  rw [subtree, subtree, from_eq, size, size, evolves.size]

theorem mem_subtreeFiles {root : ClassId} (among : file ∈ after.subtreeFiles root) :
    ∃ old ∈ before.subtreeFiles root, old.Evolves lifts file := by
  obtain ⟨id, inside, found⟩ := List.mem_filterMap.mp among
  obtain ⟨old, there, evolved⟩ := evolves.right found
  exact ⟨old, List.mem_filterMap.mpr ⟨id, evolves.subtree_eq root ▸ inside, there⟩, evolved⟩

theorem mem_subtreeFiles_left {root : ClassId} (among : file ∈ before.subtreeFiles root) :
    ∃ other ∈ after.subtreeFiles root, file.Evolves lifts other := by
  obtain ⟨id, inside, found⟩ := List.mem_filterMap.mp among
  obtain ⟨other, there, evolved⟩ := evolves.left id file found
  exact ⟨other, List.mem_filterMap.mpr ⟨id, (evolves.subtree_eq root).symm ▸ inside, there⟩, evolved⟩

end Evolves

end ClassTable

end ClassLift
