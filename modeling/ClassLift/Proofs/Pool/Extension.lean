import ClassLift.Pool.Intern
import ClassLift.Proofs.Action

namespace ClassLift

def Constant.references : Constant → List PoolIndex
  | .classInfo name => [name]
  | .string text => [text]
  | .fieldRef owner member | .methodRef owner member | .interfaceMethodRef owner member => [owner, member]
  | .nameAndType name descriptor => [name, descriptor]
  | .methodHandle _ reference => [reference]
  | .methodType descriptor => [descriptor]
  | .invokeDynamic _ member => [member]
  | .utf8 _ | .integer _ | .float _ | .long _ | .double _ => []

namespace Pool

variable {before middle after pool : Pool} {index : PoolIndex} {constant : Constant}

/-! ## What the readers find -/

theorem get_ok : pool.get index = .ok constant ↔ pool.entries[index.toNat]? = some (some constant) := by
  unfold get
  split
  · rename_i found
    simp [found]
  · rename_i missing
    simp only [reduceCtorEq, false_iff]
    exact missing constant

theorem lt_count_of_get (found : pool.get index = .ok constant) : index.toNat < pool.count :=
  (Array.getElem?_eq_some_iff.mp (get_ok.mp found)).1

theorem utf8_ok {text : String} : pool.utf8 index = .ok text ↔ pool.get index = .ok (.utf8 text) := by
  unfold utf8
  rw [except_bind_ok]
  constructor
  · rintro ⟨constant, found, read⟩
    cases constant <;> cases read
    exact found
  · intro found
    exact ⟨_, found, rfl⟩

theorem className_ok {name : String} :
    pool.className index = .ok name ↔
      ∃ nameIndex, pool.get index = .ok (.classInfo nameIndex) ∧ pool.utf8 nameIndex = .ok name := by
  unfold className classNameIndex
  rw [except_bind_ok]
  constructor
  · rintro ⟨nameIndex, indexed, read⟩
    obtain ⟨constant, found, same⟩ := except_bind_ok.mp indexed
    cases constant <;> cases same
    exact ⟨_, found, read⟩
  · rintro ⟨nameIndex, found, read⟩
    exact ⟨nameIndex, except_bind_ok.mpr ⟨_, found, rfl⟩, read⟩

theorem nameAndType_ok {name descriptor : PoolIndex} :
    pool.nameAndType index = .ok (name, descriptor) ↔ pool.get index = .ok (.nameAndType name descriptor) := by
  unfold nameAndType
  rw [except_bind_ok]
  constructor
  · rintro ⟨constant, found, same⟩
    cases constant <;> cases same
    exact found
  · intro found
    exact ⟨_, found, rfl⟩

theorem memberIndices_ok {owner nameAndType : PoolIndex} :
    pool.memberIndices index = .ok (owner, nameAndType) ↔
      ∃ constant ∈ [.fieldRef owner nameAndType, .methodRef owner nameAndType, .interfaceMethodRef owner nameAndType],
        pool.get index = .ok constant := by
  unfold memberIndices
  rw [except_bind_ok]
  constructor
  · rintro ⟨constant, found, same⟩
    cases constant <;> cases same <;> exact ⟨_, by simp, found⟩
  · rintro ⟨constant, among, found⟩
    simp only [List.mem_cons, List.not_mem_nil, or_false] at among
    rcases among with rfl | rfl | rfl <;> exact ⟨_, found, rfl⟩

theorem member_ok {member : Member} :
    pool.member index = .ok member ↔
      ∃ owner nameAndType, pool.memberIndices index = .ok (owner, nameAndType) ∧
        pool.nameAndType nameAndType = .ok (member.nameIndex, member.descriptorIndex) ∧
        pool.className owner = .ok member.owner ∧ pool.utf8 member.nameIndex = .ok member.name ∧
        pool.utf8 member.descriptorIndex = .ok member.descriptor := by
  unfold Pool.member
  simp only [except_bind_ok, pure, Except.pure, Except.ok.injEq]
  constructor
  · rintro ⟨⟨owner, nameAndType⟩, indices, ⟨nameIndex, descriptorIndex⟩, names, _, owned, _, named, _, described, rfl⟩
    exact ⟨owner, nameAndType, indices, names, owned, named, described⟩
  · rintro ⟨owner, nameAndType, indices, names, owned, named, described⟩
    exact ⟨_, indices, _, names, _, owned, _, named, _, described, rfl⟩

theorem member_empty {member : Member} : ({} : Pool).member index ≠ .ok member := by
  intro found
  obtain ⟨_, _, indices, _⟩ := member_ok.mp found
  obtain ⟨constant, _, read⟩ := memberIndices_ok.mp indices
  have filled : (#[none] : Array (Option Constant))[index.toNat]? = some (some constant) := get_ok.mp read
  simpa using Array.mem_of_getElem? filled

/-! ## Growth -/

structure Extends (before after : Pool) : Prop where
  entries : ∃ added, after.entries = before.entries ++ added
  fits : before.count ≤ limit → after.count ≤ limit

namespace Extends

theorem refl (pool : Pool) : pool.Extends pool := ⟨⟨#[], by simp⟩, id⟩

theorem trans (first : before.Extends middle) (second : middle.Extends after) : before.Extends after := by
  obtain ⟨added, grown⟩ := first.entries
  obtain ⟨more, grownMore⟩ := second.entries
  exact ⟨⟨added ++ more, by rw [grownMore, grown, Array.append_assoc]⟩, second.fits ∘ first.fits⟩

instance : Std.Refl Extends := ⟨refl⟩

instance : IsTrans Pool Extends := ⟨fun _ _ _ => trans⟩

variable (grown : before.Extends after)
include grown

theorem count_le : before.count ≤ after.count := by
  obtain ⟨added, same⟩ := grown.entries
  simp [count, same]

theorem get_eq (inside : index.toNat < before.count) : after.get index = before.get index := by
  obtain ⟨added, same⟩ := grown.entries
  unfold Pool.get
  rw [same, Array.getElem?_append_left inside]

theorem get (found : before.get index = .ok constant) : after.get index = .ok constant := by
  rw [grown.get_eq (lt_count_of_get found), found]

theorem utf8 {text : String} (read : before.utf8 index = .ok text) : after.utf8 index = .ok text :=
  utf8_ok.mpr (grown.get (utf8_ok.mp read))

theorem className {name : String} (read : before.className index = .ok name) : after.className index = .ok name := by
  obtain ⟨nameIndex, found, named⟩ := className_ok.mp read
  exact className_ok.mpr ⟨nameIndex, grown.get found, grown.utf8 named⟩

theorem member {member : Member} (read : before.member index = .ok member) : after.member index = .ok member := by
  obtain ⟨owner, nameAndType, indices, names, owned, named, described⟩ := member_ok.mp read
  obtain ⟨constant, among, found⟩ := memberIndices_ok.mp indices
  exact member_ok.mpr ⟨owner, nameAndType, memberIndices_ok.mpr ⟨constant, among, grown.get found⟩,
    nameAndType_ok.mpr (grown.get (nameAndType_ok.mp names)), grown.className owned, grown.utf8 named,
    grown.utf8 described⟩

end Extends

/-! ## Closed pools -/

def Closed (pool : Pool) : Prop :=
  ∀ index constant, pool.get index = .ok constant → ∀ reference ∈ constant.references, reference.toNat < pool.count

namespace Closed

variable (closed : before.Closed) (grown : before.Extends after)

theorem utf8 (grown : before.Extends after) (inside : index.toNat < before.count) {text : String}
    (read : after.utf8 index = .ok text) : before.utf8 index = .ok text := by
  rw [utf8_ok, ← grown.get_eq inside]
  exact utf8_ok.mp read

include closed grown

theorem className (inside : index.toNat < before.count) {name : String} (read : after.className index = .ok name) :
    before.className index = .ok name := by
  obtain ⟨nameIndex, found, named⟩ := className_ok.mp read
  rw [grown.get_eq inside] at found
  exact className_ok.mpr ⟨nameIndex, found, utf8 grown (closed _ _ found _ (by simp [Constant.references])) named⟩

theorem member (inside : index.toNat < before.count) {member : Member} (read : after.member index = .ok member) :
    before.member index = .ok member := by
  obtain ⟨owner, nameAndType, indices, names, owned, named, described⟩ := member_ok.mp read
  obtain ⟨constant, among, found⟩ := memberIndices_ok.mp indices
  rw [grown.get_eq inside] at found
  have refers : constant.references = [owner, nameAndType] := by
    simp only [List.mem_cons, List.not_mem_nil, or_false] at among
    rcases among with rfl | rfl | rfl <;> rfl
  have ownerInside := closed _ _ found owner (by simp [refers])
  have typeInside := closed _ _ found nameAndType (by simp [refers])
  have typed := nameAndType_ok.mp names
  rw [grown.get_eq typeInside] at typed
  have nameInside := closed _ _ typed member.nameIndex (by simp [Constant.references])
  have descriptorInside := closed _ _ typed member.descriptorIndex (by simp [Constant.references])
  exact member_ok.mpr ⟨owner, nameAndType, memberIndices_ok.mpr ⟨constant, among, found⟩, nameAndType_ok.mpr typed,
    className closed grown ownerInside owned, utf8 grown nameInside named, utf8 grown descriptorInside described⟩

end Closed

/-! ## Interning -/

theorem append_extends (fits : pool.count + constant.slots ≤ limit) : pool.Extends (pool.append constant) := by
  unfold append
  cases wide : constant.isWide with
  | true =>
    refine ⟨⟨#[some constant, none], by apply Array.ext'; simp⟩, fun _ => ?_⟩
    have slots : constant.slots = 2 := by simp [Constant.slots, wide]
    simp only [count, if_true, Array.size_push, slots] at fits ⊢
    exact fits
  | false =>
    refine ⟨⟨#[some constant], by simp⟩, fun _ => ?_⟩
    have slots : constant.slots = 1 := by simp [Constant.slots, wide]
    simp only [count, Bool.false_eq_true, if_false, Array.size_push, slots] at fits ⊢
    exact fits

theorem get_append (fits : pool.count + constant.slots ≤ limit) :
    (pool.append constant).get (.ofNat pool.count) = .ok constant := by
  have small : pool.count < 65536 := by
    simp only [limit] at fits
    omega
  have last : (pool.entries.push (some constant))[pool.count]? = some (some constant) := by
    rw [Array.getElem?_push, count, if_pos rfl]
  rw [get_ok, UInt16.toNat_ofNat_of_lt' small]
  unfold append
  cases constant.isWide with
  | false => exact last
  | true =>
    have apart : pool.count ≠ (pool.entries.push (some constant)).size := by
      rw [Array.size_push, count]
      omega
    simp only [if_true]
    rw [Array.getElem?_push, if_neg apart, last]

theorem intern_extends (constant : Constant) : Preserves Extends (intern constant) := by
  intro pool
  unfold intern push
  cases pool.indexOf? constant with
  | some index => exact .refl pool
  | none =>
    by_cases full : pool.count + constant.slots > limit
    · simp only [if_pos full]
      exact .refl pool
    · simp only [if_neg full]
      exact append_extends (Nat.le_of_not_lt full)

theorem get_intern (ran : intern constant before = (.ok index, after)) (fits : after.count ≤ limit) :
    after.get index = .ok constant := by
  unfold intern push indexOf? at ran
  cases search : before.entries.findIdx? (· == some constant) with
  | some position =>
    simp only [search, Option.map_some] at ran
    cases ran
    obtain ⟨inside, holds, _⟩ := Array.findIdx?_eq_some_iff_getElem.mp search
    have small : position < 65536 := Nat.lt_of_lt_of_le inside (Nat.le_trans fits (by decide))
    rw [get_ok, UInt16.toNat_ofNat_of_lt' small, Array.getElem?_eq_getElem inside, eq_of_beq holds]
  | none =>
    simp only [search, Option.map_none] at ran
    by_cases full : before.count + constant.slots > limit
    · simp only [if_pos full] at ran
      cases ran
    · simp only [if_neg full] at ran
      cases ran
      exact get_append (Nat.le_of_not_lt full)

theorem internUtf8_extends (text : String) : Preserves Extends (internUtf8 text) := intern_extends _

theorem internClass_extends (name : String) : Preserves Extends (internClass name) :=
  preserves_bind (internUtf8_extends name) fun _ => intern_extends _

theorem internString_extends (text : String) : Preserves Extends (internString text) :=
  preserves_bind (internUtf8_extends text) fun _ => intern_extends _

theorem internNameAndType_extends (name descriptor : String) : Preserves Extends (internNameAndType name descriptor) :=
  preserves_bind (internUtf8_extends name) fun _ => preserves_bind (internUtf8_extends descriptor) fun _ => intern_extends _

theorem internField_extends (owner name descriptor : String) : Preserves Extends (internField owner name descriptor) :=
  preserves_bind (internClass_extends owner) fun _ =>
    preserves_bind (internNameAndType_extends name descriptor) fun _ => intern_extends _

theorem internMethod_extends (owner name descriptor : String) : Preserves Extends (internMethod owner name descriptor) :=
  preserves_bind (internClass_extends owner) fun _ =>
    preserves_bind (internNameAndType_extends name descriptor) fun _ => intern_extends _

/-! ## What an interned constant names -/

section Named

variable {owner name descriptor : String}

theorem className_internClass (ran : internClass name before = (.ok index, after)) (fits : after.count ≤ limit) :
    after.className index = .ok name := by
  obtain ⟨nameIndex, middle, text, info⟩ := bind_ok.mp ran
  have growth := (intern_extends _).of_run info
  have read := utf8_ok.mpr (get_intern text (Nat.le_trans growth.count_le fits))
  exact className_ok.mpr ⟨nameIndex, get_intern info fits, growth.utf8 read⟩

theorem get_internNameAndType (ran : internNameAndType name descriptor before = (.ok index, after))
    (fits : after.count ≤ limit) :
    ∃ nameIndex descriptorIndex, after.get index = .ok (.nameAndType nameIndex descriptorIndex) ∧
      after.utf8 nameIndex = .ok name ∧ after.utf8 descriptorIndex = .ok descriptor := by
  obtain ⟨nameIndex, first, text, ran⟩ := bind_ok.mp ran
  obtain ⟨descriptorIndex, second, more, info⟩ := bind_ok.mp ran
  have growth := (intern_extends _).of_run info
  have earlier := ((internUtf8_extends _).of_run more).trans growth
  refine ⟨nameIndex, descriptorIndex, get_intern info fits, ?_, ?_⟩
  · exact earlier.utf8 (utf8_ok.mpr (get_intern text (Nat.le_trans earlier.count_le fits)))
  · exact growth.utf8 (utf8_ok.mpr (get_intern more (Nat.le_trans growth.count_le fits)))

theorem member_interned {reference : PoolIndex → PoolIndex → Constant}
    (isReference : ∀ ownerIndex nameAndType, reference ownerIndex nameAndType ∈
      [.fieldRef ownerIndex nameAndType, .methodRef ownerIndex nameAndType, .interfaceMethodRef ownerIndex nameAndType])
    (ran : (do
      let ownerIndex ← internClass owner
      let nameAndTypeIndex ← internNameAndType name descriptor
      intern (reference ownerIndex nameAndTypeIndex) : Interning PoolIndex) before = (.ok index, after))
    (fits : after.count ≤ limit) :
    ∃ nameIndex descriptorIndex, after.member index = .ok ⟨owner, name, descriptor, nameIndex, descriptorIndex⟩ := by
  obtain ⟨ownerIndex, first, owned, ran⟩ := bind_ok.mp ran
  obtain ⟨nameAndTypeIndex, second, named, info⟩ := bind_ok.mp ran
  have growth := (intern_extends _).of_run info
  have earlier := ((internNameAndType_extends _ _).of_run named).trans growth
  obtain ⟨nameIndex, descriptorIndex, both, readName, readDescriptor⟩ :=
    get_internNameAndType named (Nat.le_trans growth.count_le fits)
  refine ⟨nameIndex, descriptorIndex, member_ok.mpr ⟨ownerIndex, nameAndTypeIndex, ?_, ?_, ?_, ?_, ?_⟩⟩
  · exact memberIndices_ok.mpr ⟨_, isReference _ _, get_intern info fits⟩
  · exact nameAndType_ok.mpr (growth.get both)
  · exact earlier.className (className_internClass owned (Nat.le_trans earlier.count_le fits))
  · exact growth.utf8 readName
  · exact growth.utf8 readDescriptor

theorem member_internField (ran : internField owner name descriptor before = (.ok index, after)) (fits : after.count ≤ limit) :
    ∃ nameIndex descriptorIndex, after.member index = .ok ⟨owner, name, descriptor, nameIndex, descriptorIndex⟩ :=
  member_interned (fun _ _ => by simp) ran fits

theorem member_internMethod (ran : internMethod owner name descriptor before = (.ok index, after)) (fits : after.count ≤ limit) :
    ∃ nameIndex descriptorIndex, after.member index = .ok ⟨owner, name, descriptor, nameIndex, descriptorIndex⟩ :=
  member_interned (fun _ _ => by simp) ran fits

end Named

end Pool

end ClassLift
