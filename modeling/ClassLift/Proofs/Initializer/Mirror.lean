import ClassLift.Proofs.Initializer.Lifting

namespace ClassLift

theorem Pointwise.findIdx?_eq {α : Type} {related : α → α → Prop} {before after : Array α} {early late : α → Bool}
    (pointwise : Pointwise related before after) (same : ∀ old new, related old new → late new = early old) :
    after.findIdx? late = before.findIdx? early := by
  have values : after.map late = before.map early := by
    refine Array.ext_getElem? fun position => ?_
    rw [Array.getElem?_map, Array.getElem?_map]
    cases found : before[position]? with
    | none =>
      have outside := Array.getElem?_eq_none_iff.mp found
      rw [Array.getElem?_eq_none_iff.mpr (pointwise.size ▸ outside)]
      rfl
    | some old =>
      obtain ⟨new, located, holds⟩ := pointwise.left position old found
      rw [located, Option.map_some, Option.map_some, same old new holds]
  have search := congrArg (Array.findIdx? id) values
  rwa [Array.findIdx?_map, Array.findIdx?_map, Function.id_comp, Function.id_comp] at search

theorem Pool.hasText_iff {pool : Pool} {index : PoolIndex} {text : String} :
    pool.hasText index text = true ↔ pool.utf8 index = .ok text := by
  rw [hasText, beq_iff_eq]
  cases pool.utf8 index with
  | error error => exact ⟨nofun, nofun⟩
  | ok found => exact Option.some_inj.trans (Except.ok.injEq ..).symm.to_iff

namespace ClassFile

variable {file : ClassFile} {index : Nat}

theorem findField?_named {name descriptor : String} (found : file.findField? name descriptor = some index) :
    ∃ field, file.fields[index]? = some field ∧ field.hasName file.pool name = true := by
  obtain ⟨inside, holds, _⟩ := Array.findIdx?_eq_some_iff_getElem.mp found
  exact ⟨_, Array.getElem?_eq_getElem inside, (Bool.and_eq_true_iff.mp holds).1⟩

theorem findMethod?_named {name descriptor : String} (found : file.findMethod? name descriptor = some index) :
    ∃ method, file.methods[index]? = some method ∧ method.hasName file.pool name = true := by
  obtain ⟨inside, holds, _⟩ := Array.findIdx?_eq_some_iff_getElem.mp found
  exact ⟨_, Array.getElem?_eq_getElem inside, (Bool.and_eq_true_iff.mp holds).1⟩

theorem staticInitializer?_named (found : file.staticInitializer? = some index) :
    ∃ method, file.methods[index]? = some method ∧ method.hasName file.pool "<clinit>" = true := by
  obtain ⟨inside, holds, _⟩ := Array.findIdx?_eq_some_iff_getElem.mp found
  exact ⟨_, Array.getElem?_eq_getElem inside, (Bool.and_eq_true_iff.mp holds).1⟩

end ClassFile

structure Method.Mirrors (pool : Pool) (changes : String → Prop) (before after : Method) : Prop where
  header : after.header = before.header
  flagged : after.flagged = before.flagged
  store : after.code.map Code.store = before.code.map Code.store
  body : after.code = before.code ∨ ∃ name, changes name ∧ before.hasName pool name = true

namespace Method.Mirrors

variable {pool : Pool} {changes : String → Prop} {before middle after : Method}

theorem refl (method : Method) : method.Mirrors pool changes method := ⟨rfl, rfl, rfl, .inl rfl⟩

theorem nameIndex (mirrors : before.Mirrors pool changes after) : after.nameIndex = before.nameIndex :=
  (congrArg Method.nameIndex mirrors.header :)

theorem descriptorIndex (mirrors : before.Mirrors pool changes after) : after.descriptorIndex = before.descriptorIndex :=
  (congrArg Method.descriptorIndex mirrors.header :)

theorem hasName (mirrors : before.Mirrors pool changes after) (name : String) :
    after.hasName pool name = before.hasName pool name := by
  rw [Method.hasName, Method.hasName, mirrors.nameIndex]

theorem trans (first : before.Mirrors pool changes middle) (second : middle.Mirrors pool changes after) :
    before.Mirrors pool changes after := by
  refine ⟨second.header.trans first.header, second.flagged.trans first.flagged, second.store.trans first.store, ?_⟩
  rcases second.body with same | ⟨name, changed, named⟩
  · exact first.body.imp_left same.trans
  · exact .inr ⟨name, changed, first.hasName name ▸ named⟩

/-- A name says whether the body may have changed. -/
theorem code_eq (mirrors : before.Mirrors pool changes after) {name : String} (named : before.hasName pool name = true)
    (kept : ¬ changes name) : after.code = before.code := by
  refine mirrors.body.resolve_right ?_
  rintro ⟨other, changed, otherwise⟩
  cases (Pool.hasText_iff.mp named).symm.trans (Pool.hasText_iff.mp otherwise)
  exact kept changed

end Method.Mirrors

namespace ClassFile

/-- Nothing but marks differs, and, where that is allowed, the initial values of fields and the statements of methods with certain
names. -/
structure Mirrors (lifts : Prop) (changes : String → Prop) (before after : ClassFile) : Prop where
  access : after.access = before.access
  thisIndex : after.thisIndex = before.thisIndex
  pool : after.pool = before.pool
  enumValues : after.enumValues = before.enumValues
  fields : Pointwise (Field.Develops lifts) before.fields after.fields
  methods : Pointwise (Method.Mirrors before.pool changes) before.methods after.methods

variable {lifts : Prop} {changes : String → Prop} {file before middle after : ClassFile} {className : String}

namespace Mirrors

theorem refl (file : ClassFile) : file.Mirrors lifts changes file :=
  ⟨rfl, rfl, rfl, rfl, .refl .refl _, .refl .refl _⟩

theorem trans (first : before.Mirrors lifts changes middle) (second : middle.Mirrors lifts changes after) :
    before.Mirrors lifts changes after where
  access := second.access.trans first.access
  thisIndex := second.thisIndex.trans first.thisIndex
  pool := second.pool.trans first.pool
  enumValues := second.enumValues.trans first.enumValues
  fields := first.fields.trans second.fields fun _ _ _ => .trans
  methods := first.methods.trans (first.pool ▸ second.methods) fun _ _ _ => .trans

instance : Std.Refl (Mirrors lifts changes) := ⟨refl⟩

instance : IsTrans ClassFile (Mirrors lifts changes) := ⟨fun _ _ _ => trans⟩

theorem modifyField (index : Nat) {change : Field → Field} (kept : ∀ field : Field, field.Develops lifts (change field)) :
    file.Mirrors lifts changes (file.modifyField index change) :=
  ⟨rfl, rfl, rfl, rfl, .modify .refl fun field _ => kept field, .refl .refl _⟩

theorem modifyMethod (index : Nat) {change : Method → Method}
    (kept : ∀ method, file.methods[index]? = some method → method.Mirrors file.pool changes (change method)) :
    file.Mirrors lifts changes (file.modifyMethod index change) :=
  ⟨rfl, rfl, rfl, rfl, .refl .refl _, .modify .refl kept⟩

theorem setInitializers (lifted : lifts) (file : ClassFile) (method : Nat) (writes : List InitialWrite) :
    file.Mirrors lifts changes (file.setInitializers method writes) := by
  refine List.foldlRecOn writes _ (.refl file) fun _ mirrors write _ => mirrors.trans ?_
  exact .modifyField write.field fun _ => ⟨⟨rfl, .inl lifted⟩, .refl _⟩

theorem dropStatements {method : Nat} {name : String} (changed : changes name)
    (named : ∀ declared, file.methods[method]? = some declared → declared.hasName file.pool name = true)
    (position count : Nat) : file.Mirrors lifts changes (file.dropStatements method position count) := by
  refine .modifyMethod method fun declared found => ⟨rfl, rfl, ?_, .inr ⟨name, changed, named declared found⟩⟩
  cases declared.code <;> rfl

/-! ## What is read the same -/

variable (mirrors : before.Mirrors lifts changes after)
include mirrors

theorem name_eq : after.name = before.name := by
  rw [name, name, mirrors.thisIndex, mirrors.pool]

theorem findField?_eq (name descriptor : String) : after.findField? name descriptor = before.findField? name descriptor := by
  refine mirrors.fields.findIdx?_eq fun old new same => ?_
  have nameIndex : new.nameIndex = old.nameIndex := (congrArg Field.nameIndex same.header :)
  have descriptorIndex : new.descriptorIndex = old.descriptorIndex := (congrArg Field.descriptorIndex same.header :)
  rw [Field.hasName, Field.hasName, nameIndex, descriptorIndex, mirrors.pool]

theorem findMethod?_eq (name descriptor : String) :
    after.findMethod? name descriptor = before.findMethod? name descriptor := by
  refine mirrors.methods.findIdx?_eq fun old new same => ?_
  rw [mirrors.pool, same.hasName, same.descriptorIndex]

theorem staticInitializer?_eq : after.staticInitializer? = before.staticInitializer? := by
  refine mirrors.methods.findIdx?_eq fun old new same => ?_
  rw [Method.isStaticInitializer, Method.isStaticInitializer, mirrors.pool, same.hasName, same.flagged]

theorem code?_store (index : Nat) : (after.code? index).map Code.store = (before.code? index).map Code.store := by
  unfold code?
  cases found : before.methods[index]? with
  | none =>
    have outside := Array.getElem?_eq_none_iff.mp found
    rw [Array.getElem?_eq_none_iff.mpr (mirrors.methods.size ▸ outside)]
  | some old =>
    obtain ⟨new, located, same⟩ := mirrors.methods.left index old found
    rw [located]
    exact same.store

theorem code?_eq {index : Nat} {old : Method} {name : String} (found : before.methods[index]? = some old)
    (named : old.hasName before.pool name = true) (kept : ¬ changes name) : after.code? index = before.code? index := by
  obtain ⟨new, located, same⟩ := mirrors.methods.left index old found
  rw [code?, code?, located, found]
  exact same.code_eq named kept

end Mirrors

end ClassFile

end ClassLift
