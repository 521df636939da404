import ClassLift.Proofs.Idiom.Evolution
import ClassLift.Proofs.Idiom.OuterInstance
import Mathlib.Logic.Relation

namespace ClassLift

/-- What a node does. A plain assignment used as a value does the write that it makes. -/
def Store.action? (store : Store) (id : NodeId) : Option Kind :=
  match store.kind? id with
  | some (.assign .plain target value) =>
      match store.kind? target with
      | some (.read place) => some (.write place value)
      | _ => some (.assign .plain target value)
  | kind => kind

namespace Store

variable {store : Store} {id : NodeId}

theorem action?_replace_self {kind : Kind} (inside : id < store.size) (plain : ∀ target value, kind ≠ .assign .plain target value) :
    (store.replace id kind).action? id = some kind := by
  unfold action?
  rw [kind?_replace_self inside]
  split
  case h_1 target value same =>
    cases same
    exact (plain target value rfl).elim
  case h_2 => rfl

theorem action?_assign (inside : id < store.size) (place : Place) (value : NodeId) :
    ((store.allocate id (.read place)).2.replace id (.assign .plain store.size value)).action? id =
      some (.write place value) := by
  have own : ((store.allocate id (.read place)).2.replace id (.assign .plain store.size value)).kind? id =
      some (.assign .plain store.size value) := kind?_replace_self (Nat.lt_of_lt_of_le inside size_le_allocate)
  have target : ((store.allocate id (.read place)).2.replace id (.assign .plain store.size value)).kind? store.size =
      some (.read place) := by
    rw [kind?, node?_replace, if_neg (Nat.ne_of_gt inside)]
    exact kind?_allocate_self inside
  simp [action?, own, target]

end Store

def ClassTable.poolOf (table : ClassTable) (id : ClassId) : Pool := (table.get? id).elim {} ClassFile.pool

theorem ClassTable.Annotates.poolOf {home : ClassId} {before after : ClassTable} (annotates : before.Annotates home after)
    (id : ClassId) :
    (before.poolOf id).Extends (after.poolOf id) := by
  unfold ClassTable.poolOf
  cases located : before.get? id with
  | some file =>
    obtain ⟨other, found, grown, _⟩ := annotates.left id file located
    rw [show after.get? id = some other from found]
    exact grown.pool
  | none =>
    have absent : after.get? id = none :=
      Array.getElem?_eq_none (annotates.size ▸ Array.getElem?_eq_none_iff.mp located)
    rw [absent]
    exact .refl _

theorem ClassTable.get?_of_member {table : ClassTable} {home : ClassId} {index : PoolIndex} {member : Member}
    (resolved : (table.poolOf home).member index = .ok member) : ∃ file, table.get? home = some file := by
  unfold ClassTable.poolOf at resolved
  cases located : table.get? home with
  | some file => exact ⟨file, rfl⟩
  | none =>
    rw [located] at resolved
    exact absurd resolved Pool.member_empty

namespace OuterInstance

variable {table last : ClassTable} {home owner : ClassId} {store changed : Store} {id : NodeId} {member : PoolIndex}
  {arguments : List NodeId} {accessor : Accessor}

/-! ## The replacement -/

theorem Expands.action? (expands : Expands store id member accessor arguments changed) (inside : id < store.size) :
    ∃ kind, accessor.expansion? member arguments = some kind ∧ changed.action? id = some kind := by
  cases expands with
  | readStatic => exact ⟨_, rfl, Store.action?_replace_self inside nofun⟩
  | readField => exact ⟨_, rfl, Store.action?_replace_self inside nofun⟩
  | assignStatic => exact ⟨_, rfl, Store.action?_assign inside _ _⟩
  | assignField => exact ⟨_, rfl, Store.action?_assign inside _ _⟩
  | callStatic => exact ⟨_, rfl, Store.action?_replace_self inside nofun⟩
  | callVirtual => exact ⟨_, rfl, Store.action?_replace_self inside nofun⟩
  | writeStatic => exact ⟨_, rfl, Store.action?_replace_self inside nofun⟩
  | writeField => exact ⟨_, rfl, Store.action?_replace_self inside nofun⟩

/-! ## The member -/

variable {file : ClassFile} {index : PoolIndex} {exposed : Member}

theorem interning_ok {action : Interning PoolIndex} (known : table.get? home = some file)
    (ran : OnTable.interning home action table = (.ok member, last)) : action file.pool = (.ok member, last.poolOf home) := by
  unfold OnTable.interning at ran
  rw [known] at ran
  cases outcome : action file.pool with
  | mk result pool =>
    simp only [Option.elim_some, outcome] at ran
    obtain ⟨interned, rfl⟩ := Prod.mk.inj ran
    obtain rfl := mapError_ok.mp interned
    have located : table.classes[home]? = some file := known
    simp [ClassTable.poolOf, ClassTable.get?, ClassTable.modify, Array.getElem?_modify, located]

theorem import_names {intern : String → String → String → Interning PoolIndex}
    (grows : ∀ owner name descriptor, Preserves Pool.Extends (intern owner name descriptor))
    (names : ∀ {owner name descriptor before index after}, intern owner name descriptor before = (.ok index, after) →
      after.count ≤ Pool.limit →
        ∃ nameIndex descriptorIndex, after.member index = .ok ⟨owner, name, descriptor, nameIndex, descriptorIndex⟩)
    (known : table.get? home = some file) (fits : file.pool.count ≤ Pool.limit)
    (ran : (do
      match ← foreignMember? (← get) home owner index with
      | none => return index
      | some found => OnTable.interning home (intern found.owner found.name found.descriptor) : OnTable PoolIndex) table =
        (.ok member, last))
    (found : (table.poolOf owner).member index = .ok exposed) :
    ∃ nameIndex descriptorIndex, (last.poolOf home).member member =
      .ok ⟨exposed.owner, exposed.name, exposed.descriptor, nameIndex, descriptorIndex⟩ := by
  rw [OnTable.get_bind_ok, OnTable.read_bind_ok] at ran
  obtain ⟨foreign, looked, ran⟩ := ran
  unfold foreignMember? at looked
  split at looked
  case isTrue same =>
    cases looked
    obtain ⟨rfl, rfl⟩ := OnTable.return_ok ran
    exact ⟨_, _, same ▸ found⟩
  case isFalse =>
    have found : ((table.get? owner).elim {} ClassFile.pool).member index = .ok exposed := found
    rw [found] at looked
    cases looked
    have interned := interning_ok known ran
    exact names interned (((grows _ _ _).of_run interned).fits fits)

theorem importMember_names (known : table.get? home = some file) (fits : file.pool.count ≤ Pool.limit)
    (ran : importMember home owner accessor table = (.ok member, last))
    (found : (table.poolOf owner).member accessor.member = .ok exposed) :
    ∃ nameIndex descriptorIndex, (last.poolOf home).member member =
      .ok ⟨exposed.owner, exposed.name, exposed.descriptor, nameIndex, descriptorIndex⟩ := by
  cases accessor with
  | call => exact import_names Pool.internMethod_extends Pool.member_internMethod known fits ran found
  | readStatic => exact import_names Pool.internField_extends Pool.member_internField known fits ran found
  | readField => exact import_names Pool.internField_extends Pool.member_internField known fits ran found
  | writeStatic => exact import_names Pool.internField_extends Pool.member_internField known fits ran found
  | writeField => exact import_names Pool.internField_extends Pool.member_internField known fits ran found

/-! ## The calls -/

/-- A reference in the pool of the class at `home` leads to a method of the class at `owner`. -/
def LeadsTo (table : ClassTable) (home : ClassId) (reference : PoolIndex) (owner : ClassId) (method : Method) : Prop :=
  ∃ called file index, (table.poolOf home).member reference = .ok called ∧ table.findByName? called.owner = some owner ∧
    table.get? owner = some file ∧ file.findMethod? called.name called.descriptor = some index ∧
    file.methods[index]? = some method

/-- A call of an accessor that was replaced, as a value or together with the statement that drops its result. -/
structure InlinedCall (home : ClassId) (before after : ClassTable × Store) where
  call : NodeId
  id : NodeId
  site : id = call ∨ before.2.kind? id = some (.discard call)
  reference : PoolIndex
  object : Option NodeId
  arguments : List NodeId
  found : before.2.kind? call = some (.call .static reference object arguments)
  owner : ClassId
  method : Method
  callee : LeadsTo before.1 home reference owner method
  accessor : Accessor
  recorded : method.accessor = some accessor
  member : PoolIndex
  imported : importMember home owner accessor before.1 = (.ok member, after.1)
  expands : Expands before.2 id member accessor arguments after.2

theorem accessor?_ok {reference : PoolIndex} {object : Option NodeId}
    (looked : accessor? table (table.poolOf home) (.call .static reference object arguments) = .ok (some (accessor, owner))) :
    ∃ method, LeadsTo table home reference owner method ∧ method.accessor = some accessor := by
  obtain ⟨called, resolved, looked⟩ := except_bind_ok.mp looked
  split at looked
  · cases looked
  · cases byName : table.findByName? called.owner with
    | none => simp [byName, pure, Except.pure] at looked
    | some found =>
      cases located : table.get? found with
      | none => simp [byName, located, pure, Except.pure] at looked
      | some file =>
        cases position : file.findMethod? called.name called.descriptor with
        | none => simp [byName, located, position, pure, Except.pure] at looked
        | some index =>
          simp only [byName, located, position, pure, Except.pure, Except.ok.injEq, Option.map_eq_some_iff,
            Option.bind_eq_some_iff] at looked
          obtain ⟨_, ⟨method, declared, recorded⟩, same⟩ := looked
          cases same
          exact ⟨method, ⟨called, file, index, resolved, byName, located, position, declared⟩, recorded⟩

theorem site_of_droppedCall? {statement call : NodeId} (dropped : droppedCall? store statement = some call) :
    statement = call ∨ store.kind? statement = some (.discard call) := by
  unfold droppedCall? at dropped
  split at dropped
  case h_1 value found =>
    cases dropped
    exact .inr found
  case h_2 =>
    cases dropped
    exact .inl rfl
  case h_3 => cases dropped

theorem inlineSetter_inlines {statement : NodeId} (ran : inlineSetter home store statement table = (.ok changed, last)) :
    changed = store ∧ last = table ∨ Nonempty (InlinedCall home (table, store) (last, changed)) := by
  rcases inlineSetter_ok ran with unchanged |
    ⟨call, _, arguments, accessor, owner, member, dropped, found, ⟨reference, object, rfl⟩, looked, imported, expands⟩
  · exact .inl unchanged
  · obtain ⟨method, callee, recorded⟩ := accessor?_ok looked
    exact .inr ⟨⟨call, statement, site_of_droppedCall? dropped, reference, object, arguments, found, owner, method, callee,
      accessor, recorded, member, imported, expands⟩⟩

def NamesOuter (before after : ClassTable × Store) : Prop :=
  ∃ id field object type, before.2.kind? id = some (.read (.field field object)) ∧
    after.2 = before.2.replace id (.outerThis type)

theorem foldNode_inlines (ran : foldNode home store id table = (.ok changed, last)) :
    changed = store ∧ last = table ∨ Nonempty (InlinedCall home (table, store) (last, changed)) ∨
      NamesOuter (table, store) (last, changed) := by
  rcases foldNode_ok ran with unchanged |
    ⟨_, arguments, accessor, owner, member, found, ⟨reference, object, rfl⟩, looked, imported, expands⟩ |
    ⟨field, object, _, _, type, found, _, _, _, same⟩
  · exact .inl unchanged
  · obtain ⟨method, callee, recorded⟩ := accessor?_ok looked
    exact .inr (.inl ⟨⟨id, id, .inl rfl, reference, object, arguments, found, owner, method, callee, accessor, recorded, member,
      imported, expands⟩⟩)
  · exact .inr (.inr ⟨id, field, object, type, found, same⟩)

namespace InlinedCall

variable {before after : ClassTable × Store}

def SameMember (inlined : InlinedCall home before after) : Prop :=
  ∀ exposed, (before.1.poolOf inlined.owner).member inlined.accessor.member = .ok exposed →
    ∃ nameIndex descriptorIndex, (after.1.poolOf home).member inlined.member =
      .ok ⟨exposed.owner, exposed.name, exposed.descriptor, nameIndex, descriptorIndex⟩

/-- What stands in place of the call is a body with the arguments in place of its parameters. -/
def Reduces (inlined : InlinedCall home before after) (store : Store) (parameters : List String) (body : Kind) : Prop :=
  ∃ reduct, after.2.action? inlined.id = some reduct ∧
    Accessor.IsReduct store parameters inlined.arguments inlined.member body reduct

theorem sameMember (inlined : InlinedCall home before after) (fits : (before.1.poolOf home).count ≤ Pool.limit) :
    inlined.SameMember := by
  intro exposed found
  obtain ⟨called, _, _, resolved, _⟩ := inlined.callee
  cases known : before.1.get? home with
  | none =>
    simp only [ClassTable.poolOf, known, Option.elim_none] at resolved
    exact absurd resolved Pool.member_empty
  | some file =>
    have fits : file.pool.count ≤ Pool.limit := by simpa [ClassTable.poolOf, known] using fits
    exact importMember_names known fits inlined.imported found

theorem inside (inlined : InlinedCall home before after) : inlined.id < before.2.size := by
  rcases inlined.site with same | found
  · exact same ▸ Store.lt_size_of_kind? inlined.found
  · exact Store.lt_size_of_kind? found

variable {store : Store} {parameters : List String} {body : Kind}

theorem reduces (inlined : InlinedCall home before after)
    (exposes : Accessor.Exposes store parameters.length body inlined.accessor)
    (arity : inlined.arguments.length = parameters.length) (faithful : Accessor.Faithful store parameters body) :
    inlined.Reduces store parameters body := by
  obtain ⟨kind, expanded, acts⟩ := inlined.expands.action? inlined.inside
  exact ⟨kind, acts, faithful.isReduct exposes arity expanded⟩

theorem faithful (inlined : InlinedCall home before after)
    (exposes : Accessor.Exposes store parameters.length body inlined.accessor)
    (arity : inlined.arguments.length = parameters.length) (distinct : inlined.arguments.Nodup)
    (reduces : inlined.Reduces store parameters body) : Accessor.Faithful store parameters body := by
  obtain ⟨kind, expanded, acts⟩ := inlined.expands.action? inlined.inside
  obtain ⟨reduct, also, isReduct⟩ := reduces
  obtain rfl : kind = reduct := Option.some_inj.mp (acts.symm.trans also)
  exact isReduct.faithful exposes arity expanded distinct

/-- Wherever a body was recognized as the accessor, the call became that body with the arguments in place of the parameters,
if the body is faithful, and with different arguments only then. A body that reads is always faithful. -/
def Beta (inlined : InlinedCall home before after) : Prop :=
  ∀ file surveyed, ClassFile.accessorOf? file surveyed = .ok (some inlined.accessor) →
    ∃ code descriptor parameters body, surveyed.code = some code ∧
      file.pool.utf8 surveyed.descriptorIndex = .ok descriptor ∧ Descriptor.parameters descriptor = .ok parameters ∧
      Accessor.exposed? code.store code.instructions = some body ∧ body.member? = some inlined.accessor.member ∧
      (inlined.arguments.length = parameters.length →
        ((∃ place, body = .read place) → Accessor.Faithful code.store parameters body) ∧
        (Accessor.Faithful code.store parameters body → inlined.Reduces code.store parameters body) ∧
        (inlined.arguments.Nodup → inlined.Reduces code.store parameters body →
          Accessor.Faithful code.store parameters body))

theorem beta (inlined : InlinedCall home before after) : inlined.Beta := by
  intro file surveyed recognized
  obtain ⟨code, descriptor, parameters, body, hasCode, described, taken, exposed, exposes⟩ :=
    ClassFile.accessorOf?_ok recognized
  refine ⟨code, descriptor, parameters, body, hasCode, described, taken, exposed, exposes.member?, fun arity => ⟨?_, ?_, ?_⟩⟩
  · rintro ⟨place, rfl⟩
    obtain ⟨kind, expanded, _⟩ := inlined.expands.action? inlined.inside
    exact exposes.faithful_of_read arity expanded
  · exact inlined.reduces exposes arity
  · exact inlined.faithful exposes arity

end InlinedCall

/-! ## The whole pass -/

def Change (home : ClassId) (before after : ClassTable × Store) : Prop :=
  NamesOuter before after ∨ ∃ inlined : InlinedCall home before after, inlined.SameMember ∧ inlined.Beta

theorem Change.of_inlined {before after : ClassTable × Store} (fits : (before.1.poolOf home).count ≤ Pool.limit)
    (inlined : Nonempty (InlinedCall home before after)) : Change home before after := by
  obtain ⟨inlined⟩ := inlined
  exact .inr ⟨inlined, inlined.sameMember fits, inlined.beta⟩

theorem inlineSetter_changes (fits : (table.poolOf home).count ≤ Pool.limit)
    (ran : inlineSetter home store id table = (.ok changed, last)) :
    Relation.ReflTransGen (Change home) (table, store) (last, changed) := by
  rcases inlineSetter_inlines ran with ⟨rfl, rfl⟩ | inlined
  · exact .refl
  · exact .single (.of_inlined fits inlined)

theorem foldNode_changes (fits : (table.poolOf home).count ≤ Pool.limit)
    (ran : foldNode home store id table = (.ok changed, last)) :
    Relation.ReflTransGen (Change home) (table, store) (last, changed) := by
  rcases foldNode_inlines ran with ⟨rfl, rfl⟩ | inlined | named
  · exact .refl
  · exact .single (.of_inlined fits inlined)
  · exact .single (.inl named)

theorem foldlM_changes {step : Store → NodeId → OnTable Store} (ids : List NodeId)
    (steps : ∀ {store id table changed last}, (table.poolOf home).count ≤ Pool.limit →
      step store id table = (.ok changed, last) → Relation.ReflTransGen (Change home) (table, store) (last, changed))
    (grows : ∀ store id, Preserves (ClassTable.Annotates home) (step store id)) (fits : (table.poolOf home).count ≤ Pool.limit)
    (ran : ids.foldlM step store table = (.ok changed, last)) :
    Relation.ReflTransGen (Change home) (table, store) (last, changed) ∧ (last.poolOf home).count ≤ Pool.limit := by
  induction ids generalizing store table with
  | nil =>
    obtain ⟨rfl, rfl⟩ := OnTable.return_ok ran
    exact ⟨.refl, fits⟩
  | cons id rest continues =>
    rw [List.foldlM_cons] at ran
    obtain ⟨next, middle, first, ran⟩ := bind_ok.mp ran
    obtain ⟨later, fitsLast⟩ := continues ((((grows store id).of_run first).poolOf home).fits fits) ran
    exact ⟨(steps fits first).trans later, fitsLast⟩

theorem dropOuterStore_store (file : ClassFile) (method : Nat) (draft : Draft) :
    (dropOuterStore file method draft).store = draft.store := by
  unfold dropOuterStore
  split
  · split <;> rfl
  · rfl

/-- Every change made by the pass names an enclosing instance or is the reduction of an accessor call. -/
theorem recover_reduces_calls {method : Nat} {draft after : Draft} (fits : (table.poolOf home).count ≤ Pool.limit)
    (ran : recover home method draft table = (.ok after, last)) :
    Relation.ReflTransGen (Change home) (table, draft.store) (last, after.store) := by
  unfold recover at ran
  rw [OnTable.get_bind_ok] at ran
  have dropped : ((table.get? home).elim draft fun file => dropOuterStore file method draft).store = draft.store := by
    cases table.get? home with
    | none => rfl
    | some file => exact dropOuterStore_store file method draft
  generalize (table.get? home).elim draft _ = rest at ran dropped
  obtain ⟨store, middle, setters, ran⟩ := bind_ok.mp ran
  obtain ⟨changed, nodes, rfl⟩ := OnTable.map_ok ran
  rw [dropped] at setters
  obtain ⟨first, fits⟩ := foldlM_changes rest.statements inlineSetter_changes (inlineSetter_annotates home) fits setters
  obtain ⟨second, _⟩ := foldlM_changes _ foldNode_changes (foldNode_annotates home) fits nodes
  exact first.trans second

/-! A class with three accessors, and a method of another class that calls them. -/

def getter : Method where
  access := ⟨8⟩
  nameIndex := 7
  descriptorIndex := 8
  code := some {
    store := ⟨#[⟨0, none, .read (.slot .reference 0)⟩, ⟨1, none, .read (.field 6 0)⟩, ⟨4, none, .ret (some 1)⟩]⟩
    instructions := [2] }

/-- The value that is passed in is ignored: `o.f = o`. -/
def looseSetter : Method where
  access := ⟨8⟩
  nameIndex := 9
  descriptorIndex := 10
  code := some {
    store := ⟨#[⟨0, none, .read (.slot .reference 0)⟩, ⟨1, none, .read (.slot .reference 0)⟩, ⟨2, none, .write (.field 6 0) 1⟩,
      ⟨5, none, .ret none⟩]⟩
    instructions := [2, 3] }

/-- The method of the superclass is called, whatever the class of the object overrides. -/
def superCall : Method where
  access := ⟨8⟩
  nameIndex := 17
  descriptorIndex := 18
  code := some {
    store := ⟨#[⟨0, none, .read (.slot .reference 0)⟩, ⟨1, none, .call .special 16 (some 0) []⟩, ⟨4, none, .ret (some 1)⟩]⟩
    instructions := [2] }

def exposingClass : ClassFile where
  thisIndex := 2
  pool := ⟨#[none, some (.utf8 "a/Outer"), some (.classInfo 1), some (.utf8 "f"), some (.utf8 "La/Outer;"),
    some (.nameAndType 3 4), some (.fieldRef 2 5), some (.utf8 "access$000"), some (.utf8 "(La/Outer;)La/Outer;"),
    some (.utf8 "access$100"), some (.utf8 "(La/Outer;La/Outer;)V"), some (.utf8 "a/Base"), some (.classInfo 11),
    some (.utf8 "h"), some (.utf8 "()I"), some (.nameAndType 13 14), some (.methodRef 12 15), some (.utf8 "access$201"),
    some (.utf8 "(La/Outer;)I")]⟩
  methods := #[{ getter with accessor := some (.readField 6) }, { looseSetter with accessor := some (.writeField 6) },
    { superCall with accessor := some (.call 16 false) }]

def callingPool : Pool where
  entries := #[none, some (.utf8 "a/Outer$Inner"), some (.classInfo 1), some (.utf8 "a/Outer"), some (.classInfo 3),
    some (.utf8 "access$000"), some (.utf8 "(La/Outer;)La/Outer;"), some (.nameAndType 5 6), some (.methodRef 4 7),
    some (.utf8 "access$100"), some (.utf8 "(La/Outer;La/Outer;)V"), some (.nameAndType 9 10), some (.methodRef 4 11),
    some (.utf8 "access$201"), some (.utf8 "(La/Outer;)I"), some (.nameAndType 13 14), some (.methodRef 4 15)]

def exposing (pool : Pool) : ClassTable := ⟨#[exposingClass, { thisIndex := 2, pool }]⟩

/-- `access$100(access$000(local0), local1); return access$201(local0);` -/
def calling : Store :=
  ⟨#[⟨0, none, .read (.slot .reference 0)⟩, ⟨1, none, .call .static 8 none [0]⟩, ⟨4, none, .read (.slot .reference 1)⟩,
    ⟨5, none, .call .static 12 none [1, 2]⟩, ⟨8, none, .read (.slot .reference 0)⟩, ⟨9, none, .call .static 16 none [4]⟩,
    ⟨12, none, .ret (some 5)⟩]⟩

def callingGrown : Pool where
  entries := callingPool.entries ++ #[some (.utf8 "f"), some (.utf8 "La/Outer;"), some (.nameAndType 17 18),
    some (.fieldRef 4 19), some (.utf8 "a/Base"), some (.classInfo 21), some (.utf8 "h"), some (.utf8 "()I"),
    some (.nameAndType 23 24), some (.methodRef 22 25)]

def callingFolded : Store :=
  ((calling.replace 3 (.write (.field 20 1) 2)).replace 1 (.read (.field 20 0))).replace 5 (.call .virtual 26 (some 4) [])

theorem recover_calling :
    ∃ last, recover 1 0 ⟨calling, [3, 6]⟩ (exposing callingPool) = (.ok ⟨callingFolded, [3, 6]⟩, last) ∧
      last.poolOf 1 = callingGrown := by
  have returned : (recover 1 0 ⟨calling, [3, 6]⟩ (exposing callingPool)).1.toOption = some ⟨callingFolded, [3, 6]⟩ := by
    decide +kernel
  have grown : (recover 1 0 ⟨calling, [3, 6]⟩ (exposing callingPool)).2.poolOf 1 = callingGrown := by
    decide +kernel
  refine ⟨_, Prod.ext ?_ rfl, grown⟩
  generalize (recover 1 0 ⟨calling, [3, 6]⟩ (exposing callingPool)).1 = result at returned
  cases result with
  | error failure => cases returned
  | ok draft => exact congrArg Except.ok (Option.some.inj returned)

theorem calling_changes :
    ∃ last, Relation.ReflTransGen (Change 1) (exposing callingPool, calling) (last, callingFolded) ∧
      last.poolOf 1 = callingGrown := by
  obtain ⟨last, ran, grown⟩ := recover_calling
  exact ⟨last, recover_reduces_calls (by decide) ran, grown⟩

/-- The setter stores its second argument, and the superclass is no longer asked for its own method. -/
theorem recover_not_reduct :
    (∃ last, recover 1 0 ⟨calling, [3, 6]⟩ (exposing callingPool) = (.ok ⟨callingFolded, [3, 6]⟩, last)) ∧
    (∃ code, exposingClass.accessorOf? looseSetter = .ok (some (.writeField 6)) ∧ looseSetter.code = some code ∧
      Accessor.exposed? code.store code.instructions = some (.write (.field 6 0) 1) ∧
      calling.kind? 3 = some (.call .static 12 none [1, 2]) ∧ callingFolded.action? 3 = some (.write (.field 20 1) 2) ∧
      ¬ Accessor.IsReduct code.store ["La/Outer;", "La/Outer;"] [1, 2] 20 (.write (.field 6 0) 1)
        (.write (.field 20 1) 2)) ∧
    (∃ code, exposingClass.accessorOf? superCall = .ok (some (.call 16 false)) ∧ superCall.code = some code ∧
      Accessor.exposed? code.store code.instructions = some (.call .special 16 (some 0) []) ∧
      calling.kind? 5 = some (.call .static 16 none [4]) ∧ callingFolded.action? 5 = some (.call .virtual 26 (some 4) []) ∧
      ¬ Accessor.IsReduct code.store ["La/Outer;"] [4] 26 (.call .special 16 (some 0) [])
        (.call .virtual 26 (some 4) [])) := by
  obtain ⟨last, ran, _⟩ := recover_calling
  refine ⟨⟨last, ran⟩, ⟨_, rfl, rfl, rfl, rfl, rfl, fun reduct => ?_⟩, ⟨_, rfl, rfl, rfl, rfl, rfl, fun reduct => ?_⟩⟩
  · exact absurd reduct.same (by decide)
  · exact absurd reduct.same (by decide)

end OuterInstance

end ClassLift
