import ClassLift.Proofs.Idiom.Legible

namespace ClassLift

namespace ClassTable

structure NamedApart (table : ClassTable) : Prop where
  named : ∀ id file, table.get? id = some file → ∃ name, file.name = .ok name
  apart : ∀ name one other, table.hasName name one = true → table.hasName name other = true → one = other

variable {table after : ClassTable} {home id outer : ClassId} {name : String}

theorem hasName_iff : table.hasName name id = true ↔ ∃ file, table.get? id = some file ∧ file.name = .ok name := by
  unfold hasName ClassFile.hasName
  rw [Option.any_eq_true]
  refine exists_congr fun file => and_congr_right fun _ => ?_
  cases file.name <;> simp [Except.toOption]

theorem NamedApart.findByName? (apart : table.NamedApart) (named : table.hasName name id = true) :
    table.findByName? name = some id := by
  unfold ClassTable.findByName?
  obtain ⟨file, located, _⟩ := hasName_iff.mp named
  have inside : id ∈ List.range table.size := List.mem_range.mpr (Array.getElem?_eq_some_iff.mp located).1
  cases search : (List.range table.size).find? (table.hasName name) with
  | none => exact absurd named (List.find?_eq_none.mp search id inside)
  | some found => rw [apart.apart name found id (List.find?_some search) named]

theorem namedApart_of_names (names : List String) (all : table.classes.toList.map ClassFile.name = names.map .ok)
    (distinct : names.Nodup) : table.NamedApart := by
  have own (id : ClassId) (file : ClassFile) (located : table.get? id = some file) :
      ∃ name, names[id]? = some name ∧ file.name = .ok name := by
    have there : (table.classes.toList.map ClassFile.name)[id]? = some file.name := by
      rw [List.getElem?_map, Array.getElem?_toList, show table.classes[id]? = some file from located, Option.map_some]
    rw [all, List.getElem?_map, Option.map_eq_some_iff] at there
    obtain ⟨name, named, same⟩ := there
    exact ⟨name, named, same.symm⟩
  refine ⟨fun id file located => (own id file located).imp fun _ => And.right, fun name one other first second => ?_⟩
  obtain ⟨file, located, named⟩ := hasName_iff.mp first
  obtain ⟨another, relocated, renamed⟩ := hasName_iff.mp second
  obtain ⟨_, here, same⟩ := own one file located
  obtain ⟨_, there, sameToo⟩ := own other another relocated
  cases named.symm.trans same
  cases renamed.symm.trans sameToo
  exact (List.getElem?_inj (List.getElem?_eq_some_iff.mp here).1 distinct).mp (here.trans there.symm)

namespace Annotates

variable (annotates : table.Annotates home after)
include annotates

theorem hasName (named : table.hasName name id = true) : after.hasName name id = true := by
  obtain ⟨file, located, named⟩ := hasName_iff.mp named
  obtain ⟨other, relocated, same, _⟩ := annotates.left id file located
  have this : other.thisIndex = file.thisIndex := (congrArg ClassFile.thisIndex same.rest :)
  refine hasName_iff.mpr ⟨other, relocated, ?_⟩
  rw [ClassFile.name, this]
  exact same.pool.className named

theorem hasName_before (apart : table.NamedApart) (named : after.hasName name id = true) : table.hasName name id = true := by
  obtain ⟨file, located, named⟩ := hasName_iff.mp named
  have inside : id < table.classes.size := annotates.size ▸ (Array.getElem?_eq_some_iff.mp located).1
  have known : table.get? id = some table.classes[id] := Array.getElem?_eq_getElem inside
  obtain ⟨own, owned⟩ := apart.named id _ known
  have owned := hasName_iff.mpr ⟨_, known, owned⟩
  obtain ⟨other, relocated, renamed⟩ := hasName_iff.mp (annotates.hasName owned)
  cases located.symm.trans relocated
  cases named.symm.trans renamed
  exact owned

theorem namedApart (apart : table.NamedApart) : after.NamedApart := by
  refine ⟨fun id file located => ?_, fun name one other first second => ?_⟩
  · have inside : id < table.classes.size := annotates.size ▸ (Array.getElem?_eq_some_iff.mp located).1
    obtain ⟨name, named⟩ := apart.named id _ (Array.getElem?_eq_getElem inside)
    obtain ⟨other, relocated, renamed⟩ :=
      hasName_iff.mp (annotates.hasName (hasName_iff.mpr ⟨_, Array.getElem?_eq_getElem inside, named⟩))
    cases located.symm.trans relocated
    exact ⟨name, renamed⟩
  · exact apart.apart name one other (annotates.hasName_before apart first) (annotates.hasName_before apart second)

end Annotates

end ClassTable

namespace OuterInstance

/-! ## What a chain of reads denotes -/

/-- The reference names the field in which instances of the class `holder` keep the instance of `outer` that encloses them. -/
structure Encloses (table : ClassTable) (holder outer : ClassId) (reference : Member) : Prop where
  held : ∃ file outerField declared, table.get? holder = some file ∧ file.outerField = some outerField ∧
    file.outer = some outer ∧ file.fields[outerField.field]? = some declared ∧
    file.name = .ok reference.owner ∧ file.pool.utf8 declared.nameIndex = .ok reference.name
  enclosing : ∃ file, table.get? outer = some file

/-- The node is `this` behind that many reads of enclosing instances, and so an instance of the class that many levels out. -/
inductive Denotes (table : ClassTable) (home : ClassId) (pool : Pool) (store : Store) : Nat → NodeId → ClassId → Prop
  | this {id : NodeId} {type : ValueType} (found : store.kind? id = some (.read (.slot type 0))) :
      Denotes table home pool store 0 id home
  | outer {depth : Nat} {id object : NodeId} {field : PoolIndex} {holder outer : ClassId} {reference : Member}
      (inner : Denotes table home pool store depth object holder) (found : store.kind? id = some (.read (.field field object)))
      (resolved : pool.member field = .ok reference) (encloses : Encloses table holder outer reference) :
      Denotes table home pool store (depth + 1) id outer

def Turned (table : ClassTable) (pool : Pool) (store : Store) (id : NodeId) (outer : ClassId) : Prop :=
  ∃ type name, store.kind? id = some (.outerThis type) ∧ pool.className type = .ok name ∧ table.hasName name outer = true

variable {table middle last : ClassTable} {home holder outer : ClassId} {pool grown : Pool} {origin store changed result : Store}
  {id other object statement : NodeId} {depth : Nat} {kind : Kind} {name : String} {reference : Member}

theorem Encloses.annotates (annotates : table.Annotates home last) (encloses : Encloses table holder outer reference) :
    Encloses last holder outer reference := by
  obtain ⟨⟨file, outerField, declared, located, held, nested, field, owner, named⟩, enclosing, there⟩ := encloses
  obtain ⟨other, relocated, same, _⟩ := annotates.left holder file located
  obtain ⟨marked, refield, mark⟩ := same.fields.left _ declared field
  obtain ⟨around, still, _⟩ := annotates.left outer enclosing there
  have thisIndex : other.thisIndex = file.thisIndex := (congrArg ClassFile.thisIndex same.rest :)
  have nameIndex : marked.nameIndex = declared.nameIndex := (congrArg Field.nameIndex mark.rest :)
  refine ⟨⟨other, outerField, marked, relocated, (congrArg ClassFile.outerField same.rest :).trans held,
    (congrArg ClassFile.outer same.rest :).trans nested, refield, ?_, nameIndex ▸ same.pool.utf8 named⟩, around, still⟩
  rw [ClassFile.name, thisIndex]
  exact same.pool.className owner

namespace Denotes

theorem transfer (annotates : table.Annotates home last) (growth : pool.Extends grown)
    (same : ∀ id place, origin.kind? id = some (.read place) → store.kind? id = some (.read place))
    (denotes : Denotes table home pool origin depth id outer) : Denotes last home grown store depth id outer := by
  induction denotes with
  | this found => exact .this (same _ _ found)
  | outer _ found resolved encloses continues =>
    exact .outer continues (same _ _ found) (growth.member resolved) (encloses.annotates annotates)

theorem located (denotes : Denotes table home pool store depth id outer) :
    id < store.size ∧ ∃ place, store.kind? id = some (.read place) := by
  cases denotes with
  | this found => exact ⟨Store.lt_size_of_kind? found, _, found⟩
  | outer _ found => exact ⟨Store.lt_size_of_kind? found, _, found⟩

theorem depth_unique {more : Nat} {class_ : ClassId} (denotes : Denotes table home pool store depth id outer)
    (again : Denotes table home pool store more id class_) : depth = more := by
  induction denotes generalizing more class_ with
  | this found =>
    cases again with
    | this => rfl
    | outer _ foundToo => cases found.symm.trans foundToo
  | outer _ found _ _ continues =>
    cases again with
    | this foundToo => cases found.symm.trans foundToo
    | outer inner foundToo =>
      cases found.symm.trans foundToo
      rw [continues inner]

theorem reaches (denotes : Denotes table home pool store depth id outer) (way : store.Reaches id other) :
    ∃ less ≤ depth, ∃ class_, Denotes table home pool store less other class_ := by
  induction way with
  | refl => exact ⟨depth, Nat.le_refl _, outer, denotes⟩
  | tail _ step continues =>
    obtain ⟨less, shorter, class_, below⟩ := continues
    obtain ⟨kind, found, among⟩ := step
    cases below with
    | this foundToo =>
      cases found.symm.trans foundToo
      cases among
    | outer inner foundToo =>
      cases found.symm.trans foundToo
      cases List.mem_singleton.mp among
      exact ⟨_, Nat.le_of_succ_le shorter, _, inner⟩

theorem exists_below (denotes : Denotes table home pool store depth id outer) :
    ∃ below : Finset NodeId, below.card = depth ∧
      ∀ other ∈ below, ∃ less < depth, ∃ class_, Denotes table home pool store less other class_ := by
  induction denotes with
  | this => exact ⟨∅, rfl, by simp⟩
  | @outer depth id object _ holder _ _ inner _ _ _ continues =>
    obtain ⟨below, count, shorter⟩ := continues
    have new : object ∉ below := by
      intro among
      obtain ⟨less, lower, _, again⟩ := shorter object among
      exact Nat.ne_of_lt lower (again.depth_unique inner)
    refine ⟨insert object below, by rw [Finset.card_insert_of_notMem new, count], fun other among => ?_⟩
    rcases Finset.mem_insert.mp among with rfl | among
    · exact ⟨depth, Nat.lt_succ_self _, holder, inner⟩
    · obtain ⟨less, lower, again⟩ := shorter other among
      exact ⟨less, Nat.lt_succ_of_lt lower, again⟩

theorem sublist_postorder {root : NodeId} {roots : List NodeId} (denotes : Denotes table home pool store depth id outer)
    (member : root ∈ roots) (reached : store.Reaches root id) :
    (store.postorderWithin (depth + 1) id).Sublist (store.postorder roots) := by
  obtain ⟨below, count, shorter⟩ := denotes.exists_below
  rw [← count]
  refine Store.postorderWithin_sublist_postorder _ member reached denotes.located.1 (fun other among => ?_) fun other among way => ?_
  · obtain ⟨_, _, _, again⟩ := shorter other among
    exact again.located.1
  · obtain ⟨less, lower, _, again⟩ := shorter other among
    obtain ⟨least, bound, _, back⟩ := again.reaches way
    exact absurd (denotes.depth_unique back) (Nat.ne_of_gt (Nat.lt_of_le_of_lt bound lower))

end Denotes

/-! ## One visit -/

theorem outerName?_encloses {field : PoolIndex} (found : holder? table home pool kind = .ok (some holder))
    (resolved : pool.member field = .ok reference) (encloses : Encloses table holder outer reference)
    (named : table.hasName name outer = true) : outerName? table home pool field kind = .ok (some name) := by
  obtain ⟨⟨file, outerField, declared, located, held, nested, declares, owner, fieldName⟩, _⟩ := encloses
  obtain ⟨enclosing, there, named⟩ := ClassTable.hasName_iff.mp named
  simp [outerName?, bind, Except.bind, pure, Except.pure, found, located, held, nested, resolved, declares, fieldName, owner, there,
    named]

theorem Turned.holder? (apart : table.NamedApart) (found : store.kind? id = some kind)
    (turned : Turned table pool store id outer) : OuterInstance.holder? table home pool kind = .ok (some outer) := by
  obtain ⟨type, name, same, read, named⟩ := turned
  cases found.symm.trans same
  simp only [OuterInstance.holder?, read]
  exact congrArg Except.ok (apart.findByName? named)

theorem foldNode_named {field : PoolIndex} (found : store.kind? id = some (.read (.field field object)))
    (foundObject : store.kind? object = some kind)
    (named : outerName? table home (table.poolOf home) field kind = .ok (some name)) :
    foldNode home store id table =
      (do return store.replace id (.outerThis (← OnTable.interning home (Pool.internClass name))) : OnTable Store) table := by
  unfold foldNode
  simp only [found, foundObject]
  have named : outerName? table home ((table.get? home).elim {} ClassFile.pool) field kind = .ok (some name) := named
  change (liftM (outerName? table home ((table.get? home).elim {} ClassFile.pool) field kind) >>= _ : OnTable Store) table = _
  rw [named]
  rfl

theorem foldNode_spares (ran : foldNode home store id table = (.ok changed, last)) : Store.Spares [id] store changed := by
  rcases foldNode_ok ran with ⟨rfl, _⟩ | ⟨_, _, _, _, _, _, _, _, _, expands⟩ | ⟨_, _, _, _, _, _, _, _, _, rfl⟩
  · exact .refl _ _
  · exact expands.spares
  · exact .replace (Nat.le_refl _) (fun _ _ => rfl) id _

theorem foldNode_rests (found : store.kind? id = some kind)
    (rests : (∃ type slot, kind = .read (.slot type slot)) ∨ ∃ type, kind = .outerThis type)
    (ran : foldNode home store id table = (.ok changed, last)) : changed = store := by
  rcases foldNode_ok ran with ⟨same, _⟩ | ⟨_, _, _, _, _, call, ⟨_, _, rfl⟩, _⟩ | ⟨_, _, _, _, _, read, _⟩
  · exact same
  · cases found.symm.trans call
    rcases rests with ⟨_, _, shape⟩ | ⟨_, shape⟩ <;> cases shape
  · cases found.symm.trans read
    rcases rests with ⟨_, _, shape⟩ | ⟨_, shape⟩ <;> cases shape

namespace Turned

theorem annotates (annotates : table.Annotates home last) (turned : Turned table pool store id outer) :
    Turned last pool store id outer := by
  obtain ⟨type, name, found, read, named⟩ := turned
  exact ⟨type, name, found, read, annotates.hasName named⟩

theorem foldNode (turned : Turned table (middle.poolOf home) store other outer)
    (ran : OuterInstance.foldNode home store id middle = (.ok changed, last)) :
    Turned table (last.poolOf home) changed other outer := by
  obtain ⟨type, name, found, read, named⟩ := turned
  refine ⟨type, name, ?_, (((foldNode_annotates home store id).of_run ran).poolOf home).className read, named⟩
  by_cases here : other = id
  · subst here
    rwa [foldNode_rests found (.inr ⟨type, rfl⟩) ran]
  · rwa [(foldNode_spares ran).kind? other (Store.lt_size_of_kind? found) (by simpa using here)]

theorem walk {ids : List NodeId} (turned : Turned table (middle.poolOf home) store other outer)
    (ran : ids.foldlM (OuterInstance.foldNode home) store middle = (.ok result, last)) :
    Turned table (last.poolOf home) result other outer := by
  induction ids generalizing store middle with
  | nil =>
    obtain ⟨rfl, rfl⟩ := pure_ok.mp ran
    exact turned
  | cons id rest continues =>
    rw [List.foldlM_cons] at ran
    obtain ⟨next, between, stepped, ran⟩ := bind_ok.mp ran
    exact continues (turned.foldNode stepped) ran

end Turned

/-! ## Whole walks -/

/-- What holds throughout a walk over a body: `this` stays, and a read of an enclosing instance is as it was or has been replaced
by that instance. -/
structure Underway (home : ClassId) (table : ClassTable) (origin store : Store) (current : ClassTable) : Prop where
  annotates : table.Annotates home current
  slots : ∀ id type slot, origin.kind? id = some (.read (.slot type slot)) → store.kind? id = some (.read (.slot type slot))
  chains : ∀ depth id outer, Denotes table home (table.poolOf home) origin (depth + 1) id outer →
    store.kind? id = origin.kind? id ∨ Turned table (current.poolOf home) store id outer

theorem underway_self (home : ClassId) (table : ClassTable) (origin : Store) : Underway home table origin origin table :=
  ⟨.refl table, fun _ _ _ => id, fun _ _ _ _ => .inl rfl⟩

section Walks

variable (apart : table.NamedApart) (fits : (table.poolOf home).count ≤ Pool.limit)

namespace Underway

variable (underway : Underway home table origin store middle)
include underway apart

theorem holder? (denotes : Denotes table home (table.poolOf home) origin depth object holder)
    (found : store.kind? object = some kind) (ready : depth = 0 ∨ Turned table (middle.poolOf home) store object holder) :
    OuterInstance.holder? middle home (middle.poolOf home) kind = .ok (some holder) := by
  rcases ready with rfl | turned
  · cases denotes with
    | this foundToo =>
      cases found.symm.trans (underway.slots _ _ _ foundToo)
      rfl
  · exact (turned.annotates underway.annotates).holder? (underway.annotates.namedApart apart) found

theorem outerName? {field : PoolIndex} (denotes : Denotes table home (table.poolOf home) origin depth object holder)
    (resolved : (table.poolOf home).member field = .ok reference) (encloses : Encloses table holder outer reference)
    (found : store.kind? object = some kind) (ready : depth = 0 ∨ Turned table (middle.poolOf home) store object holder) :
    ∃ name, table.hasName name outer = true ∧
      OuterInstance.outerName? middle home (middle.poolOf home) field kind = .ok (some name) := by
  obtain ⟨file, there⟩ := encloses.enclosing
  obtain ⟨name, named⟩ := apart.named outer file there
  have named := ClassTable.hasName_iff.mpr ⟨file, there, named⟩
  exact ⟨name, named, outerName?_encloses (underway.holder? apart denotes found ready)
    ((underway.annotates.poolOf home).member resolved) (encloses.annotates underway.annotates)
    (underway.annotates.hasName named)⟩

include fits

theorem foldNode (ran : OuterInstance.foldNode home store id middle = (.ok changed, last)) :
    Underway home table origin changed last := by
  have spares := foldNode_spares ran
  have elsewhere (other : NodeId) (kind : Kind) (apart : other ≠ id) (found : store.kind? other = some kind) :
      changed.kind? other = some kind := by
    rwa [spares.kind? other (Store.lt_size_of_kind? found) (by simpa using apart)]
  refine ⟨underway.annotates.trans ((foldNode_annotates home store id).of_run ran), fun other type slot found => ?_,
    fun depth other outer denotes => ?_⟩
  · have before := underway.slots other type slot found
    by_cases here : other = id
    · subst here
      rwa [foldNode_rests before (.inl ⟨type, slot, rfl⟩) ran]
    · exact elsewhere other _ here before
  · rcases underway.chains depth other outer denotes with same | turned
    · cases denotes with
      | @outer _ _ object field holder _ reference inner found resolved encloses =>
        rw [found] at same ⊢
        by_cases here : other = id
        · subst here
          rcases foldNode_ok ran with ⟨rfl, _⟩ | ⟨_, _, _, _, _, call, ⟨_, _, rfl⟩, _⟩ |
            ⟨_, _, kind, name, type, foundToo, foundObject, looked, interned, rfl⟩
          · exact .inl same
          · cases same.symm.trans call
          · cases same.symm.trans foundToo
            have ready : depth = 0 ∨ Turned table (middle.poolOf home) store object holder := by
              cases depth with
              | zero => exact .inl rfl
              | succ depth =>
                refine (underway.chains depth object holder inner).elim (fun original => ?_) .inr
                -- A read below that is not replaced yet says nothing about its class.
                cases inner with
                | outer _ foundInner =>
                  cases foundObject.symm.trans (original.trans foundInner)
                  cases looked
            obtain ⟨outerName, named, lookedToo⟩ := underway.outerName? apart inner resolved encloses foundObject ready
            cases looked.symm.trans lookedToo
            have growth := underway.annotates.poolOf home
            exact .inr ⟨type, name, Store.kind?_replace_self (Store.lt_size_of_kind? same),
              className_interned (ClassTable.get?_of_member (growth.member resolved)) (growth.fits fits) interned, named⟩
        · exact .inl (elsewhere other _ here same)
    · exact .inr (turned.foldNode ran)

theorem walk {ids : List NodeId} (ran : ids.foldlM (OuterInstance.foldNode home) store middle = (.ok result, last)) :
    Underway home table origin result last :=
  foldlM_keeps (fun underway ran => foldNode apart fits underway ran) underway ran

theorem turns {field : PoolIndex} (found : origin.kind? id = some (.read (.field field object)))
    (denotes : Denotes table home (table.poolOf home) origin depth object holder)
    (resolved : (table.poolOf home).member field = .ok reference) (encloses : Encloses table holder outer reference)
    (ready : depth = 0 ∨ Turned table (middle.poolOf home) store object holder)
    (ran : OuterInstance.foldNode home store id middle = (.ok changed, last)) :
    Turned table (last.poolOf home) changed id outer := by
  have chain := denotes.outer found resolved encloses
  rcases underway.chains depth id outer chain with same | turned
  · have same := same.trans found
    obtain ⟨kind, foundObject⟩ : ∃ kind, store.kind? object = some kind := by
      rcases ready with rfl | ⟨type, _, turned, _⟩
      · cases denotes with
        | this foundThis => exact ⟨_, underway.slots _ _ _ foundThis⟩
      · exact ⟨_, turned⟩
    obtain ⟨name, named, looked⟩ := underway.outerName? apart denotes resolved encloses foundObject ready
    rw [foldNode_named same foundObject looked] at ran
    obtain ⟨type, interned, rfl⟩ := OnTable.map_ok ran
    have growth := underway.annotates.poolOf home
    exact ⟨type, name, Store.kind?_replace_self (Store.lt_size_of_kind? same),
      className_interned (ClassTable.get?_of_member (growth.member resolved)) (growth.fits fits) interned, named⟩
  · exact turned.foldNode ran

end Underway

include apart fits

theorem walk_turns {ids : List NodeId} (denotes : Denotes table home (table.poolOf home) origin depth id outer) (some : depth ≠ 0)
    (visited : (origin.postorderWithin (depth + 1) id).Sublist ids) (underway : Underway home table origin store middle)
    (ran : ids.foldlM (foldNode home) store middle = (.ok result, last)) : Turned table (last.poolOf home) result id outer := by
  induction denotes generalizing ids store middle result last with
  | this => exact absurd rfl some
  | @outer depth id object field holder outer reference inner found resolved encloses continues =>
    simp only [Store.postorderWithin, found, Kind.children, Kind.operands, Place.operands, Kind.bodies, List.flatten_nil,
      List.append_nil, List.flatMap_singleton] at visited
    obtain ⟨front, back, rfl, below, here⟩ := List.append_sublist_iff.mp visited
    obtain ⟨early, late, rfl⟩ := List.append_of_mem (List.singleton_sublist.mp here)
    rw [List.foldlM_append] at ran
    obtain ⟨first, tableFirst, ranFront, ran⟩ := bind_ok.mp ran
    rw [List.foldlM_append] at ran
    obtain ⟨second, tableSecond, ranEarly, ran⟩ := bind_ok.mp ran
    rw [List.foldlM_cons] at ran
    obtain ⟨third, tableThird, stepped, ranLate⟩ := bind_ok.mp ran
    have afterFront := underway.walk apart fits ranFront
    have afterEarly := afterFront.walk apart fits ranEarly
    have ready : depth = 0 ∨ Turned table (tableSecond.poolOf home) second object holder := by
      refine Classical.or_iff_not_imp_left.mpr fun deeper => ?_
      exact (continues deeper below underway ranFront).walk ranEarly
    exact (afterEarly.turns apart fits found inner resolved encloses ready stepped).walk ranLate

end Walks

/-! ## Before the walk -/

def Bare (store : Store) : Prop :=
  ∀ id method object arguments, store.kind? id = some (.call .static method object arguments) → object = none

structure Prepared (home : ClassId) (table : ClassTable) (origin store : Store) (current : ClassTable) : Prop where
  annotates : table.Annotates home current
  bare : Bare store
  reads : ∀ id place, origin.kind? id = some (.read place) → store.kind? id = some (.read place)
  reaches : ∀ root id place, origin.kind? id = some (.read place) → origin.Reaches root id → store.Reaches root id

theorem Prepared.start (home : ClassId) (table : ClassTable) (bare : Bare store) : Prepared home table store store table :=
  ⟨.refl table, bare, fun _ _ => id, fun _ _ _ _ => id⟩

section Setters

variable {member : PoolIndex} {accessor : Accessor} {arguments : List NodeId}

theorem Expands.bare (bare : Bare store) (expands : Expands store id member accessor arguments changed) : Bare changed := by
  intro other method object given found
  rcases expands.introduced found with before | ⟨introduced, _⟩
  · exact bare other method object given before
  · cases introduced
    rfl

theorem Expands.reaches_argument (inside : id < store.size) (expands : Expands store id member accessor arguments changed)
    (given : object ∈ arguments) : changed.Reaches id object := by
  have direct {base : Store} {made : Kind} {child : NodeId} (grown : id < base.size) (among : child ∈ made.children) :
      (base.replace id made).Reaches id child :=
    (Store.Reaches.refl id).tail (Store.kind?_replace_self grown) among
  have old {made : Kind} : id < (store.allocate id made).2.size := Nat.lt_of_lt_of_le inside Store.size_le_allocate
  cases expands with
  | readStatic => cases given
  | readField => exact direct inside given
  | assignStatic => exact direct old (.tail _ given)
  | @assignField _ receiver value =>
    -- The receiver is below the target of the assignment, which was added.
    rcases List.mem_cons.mp given with rfl | given
    · have target : ((store.allocate id (.read (.field member object))).2.replace id (.assign .plain store.size value)).kind?
          store.size = some (.read (.field member object)) := by
        rw [Store.kind?_replace_of_ne (Nat.ne_of_gt inside)]
        exact Store.kind?_allocate_self inside
      exact Store.Reaches.tail (direct old List.mem_cons_self) target List.mem_cons_self
    · exact direct old (.tail _ given)
  | callStatic => exact direct inside (by simpa [Kind.children, Kind.operands, Kind.bodies] using given)
  | callVirtual => exact direct inside (by simpa [Kind.children, Kind.operands, Kind.bodies] using given)
  | writeStatic => exact direct inside given
  | writeField => exact direct inside given

theorem Expands.reaches_read {call : NodeId} {reference : PoolIndex} {place : Place} {root : NodeId} (bare : Bare store)
    (dropped : droppedCall? store statement = some call)
    (called : store.kind? call = some (.call .static reference none arguments))
    (expands : Expands store statement member accessor arguments changed) (found : store.kind? id = some (.read place))
    (reached : store.Reaches root id) : changed.Reaches root id := by
  have site := site_of_droppedCall? dropped
  have inside : statement < store.size := by
    rcases site with rfl | discards
    · exact Store.lt_size_of_kind? called
    · exact Store.lt_size_of_kind? discards
  -- A dropped call is skipped on the way from its statement, so a call is followed to the argument that leads on.
  suffices changed.Reaches root id ∧ ∀ method object given, store.kind? root = some (.call .static method object given) →
      ∃ argument ∈ given, changed.Reaches argument id from this.1
  induction reached using Relation.ReflTransGen.head_induction_on with
  | refl =>
    refine ⟨.refl id, fun method object given foundToo => ?_⟩
    cases found.symm.trans foundToo
  | @head root child step _ continues =>
    obtain ⟨kind, here, among⟩ := step
    have argument (method : PoolIndex) (object : Option NodeId) (given : List NodeId)
        (calls : store.kind? root = some (.call .static method object given)) : ∃ argument ∈ given, changed.Reaches argument id := by
      cases bare root method object given calls
      cases here.symm.trans calls
      exact ⟨child, by simpa [Kind.children, Kind.operands, Kind.bodies] using among, continues.1⟩
    refine ⟨?_, argument⟩
    by_cases replaced : root = statement
    · subst replaced
      have below : ∃ argument ∈ arguments, changed.Reaches argument id := by
        rcases site with rfl | discards
        · exact argument reference none arguments called
        · cases here.symm.trans discards
          cases List.mem_singleton.mp among
          exact continues.2 reference none arguments called
      obtain ⟨argument, given, leads⟩ := below
      exact (expands.reaches_argument inside given).trans leads
    · refine Relation.ReflTransGen.head ⟨kind, ?_, among⟩ continues.1
      rw [expands.spares.kind? root (Store.lt_size_of_kind? here) (by simpa using replaced), here]

theorem Prepared.inlineSetter (prepared : Prepared home table origin store middle)
    (ran : OuterInstance.inlineSetter home store statement middle = (.ok changed, last)) :
    Prepared home table origin changed last := by
  rcases inlineSetter_ok ran with ⟨rfl, rfl⟩ |
    ⟨call, _, arguments, accessor, owner, member, dropped, found, ⟨reference, object, rfl⟩, _, imported, expands⟩
  · exact prepared
  · cases prepared.bare call reference object arguments found
    refine ⟨prepared.annotates.trans ((importMember_annotates home owner accessor).of_run imported), expands.bare prepared.bare,
      fun id place reads => ?_, fun root id place reads reached => ?_⟩
    · have before := prepared.reads id place reads
      have apart : id ≠ statement := by
        rintro rfl
        rcases site_of_droppedCall? dropped with rfl | discards
        · cases found.symm.trans before
        · cases discards.symm.trans before
      rw [expands.spares.kind? id (Store.lt_size_of_kind? before) (by simpa using apart), before]
    · exact expands.reaches_read prepared.bare dropped found (prepared.reads id place reads)
        (prepared.reaches root id place reads reached)

theorem Prepared.walk {statements : List NodeId} (prepared : Prepared home table origin store middle)
    (ran : statements.foldlM (OuterInstance.inlineSetter home) store middle = (.ok result, last)) :
    Prepared home table origin result last :=
  foldlM_keeps (fun prepared ran => Prepared.inlineSetter prepared ran) prepared ran

theorem not_isOuterStore {root : NodeId} {field recorded : PoolIndex} (reached : store.Reaches root id)
    (found : store.kind? id = some (.read (.field field object))) : ¬ isOuterStore store recorded root = true := by
  intro stores
  unfold isOuterStore at stores
  split at stores
  · rename_i target receiver value writes
    simp only [Bool.and_eq_true, beq_iff_eq] at stores
    have slot (child : NodeId) (among : child ∈ (Kind.write (.field target receiver) value).children) :
        ∃ slot type, store.kind? child = some (.read (.slot type slot)) := by
      rcases List.mem_cons.mp among with rfl | among
      · exact ⟨_, Store.kind?_of_isSlot stores.1.2⟩
      · cases List.mem_singleton.mp among
        exact ⟨_, Store.kind?_of_isSlot stores.2⟩
    rcases Relation.ReflTransGen.cases_head reached with rfl | ⟨child, ⟨kind, here, among⟩, way⟩
    · cases writes.symm.trans found
    · cases writes.symm.trans here
      obtain ⟨_, _, reads⟩ := slot child among
      rcases Relation.ReflTransGen.cases_head way with rfl | ⟨_, ⟨kind, here, among⟩, _⟩
      · cases reads.symm.trans found
      · cases reads.symm.trans here
        cases among
  · cases stores

theorem mem_dropOuterStore {file : ClassFile} {method : Nat} {draft : Draft} {root : NodeId} {field : PoolIndex}
    (member : root ∈ draft.statements) (reached : draft.store.Reaches root id)
    (found : draft.store.kind? id = some (.read (.field field object))) :
    root ∈ (dropOuterStore file method draft).statements := by
  unfold dropOuterStore
  split
  · split
    · exact (List.mem_eraseP_of_neg (not_isOuterStore reached found)).mpr member
    · exact member
  · exact member

end Setters

/-- A chain of reads becomes the enclosing instance of the class that many levels out. The pass fails only if there is no room for
a constant, where everything that it follows can be read. -/
theorem recover_turns_chains (table : ClassTable) (home : ClassId) (method : Nat) (draft : Draft) (apart : table.NamedApart)
    (fits : (table.poolOf home).count ≤ Pool.limit) (bare : Bare draft.store) (root id : NodeId) (depth : Nat) (outer : ClassId)
    (member : root ∈ draft.statements) (reached : draft.store.Reaches root id)
    (denotes : Denotes table home (table.poolOf home) draft.store (depth + 1) id outer) :
    (∃ result last, recover home method draft table = (.ok result, last) ∧
        Turned table (last.poolOf home) result.store id outer) ∨
      ∃ failure last, recover home method draft table = (.error failure, last) ∧
        (table.Legible → draft.Legible (table.poolOf home) → failure = .method (.pool .overflow)) := by
  cases outcome : recover home method draft table with
  | mk result last =>
    cases result with
    | error failure => exact .inr ⟨failure, last, rfl, fun legible nodes => recover_overflow (.start legible fits nodes) outcome⟩
    | ok result =>
      refine .inl ⟨result, last, rfl, ?_⟩
      unfold recover at outcome
      rw [OnTable.get_bind_ok] at outcome
      obtain ⟨field, object, found⟩ : ∃ field object, draft.store.kind? id = some (.read (.field field object)) := by
        cases denotes with
        | outer _ found => exact ⟨_, _, found⟩
      have dropped : ((table.get? home).elim draft fun file => dropOuterStore file method draft).store = draft.store ∧
          root ∈ ((table.get? home).elim draft fun file => dropOuterStore file method draft).statements := by
        cases table.get? home with
        | none => exact ⟨rfl, member⟩
        | some file => exact ⟨dropOuterStore_store file method draft, mem_dropOuterStore member reached found⟩
      generalize (table.get? home).elim draft _ = rest at outcome dropped
      obtain ⟨same, member⟩ := dropped
      obtain ⟨store, middle, setters, outcome⟩ := bind_ok.mp outcome
      obtain ⟨final, nodes, rfl⟩ := OnTable.map_ok outcome
      rw [same] at setters
      have prepared := (Prepared.start home table bare).walk setters
      have growth := prepared.annotates.poolOf home
      have denotes := denotes.transfer prepared.annotates growth prepared.reads
      have visited := denotes.sublist_postorder member (prepared.reaches root id _ found reached)
      obtain ⟨type, name, turned, read, named⟩ := walk_turns (prepared.annotates.namedApart apart) (growth.fits fits) denotes
        (Nat.succ_ne_zero depth) visited (underway_self home middle store) nodes
      exact ⟨type, name, turned, read, prepared.annotates.hasName_before apart named⟩

/-! `a/A$B$C` is nested in `a/A$B`, and that in `a/A`. -/

def nestedPool : Pool where
  entries := #[none, some (.utf8 "a/A$B$C"), some (.classInfo 1), some (.utf8 "this$1"), some (.utf8 "La/A$B;"),
    some (.nameAndType 3 4), some (.fieldRef 2 5), some (.utf8 "a/A$B"), some (.classInfo 7), some (.utf8 "this$0"),
    some (.utf8 "La/A;"), some (.nameAndType 9 10), some (.fieldRef 8 11)]

def nestedTable : ClassTable :=
  ⟨#[{ thisIndex := 2, pool := ⟨#[none, some (.utf8 "a/A"), some (.classInfo 1)]⟩, inner := [1] },
    { thisIndex := 2
      pool := ⟨#[none, some (.utf8 "a/A$B"), some (.classInfo 1), some (.utf8 "this$0"), some (.utf8 "La/A;"),
        some (.nameAndType 3 4), some (.fieldRef 2 5)]⟩
      fields := #[{ nameIndex := 3, descriptorIndex := 4 }]
      outer := some 0
      inner := [2]
      outerField := some ⟨6, 0⟩ },
    { thisIndex := 2
      pool := nestedPool
      fields := #[{ nameIndex := 3, descriptorIndex := 4 }]
      outer := some 1
      outerField := some ⟨6, 0⟩ }]⟩

theorem nestedTable_namedApart : nestedTable.NamedApart :=
  ClassTable.namedApart_of_names ["a/A", "a/A$B", "a/A$B$C"] rfl (by decide)

theorem encloses_middle : Encloses nestedTable 2 1 ⟨"a/A$B$C", "this$1", "La/A$B;", 3, 4⟩ :=
  ⟨⟨_, _, _, rfl, rfl, rfl, rfl, rfl, rfl⟩, _, rfl⟩

theorem encloses_outermost : Encloses nestedTable 1 0 ⟨"a/A$B", "this$0", "La/A;", 9, 10⟩ :=
  ⟨⟨_, _, _, rfl, rfl, rfl, rfl, rfl, rfl⟩, _, rfl⟩

/-- `return this.this$1.this$0;` behind a statement that drops a field of `this`. -/
def outermostRead (field : PoolIndex) : Draft where
  store := ⟨#[⟨0, none, .read (.slot .reference 0)⟩, ⟨1, none, .read (.field field 0)⟩, ⟨4, none, .discard 1⟩,
    ⟨5, none, .read (.slot .reference 0)⟩, ⟨6, none, .read (.field 6 3)⟩, ⟨9, none, .read (.field 12 4)⟩, ⟨12, none, .ret (some 5)⟩]⟩
  statements := [2, 6]

theorem outermostRead_bare (field : PoolIndex) : Bare (outermostRead field).store := by
  rintro (_ | _ | _ | _ | _ | _ | _ | _) method object arguments found <;> cases found

theorem outermostRead_reaches (field : PoolIndex) : (outermostRead field).store.Reaches 6 5 :=
  Store.Reaches.tail (.refl 6) rfl List.mem_cons_self

theorem outermostRead_denotes (field : PoolIndex) :
    Denotes nestedTable 2 (nestedTable.poolOf 2) (outermostRead field).store 2 5 0 :=
  .outer (.outer (.this rfl) rfl rfl encloses_middle) rfl rfl encloses_outermost

theorem recover_turns_outermost :
    ∃ result last, recover 2 0 (outermostRead 6) nestedTable = (.ok result, last) ∧
      Turned nestedTable (last.poolOf 2) result.store 5 0 := by
  rcases recover_turns_chains nestedTable 2 0 (outermostRead 6) nestedTable_namedApart (by decide) (outermostRead_bare 6) 6 5 1 0
    (by decide) (outermostRead_reaches 6) (outermostRead_denotes 6) with turned | ⟨failure, last, failed, _⟩
  · exact turned
  · have returned : (recover 2 0 (outermostRead 6) nestedTable).1.toBool = true := by decide +kernel
    rw [failed] at returned
    cases returned

/-- Another read of a field, with a reference to nothing, keeps the chain from being turned. -/
theorem recover_not_turns_beside_unreadable :
    nestedTable.NamedApart ∧ (nestedTable.poolOf 2).count ≤ Pool.limit ∧ Bare (outermostRead 999).store ∧
      6 ∈ (outermostRead 999).statements ∧ (outermostRead 999).store.Reaches 6 5 ∧
      Denotes nestedTable 2 (nestedTable.poolOf 2) (outermostRead 999).store 2 5 0 ∧
      ∃ last, recover 2 0 (outermostRead 999) nestedTable = (.error (.method (.pool (.outOfBounds 999))), last) :=
  ⟨nestedTable_namedApart, by decide, outermostRead_bare 999, by decide, outermostRead_reaches 999, outermostRead_denotes 999, _,
    rfl⟩

end OuterInstance

end ClassLift
