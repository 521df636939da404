import ClassLift.Proofs.Idiom.Reduction
import ClassLift.Proofs.Idiom.Visit

namespace ClassLift

def Kind.Legible (pool : Pool) : Kind → Prop
  | .call .static method _ _ => ∃ called, pool.member method = .ok called
  | .read (.field field _) => ∃ reference, pool.member field = .ok reference
  | .outerThis type => ∃ name, pool.className type = .ok name
  | _ => True

theorem Kind.Legible.extend {pool grown : Pool} {kind : Kind} (growth : pool.Extends grown) (legible : kind.Legible pool) :
    kind.Legible grown := by
  unfold Kind.Legible at legible ⊢
  split
  · exact legible.imp fun _ => growth.member
  · exact legible.imp fun _ => growth.member
  · exact legible.imp fun _ => growth.className
  · trivial

/-- The names of classes and of the fields that hold enclosing instances can be read, and so can what accessors expose. -/
structure ClassTable.Legible (table : ClassTable) : Prop where
  named : ∀ id file, table.get? id = some file → ∃ name, file.name = .ok name
  held : ∀ id file outerField declared, table.get? id = some file → file.outerField = some outerField →
    file.fields[outerField.field]? = some declared → ∃ name, file.pool.utf8 declared.nameIndex = .ok name
  exposed : ∀ id file (index : Nat) (method : Method) (accessor : Accessor), table.get? id = some file →
    file.methods[index]? = some method → method.accessor = some accessor → ∃ member, file.pool.member accessor.member = .ok member

theorem ClassTable.Legible.annotates {table after : ClassTable} {home : ClassId} (legible : table.Legible)
    (annotates : table.Annotates home after) : after.Legible := by
  have before (id : ClassId) (file : ClassFile) (located : after.get? id = some file) :
      ∃ old, table.get? id = some old ∧ old.Annotates file := by
    have inside : id < table.classes.size := annotates.size ▸ (Array.getElem?_eq_some_iff.mp located).1
    have known : table.get? id = some table.classes[id] := Array.getElem?_eq_getElem inside
    obtain ⟨other, relocated, same, _⟩ := annotates.left id _ known
    cases located.symm.trans relocated
    exact ⟨_, known, same⟩
  refine ⟨fun id file located => ?_, fun id file outerField declared located holds field => ?_,
    fun id file index method accessor located declared recorded => ?_⟩
  · obtain ⟨old, known, same⟩ := before id file located
    have this : file.thisIndex = old.thisIndex := (congrArg ClassFile.thisIndex same.rest :)
    rw [ClassFile.name, this]
    exact (legible.named id old known).imp fun _ => same.pool.className
  · obtain ⟨old, known, same⟩ := before id file located
    have outer : file.outerField = old.outerField := (congrArg ClassFile.outerField same.rest :)
    obtain ⟨unmarked, there, mark⟩ := same.fields.right field
    have name : declared.nameIndex = unmarked.nameIndex := (congrArg Field.nameIndex mark.rest :)
    rw [name]
    exact (legible.held id old outerField unmarked known (outer ▸ holds) there).imp fun _ => same.pool.utf8
  · obtain ⟨old, known, same⟩ := before id file located
    obtain ⟨unmarked, there, mark⟩ := same.methods.right declared
    have exposes : method.accessor = unmarked.accessor := (congrArg Method.accessor mark.rest :)
    exact (legible.exposed id old index unmarked accessor known there (exposes ▸ recorded)).imp fun _ => same.pool.member

def Draft.Legible (draft : Draft) (pool : Pool) : Prop :=
  ∀ root ∈ draft.statements, ∀ id kind, draft.store.Reaches root id → draft.store.kind? id = some kind → kind.Legible pool

namespace OuterInstance

variable {table middle last : ClassTable} {home owner : ClassId} {pool : Pool} {store changed result : Store} {draft : Draft}
  {id other statement : NodeId} {kind : Kind} {member : PoolIndex} {accessor : Accessor} {arguments : List NodeId}
  {failure : Failure}

/-! ## What is put in place of a call -/

inductive Introduced (member : PoolIndex) (arguments : List NodeId) : Kind → Prop
  | readStatic : Introduced member arguments (.read (.static member))
  | readField {object : NodeId} (given : object ∈ arguments) : Introduced member arguments (.read (.field member object))
  | callStatic : Introduced member arguments (.call .static member none arguments)
  | callVirtual {object : NodeId} {rest : List NodeId} (given : arguments = object :: rest) :
      Introduced member arguments (.call .virtual member (some object) rest)
  | writeStatic {value : NodeId} (given : value ∈ arguments) : Introduced member arguments (.write (.static member) value)
  | writeField {object value : NodeId} (given : arguments = [object, value]) :
      Introduced member arguments (.write (.field member object) value)
  | assign {target value : NodeId} (given : value ∈ arguments) : Introduced member arguments (.assign .plain target value)

/-- The kind is put in place of a call and names no new node but the one that is added. -/
def Stands (store : Store) (member : PoolIndex) (arguments : List NodeId) (kind : Kind) : Prop :=
  Introduced member arguments kind ∧ ∀ child ∈ kind.children, child ∈ arguments ∨ child = store.size

theorem stands_readStatic : Stands store member arguments (.read (.static member)) :=
  ⟨.readStatic, fun _ among => absurd among List.not_mem_nil⟩

theorem Expands.introduced (expands : Expands store id member accessor arguments changed)
    (found : changed.kind? other = some kind) : store.kind? other = some kind ∨ Stands store member arguments kind := by
  have inPlace {base : Store} {made : Kind}
      (old : ∀ kind, base.kind? other = some kind → store.kind? other = some kind ∨ Stands store member arguments kind)
      (new : Stands store member arguments made) (found : (base.replace id made).kind? other = some kind) :
      store.kind? other = some kind ∨ Stands store member arguments kind := by
    by_cases here : other = id
    · subst here
      rw [Store.kind?_replace_self (by simpa using Store.lt_size_of_kind? found)] at found
      cases found
      exact .inr new
    · rw [Store.kind?_replace_of_ne here] at found
      exact old kind found
  have allocated {made : Kind} (new : Stands store member arguments made) (kind : Kind)
      (found : (store.allocate id made).2.kind? other = some kind) :
      store.kind? other = some kind ∨ Stands store member arguments kind := by
    by_cases old : other < store.size
    · rw [Store.kind?, Store.node?_allocate_of_lt old] at found
      exact .inl found
    · rw [Store.kind?_allocate_of_le (Nat.not_lt.mp old) found]
      exact .inr new
  cases expands with
  | readStatic => exact inPlace (fun _ => .inl) stands_readStatic found
  | readField => exact inPlace (fun _ => .inl) ⟨.readField List.mem_cons_self, fun _ => .inl⟩ found
  | assignStatic =>
    refine inPlace (allocated stands_readStatic) ⟨.assign List.mem_cons_self, fun child among => ?_⟩ found
    rcases List.mem_cons.mp among with rfl | among
    · exact .inr rfl
    · exact .inl among
  | assignField =>
    refine inPlace (allocated ⟨.readField List.mem_cons_self, fun child among => ?_⟩)
      ⟨.assign (.tail _ List.mem_cons_self), fun child among => ?_⟩ found
    · cases List.mem_singleton.mp among
      exact .inl List.mem_cons_self
    · rcases List.mem_cons.mp among with rfl | among
      · exact .inr rfl
      · exact .inl (.tail _ among)
  | callStatic =>
    refine inPlace (fun _ => .inl) ⟨.callStatic, fun child among => .inl ?_⟩ found
    simpa [Kind.children, Kind.operands, Kind.bodies] using among
  | callVirtual =>
    refine inPlace (fun _ => .inl) ⟨.callVirtual rfl, fun child among => .inl ?_⟩ found
    simpa [Kind.children, Kind.operands, Kind.bodies] using among
  | writeStatic => exact inPlace (fun _ => .inl) ⟨.writeStatic List.mem_cons_self, fun _ => .inl⟩ found
  | writeField => exact inPlace (fun _ => .inl) ⟨.writeField rfl, fun _ => .inl⟩ found

theorem Introduced.legible (introduced : Introduced member arguments kind) (resolved : ∃ found, pool.member member = .ok found) :
    kind.Legible pool := by
  cases introduced with
  | readField => exact resolved
  | callStatic => exact resolved
  | readStatic => trivial
  | callVirtual => trivial
  | writeStatic => trivial
  | writeField => trivial
  | assign => trivial

theorem Expands.spares (expands : Expands store id member accessor arguments changed) : Store.Spares [id] store changed := by
  have inPlace (kind : Kind) : Store.Spares [id] store (store.replace id kind) := .replace (Nat.le_refl _) (fun _ _ => rfl) id kind
  cases expands with
  | readStatic => exact inPlace _
  | readField => exact inPlace _
  | assignStatic => exact .replace Store.size_le_allocate (fun _ => Store.node?_allocate_of_lt) id _
  | assignField => exact .replace Store.size_le_allocate (fun _ => Store.node?_allocate_of_lt) id _
  | callStatic => exact inPlace _
  | callVirtual => exact inPlace _
  | writeStatic => exact inPlace _
  | writeField => exact inPlace _

theorem importMember_annotates (home owner : ClassId) (accessor : Accessor) :
    Preserves (ClassTable.Annotates home) (importMember home owner accessor) := by
  cases accessor with
  | call method => exact importMethod_annotates home owner method
  | readStatic field => exact importField_annotates home owner field
  | readField field => exact importField_annotates home owner field
  | writeStatic field => exact importField_annotates home owner field
  | writeField field => exact importField_annotates home owner field

theorem className_interned {name : String} {type : PoolIndex} (known : ∃ file, table.get? home = some file)
    (fits : (table.poolOf home).count ≤ Pool.limit)
    (interned : OnTable.interning home (Pool.internClass name) table = (.ok type, last)) :
    (last.poolOf home).className type = .ok name := by
  obtain ⟨file, known⟩ := known
  have growth := ((OnTable.interning_annotates home (Pool.internClass_extends name)).of_run interned).poolOf home
  exact Pool.className_internClass (interning_ok known interned) (growth.fits fits)

/-! ## What can go wrong in a step -/

def Unreadable (table : ClassTable) (home : ClassId) (kind : Kind) : Prop :=
  (∃ error, accessor? table (table.poolOf home) kind = .error error) ∨
    ∃ accessor owner error, accessor? table (table.poolOf home) kind = .ok (some (accessor, owner)) ∧
      foreignMember? table home owner accessor.member = .error error

theorem importField_error {index : PoolIndex} (ran : importField home owner index table = (.error failure, last)) :
    (∃ error, foreignMember? table home owner index = .error error) ∨ failure = .method (.pool .overflow) := by
  unfold importField at ran
  rw [OnTable.get_bind_error] at ran
  rcases OnTable.read_bind_error ran with failed | ⟨_ | found, _, ran⟩
  · exact .inl failed
  · cases ran
  · exact .inr (OnTable.interning_error (.field found.owner found.name found.descriptor) ran)

theorem importMethod_error {index : PoolIndex} (ran : importMethod home owner index table = (.error failure, last)) :
    (∃ error, foreignMember? table home owner index = .error error) ∨ failure = .method (.pool .overflow) := by
  unfold importMethod at ran
  rw [OnTable.get_bind_error] at ran
  rcases OnTable.read_bind_error ran with failed | ⟨_ | found, _, ran⟩
  · exact .inl failed
  · cases ran
  · exact .inr (OnTable.interning_error (.method found.owner found.name found.descriptor) ran)

theorem importMember_error (ran : importMember home owner accessor table = (.error failure, last)) :
    (∃ error, foreignMember? table home owner accessor.member = .error error) ∨ failure = .method (.pool .overflow) := by
  cases accessor with
  | call => exact importMethod_error ran
  | readStatic => exact importField_error ran
  | readField => exact importField_error ran
  | writeStatic => exact importField_error ran
  | writeField => exact importField_error ran

theorem inlineCall_error (ran : inlineCall home owner store id arguments accessor table = (.error failure, last)) :
    importMember home owner accessor table = (.error failure, last) := by
  cases accessor with
  | readStatic field =>
    simp only [inlineCall] at ran
    split at ran
    · cases ran
    · exact OnTable.map_error ran
  | readField field =>
    simp only [inlineCall] at ran
    split at ran
    · exact OnTable.map_error ran
    · cases ran
  | writeStatic field =>
    simp only [inlineCall] at ran
    split at ran
    · exact OnTable.map_error ran
    · cases ran
  | writeField field =>
    simp only [inlineCall] at ran
    split at ran
    · exact OnTable.map_error ran
    · cases ran
  | call method isStatic =>
    cases isStatic with
    | true => exact OnTable.map_error ran
    | false =>
      simp only [inlineCall] at ran
      split at ran
      · exact OnTable.map_error ran
      · cases ran

theorem inlineSetter_error (ran : inlineSetter home store statement table = (.error failure, last)) :
    failure = .method (.pool .overflow) ∨
      ∃ call kind, droppedCall? store statement = some call ∧ store.kind? call = some kind ∧ Unreadable table home kind := by
  unfold inlineSetter at ran
  cases dropped : droppedCall? store statement with
  | none =>
    rw [dropped] at ran
    cases ran
  | some call =>
    cases found : store.kind? call with
    | none =>
      simp only [dropped, found] at ran
      cases ran
    | some kind =>
      simp only [dropped, found, OnTable.get_bind_error, OnTable.pool_bind_error] at ran
      rcases OnTable.read_bind_error ran with failed | ⟨exposed, looked, ran⟩
      · exact .inr ⟨call, kind, rfl, found, .inl failed⟩
      · cases exposed with
        | none => cases ran
        | some pair =>
          obtain ⟨accessor, owner⟩ := pair
          have imports : importMember home owner accessor table = (.error failure, last) := by
            simp only at ran
            split at ran
            · exact OnTable.map_error ran
            · exact OnTable.map_error ran
            · cases ran
          rcases importMember_error imports with ⟨error, foreign⟩ | overflow
          · exact .inr ⟨call, kind, rfl, found, .inr ⟨accessor, owner, error, looked, foreign⟩⟩
          · exact .inl overflow

theorem foldNode_error (ran : foldNode home store id table = (.error failure, last)) :
    failure = .method (.pool .overflow) ∨ (∃ kind, store.kind? id = some kind ∧ Unreadable table home kind) ∨
      ∃ field object kind error, store.kind? id = some (.read (.field field object)) ∧ store.kind? object = some kind ∧
        outerName? table home (table.poolOf home) field kind = .error error := by
  unfold foldNode at ran
  generalize store.kind? id = shape at ran ⊢
  split at ran
  case h_1 _ method object arguments =>
    simp only [OnTable.get_bind_error, OnTable.pool_bind_error] at ran
    rcases OnTable.read_bind_error ran with failed | ⟨exposed, looked, ran⟩
    · exact .inr (.inl ⟨_, rfl, .inl failed⟩)
    · cases exposed with
      | none => cases ran
      | some pair =>
        obtain ⟨accessor, owner⟩ := pair
        rcases importMember_error (inlineCall_error ran) with ⟨error, foreign⟩ | overflow
        · exact .inr (.inl ⟨_, rfl, .inr ⟨accessor, owner, error, looked, foreign⟩⟩)
        · exact .inl overflow
  case h_2 _ field object =>
    cases foundObject : store.kind? object with
    | none =>
      simp only [foundObject] at ran
      cases ran
    | some kind =>
      simp only [foundObject, OnTable.get_bind_error, OnTable.pool_bind_error] at ran
      rcases OnTable.read_bind_error ran with ⟨error, failed⟩ | ⟨named, looked, ran⟩
      · exact .inr (.inr ⟨field, object, kind, error, rfl, foundObject, failed⟩)
      · cases named with
        | none => cases ran
        | some name => exact .inl (OnTable.interning_error (.classInfo name) (OnTable.map_error ran))
  case h_3 => cases ran

/-! ## Where everything can be read -/

theorem not_unreadable (legible : table.Legible) (node : kind.Legible (table.poolOf home)) : ¬ Unreadable table home kind := by
  rintro (⟨error, looked⟩ | ⟨accessor, owner, error, looked, foreign⟩)
  · unfold accessor? at looked
    split at looked
    · obtain ⟨called, resolved⟩ := node
      rw [resolved] at looked
      simp only [bind, Except.bind, pure, Except.pure] at looked
      repeat' split at looked
      all_goals cases looked
    · cases looked
  · have static : ∃ method object arguments, kind = .call .static method object arguments := by
      unfold accessor? at looked
      split at looked
      · exact ⟨_, _, _, rfl⟩
      · cases looked
    obtain ⟨reference, object, arguments, rfl⟩ := static
    obtain ⟨method, ⟨_, file, index, _, _, located, _, declared⟩, recorded⟩ := accessor?_ok looked
    obtain ⟨exposed, read⟩ := legible.exposed owner file index method accessor located declared recorded
    unfold foreignMember? at foreign
    split at foreign
    · cases foreign
    · rw [located, Option.elim_some, read] at foreign
      cases foreign

theorem outerName?_legible {field : PoolIndex} (legible : table.Legible) (read : ∃ reference, pool.member field = .ok reference)
    (node : kind.Legible pool) : ∃ name, outerName? table home pool field kind = .ok name := by
  obtain ⟨reference, resolved⟩ := read
  obtain ⟨found, held⟩ : ∃ found, holder? table home pool kind = .ok found := by
    unfold holder?
    split
    · exact ⟨_, rfl⟩
    · obtain ⟨name, named⟩ := node
      rw [named]
      exact ⟨_, rfl⟩
    · exact ⟨_, rfl⟩
  unfold outerName?
  rw [held]
  cases found with
  | none => exact ⟨_, rfl⟩
  | some holder =>
    cases located : table.get? holder with
    | none => exact ⟨none, by simp [located, bind, Except.bind, pure, Except.pure]⟩
    | some file =>
      cases recorded : file.outerField with
      | none => exact ⟨none, by simp [located, recorded, bind, Except.bind, pure, Except.pure]⟩
      | some outerField =>
        cases around : file.outer.bind table.get? with
        | none => exact ⟨none, by simp [located, recorded, around, bind, Except.bind, pure, Except.pure]⟩
        | some enclosing =>
          cases declares : file.fields[outerField.field]? with
          | none =>
            exact ⟨none, by
              simp [located, recorded, around, declares, resolved, bind, Except.bind, pure, Except.pure]⟩
          | some declared =>
            obtain ⟨outer, _, there⟩ := Option.bind_eq_some_iff.mp around
            obtain ⟨fieldName, named⟩ := legible.held holder file outerField declared located recorded declares
            obtain ⟨owner, owned⟩ := legible.named holder file located
            obtain ⟨outerName, called⟩ := legible.named outer enclosing there
            simp only [located, recorded, around, declares, resolved, named, owned, called, bind, Except.bind, pure,
              Except.pure]
            split <;> exact ⟨_, rfl⟩

def Concerned (draft : Draft) (id : NodeId) : Prop :=
  draft.store.size ≤ id ∨ ∃ root ∈ draft.statements, draft.store.Reaches root id

structure Orderly (home : ClassId) (draft : Draft) (store : Store) (table : ClassTable) : Prop where
  legible : table.Legible
  fits : (table.poolOf home).count ≤ Pool.limit
  grown : draft.store.size ≤ store.size
  nodes : ∀ id kind, Concerned draft id → store.kind? id = some kind →
    kind.Legible (table.poolOf home) ∧ ∀ child ∈ kind.children, Concerned draft child

namespace Orderly

theorem start (legible : table.Legible) (fits : (table.poolOf home).count ≤ Pool.limit)
    (nodes : draft.Legible (table.poolOf home)) : Orderly home draft draft.store table := by
  refine ⟨legible, fits, Nat.le_refl _, fun id kind concerned found => ?_⟩
  rcases concerned with new | ⟨root, member, reached⟩
  · exact absurd (Store.lt_size_of_kind? found) (Nat.not_lt.mpr new)
  · exact ⟨nodes root member id kind reached found, fun child among => .inr ⟨root, member, reached.tail found among⟩⟩

variable (orderly : Orderly home draft store table)
include orderly

theorem reaches (concerned : Concerned draft id) (reached : store.Reaches id other) : Concerned draft other := by
  induction reached with
  | refl => exact concerned
  | tail _ step continues =>
    obtain ⟨kind, found, among⟩ := step
    exact (orderly.nodes _ kind continues found).2 _ among

theorem step (annotates : table.Annotates home last) (grown : store.size ≤ changed.size)
    (nodes : ∀ id kind, Concerned draft id → changed.kind? id = some kind → store.kind? id = some kind ∨
      kind.Legible (last.poolOf home) ∧ ∀ child ∈ kind.children, Concerned draft child) : Orderly home draft changed last := by
  have growth := annotates.poolOf home
  refine ⟨orderly.legible.annotates annotates, growth.fits orderly.fits, orderly.grown.trans grown,
    fun id kind concerned found => ?_⟩
  rcases nodes id kind concerned found with before | new
  · exact (orderly.nodes id kind concerned before).imp_left (.extend growth)
  · exact new

theorem expand {call : NodeId} {reference : PoolIndex} {object : Option NodeId} (concerned : Concerned draft call)
    (found : store.kind? call = some (.call .static reference object arguments))
    (looked : accessor? table (table.poolOf home) (.call .static reference object arguments) = .ok (some (accessor, owner)))
    (imported : importMember home owner accessor table = (.ok member, last))
    (expands : Expands store id member accessor arguments changed) : Orderly home draft changed last := by
  obtain ⟨⟨_, resolved⟩, below⟩ := orderly.nodes call _ concerned found
  obtain ⟨method, ⟨_, file, index, _, _, located, _, declared⟩, recorded⟩ := accessor?_ok looked
  obtain ⟨exposed, read⟩ := orderly.legible.exposed owner file index method accessor located declared recorded
  obtain ⟨caller, known⟩ := ClassTable.get?_of_member resolved
  have named := importMember_names known (by simpa [ClassTable.poolOf, known] using orderly.fits) imported
    (by simpa [ClassTable.poolOf, located] using read)
  refine orderly.step ((importMember_annotates home owner accessor).of_run imported) expands.spares.size_le
    fun other kind _ there => ?_
  rcases expands.introduced there with before | ⟨introduced, children⟩
  · exact .inl before
  · refine .inr ⟨introduced.legible ⟨_, named.choose_spec.choose_spec⟩, fun child among => ?_⟩
    rcases children child among with given | rfl
    · exact below child (List.mem_append_left _ (List.mem_append_right _ given))
    · exact .inl orderly.grown

theorem inlineSetter (concerned : Concerned draft statement)
    (ran : OuterInstance.inlineSetter home store statement table = (.ok changed, last)) : Orderly home draft changed last := by
  rcases inlineSetter_ok ran with ⟨rfl, rfl⟩ |
    ⟨call, _, arguments, accessor, owner, member, dropped, found, ⟨reference, object, rfl⟩, looked, imported, expands⟩
  · exact orderly
  · refine orderly.expand ?_ found looked imported expands
    rcases site_of_droppedCall? dropped with rfl | dropped
    · exact concerned
    · exact (orderly.nodes _ _ concerned dropped).2 call List.mem_cons_self

theorem foldNode (concerned : Concerned draft id) (ran : OuterInstance.foldNode home store id table = (.ok changed, last)) :
    Orderly home draft changed last := by
  rcases foldNode_ok ran with ⟨rfl, rfl⟩ |
    ⟨_, arguments, accessor, owner, member, found, ⟨reference, object, rfl⟩, looked, imported, expands⟩ |
    ⟨field, object, _, name, type, found, _, _, interned, rfl⟩
  · exact orderly
  · exact orderly.expand concerned found looked imported expands
  · obtain ⟨⟨_, resolved⟩, _⟩ := orderly.nodes id _ concerned found
    have annotates := (OnTable.interning_annotates home (Pool.internClass_extends name)).of_run interned
    refine orderly.step annotates (Nat.le_of_eq Store.size_replace.symm) fun other kind _ there => ?_
    by_cases here : other = id
    · subst here
      rw [Store.kind?_replace_self (Store.lt_size_of_kind? found)] at there
      cases there
      have named := className_interned (ClassTable.get?_of_member resolved) orderly.fits interned
      exact .inr ⟨⟨name, named⟩, by simp [Kind.children, Kind.operands, Kind.bodies]⟩
    · exact .inl (by rwa [Store.kind?_replace_of_ne here] at there)

theorem inlineSetter_overflow (concerned : Concerned draft statement)
    (ran : OuterInstance.inlineSetter home store statement table = (.error failure, last)) :
    failure = .method (.pool .overflow) := by
  rcases inlineSetter_error ran with overflow | ⟨call, kind, dropped, found, unreadable⟩
  · exact overflow
  · have called : Concerned draft call := by
      rcases site_of_droppedCall? dropped with rfl | dropped
      · exact concerned
      · exact (orderly.nodes _ _ concerned dropped).2 call List.mem_cons_self
    exact absurd unreadable (not_unreadable orderly.legible (orderly.nodes call kind called found).1)

theorem foldNode_overflow (concerned : Concerned draft id)
    (ran : OuterInstance.foldNode home store id table = (.error failure, last)) : failure = .method (.pool .overflow) := by
  rcases foldNode_error ran with overflow | ⟨kind, found, unreadable⟩ | ⟨field, object, kind, error, found, foundObject, looked⟩
  · exact overflow
  · exact absurd unreadable (not_unreadable orderly.legible (orderly.nodes id kind concerned found).1)
  · obtain ⟨read, below⟩ := orderly.nodes id _ concerned found
    obtain ⟨name, named⟩ := outerName?_legible orderly.legible read
      (orderly.nodes object kind (below object List.mem_cons_self) foundObject).1
    cases looked.symm.trans named

theorem walk {step : Store → NodeId → OnTable Store} {ids : List NodeId}
    (keeps : ∀ {store id table changed last}, Orderly home draft store table → Concerned draft id →
      step store id table = (.ok changed, last) → Orderly home draft changed last)
    (fails : ∀ {store id table failure last}, Orderly home draft store table → Concerned draft id →
      step store id table = (.error failure, last) → failure = .method (.pool .overflow))
    (concerned : ∀ id ∈ ids, Concerned draft id) :
    (∀ result last, ids.foldlM step store table = (.ok result, last) → Orderly home draft result last) ∧
      ∀ failure last, ids.foldlM step store table = (.error failure, last) → failure = .method (.pool .overflow) := by
  induction ids generalizing store table with
  | nil =>
    refine ⟨fun result last ran => ?_, fun failure last ran => by cases ran⟩
    obtain ⟨rfl, rfl⟩ := pure_ok.mp ran
    exact orderly
  | cons id rest continues =>
    have first := concerned id List.mem_cons_self
    have others (id : NodeId) (among : id ∈ rest) : Concerned draft id := concerned id (.tail _ among)
    rw [List.foldlM_cons]
    refine ⟨fun result last ran => ?_, fun failure last ran => ?_⟩
    · obtain ⟨next, middle, stepped, ran⟩ := bind_ok.mp ran
      exact (continues (keeps orderly first stepped) others).1 result last ran
    · rcases bind_error.mp ran with failed | ⟨next, middle, stepped, ran⟩
      · exact fails orderly first failed
      · exact (continues (keeps orderly first stepped) others).2 failure last ran

end Orderly

theorem dropOuterStore_subset (file : ClassFile) (method : Nat) (draft : Draft) :
    (dropOuterStore file method draft).statements ⊆ draft.statements := by
  unfold dropOuterStore
  split
  · split
    · exact List.eraseP_subset
    · exact List.Subset.refl _
  · exact List.Subset.refl _

/-- Where everything that the pass follows can be read, it fails only if there is no room for a constant. -/
theorem recover_overflow {method : Nat} (orderly : Orderly home draft draft.store table)
    (ran : recover home method draft table = (.error failure, last)) : failure = .method (.pool .overflow) := by
  unfold recover at ran
  rw [OnTable.get_bind_error] at ran
  have dropped : ((table.get? home).elim draft fun file => dropOuterStore file method draft).store = draft.store ∧
      ((table.get? home).elim draft fun file => dropOuterStore file method draft).statements ⊆ draft.statements := by
    cases table.get? home with
    | none => exact ⟨rfl, List.Subset.refl _⟩
    | some file => exact ⟨dropOuterStore_store file method draft, dropOuterStore_subset file method draft⟩
  generalize (table.get? home).elim draft _ = rest at ran dropped
  obtain ⟨same, fewer⟩ := dropped
  rw [same] at ran
  have concerned (root : NodeId) (member : root ∈ rest.statements) : Concerned draft root := .inr ⟨root, fewer member, .refl root⟩
  have setters := orderly.walk Orderly.inlineSetter Orderly.inlineSetter_overflow concerned
  rcases bind_error.mp ran with failed | ⟨store, middle, inlined, ran⟩
  · exact setters.2 failure last failed
  · have between := setters.1 store middle inlined
    refine (between.walk Orderly.foldNode Orderly.foldNode_overflow fun id visited => ?_).2 failure last (OnTable.map_error ran)
    obtain ⟨root, member, reached, _⟩ := Store.mem_postorder_iff_reaches.mp visited
    exact between.reaches (concerned root member) reached

end OuterInstance

end ClassLift
