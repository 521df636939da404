import ClassLift.Proofs.Body.Reach
import ClassLift.Proofs.Idiom.Position
import ClassLift.Proofs.Idiom.Reduction
import ClassLift.Proofs.Idiom.Sweep

namespace ClassLift

/-- A node that starts no idiom. The callees of static and virtual calls have to be known to tell. -/
def Kind.Ordinary (pool : Pool) (store : Store) : Kind → Prop
  | .dupStore _ | .pendingConditional .. | .outerThis _ | .assign .. => False
  | .bump _ delta => delta ≠ 1 ∧ delta ≠ -1
  | .call .special _ (some object) _ => ∀ type, store.kind? object ≠ some (.allocate type)
  | .call .static method _ _ =>
      ∃ called, pool.member method = .ok called ∧ Accessor.isName called.name = false ∧ called.name ≠ "class$"
  | .call .virtual method _ _ =>
      ∃ called, pool.member method = .ok called ∧ ¬ (Concatenation.isBuilder called.owner = true ∧ called.name = "toString")
  | .write place value => ∀ op lhs rhs, store.kind? value = some (.binary op lhs rhs) → store.readsPlace place lhs = false
  | _ => True

def Draft.Ordinary (pool : Pool) (draft : Draft) : Prop :=
  ∀ root ∈ draft.statements, ∀ id kind, draft.store.Reaches root id → draft.store.kind? id = some kind →
    kind.Ordinary pool draft.store

variable {pool : Pool} {store : Store} {statements : List NodeId} {id : NodeId} {kind : Kind}

namespace Draft.Ordinary

variable {draft : Draft} (ordinary : draft.Ordinary pool)
include ordinary

theorem statement (member : id ∈ draft.statements) (found : draft.store.kind? id = some kind) : kind.Ordinary pool draft.store :=
  ordinary id member id kind (.refl id) found

theorem visited (among : id ∈ draft.store.postorder draft.statements) (found : draft.store.kind? id = some kind) :
    kind.Ordinary pool draft.store := by
  obtain ⟨root, member, reached, _⟩ := Store.mem_postorder_iff_reaches.mp among
  exact ordinary root member id kind reached found

theorem child (among : id ∈ draft.store.postorder draft.statements) (found : draft.store.kind? id = some kind) {child : NodeId}
    (below : child ∈ kind.children) {inner : Kind} (foundChild : draft.store.kind? child = some inner) :
    inner.Ordinary pool draft.store := by
  obtain ⟨root, member, reached, _⟩ := Store.mem_postorder_iff_reaches.mp among
  exact ordinary root member child inner (reached.tail found below) foundChild

end Draft.Ordinary

/-! ## Walks that change nothing -/

section Walks

variable {ε σ α β : Type} {state : σ}

def Idles (action : ExceptT ε (StateM σ) α) (state : σ) (value : α) : Prop := action state = (.ok value, state)

theorem idles_pure (value : α) : Idles (pure value : ExceptT ε (StateM σ) α) state value := rfl

theorem Idles.bind {action : ExceptT ε (StateM σ) α} {next : α → ExceptT ε (StateM σ) β} {value : α} {result : β}
    (first : Idles action state value) (rest : Idles (next value) state result) : Idles (action >>= next) state result :=
  bind_ok.mpr ⟨value, state, first, rest⟩

theorem idles_foldlM {step : β → α → ExceptT ε (StateM σ) β} {elements : List α} {value : β}
    (steps : ∀ element ∈ elements, Idles (step value element) state value) : Idles (elements.foldlM step value) state value := by
  induction elements with
  | nil => exact idles_pure value
  | cons element rest continues =>
    rw [List.foldlM_cons]
    exact (steps element List.mem_cons_self).bind (continues fun other among => steps other (List.mem_cons_of_mem element among))

theorem idles_get_bind {next : σ → ExceptT ε (StateM σ) β} {result : β} (rest : Idles (next state) state result) :
    Idles (get >>= next) state result :=
  rest

namespace OnTable

variable {table : ClassTable} {home : ClassId} {file : ClassFile}

theorem idles_pool_bind {next : Pool → OnTable β} {result : β} (located : table.get? home = some file)
    (rest : Idles (next file.pool) table result) : Idles (OnTable.pool home >>= next) table result := by
  have held : (table.get? home).elim {} ClassFile.pool = file.pool := by
    rw [located]
    rfl
  change Idles (next ((table.get? home).elim {} ClassFile.pool)) table result
  rwa [held]

theorem idles_read_bind {action : Except PoolError α} {next : α → OnTable β} {value : α} {result : β} (read : action = .ok value)
    (rest : Idles (next value) table result) : Idles ((liftM action : OnTable α) >>= next) table result := by
  subst read
  exact rest

end OnTable

theorem Draft.sweep_unchanged {m : Type → Type} [Monad m] [LawfulMonad m] {step : Store → Spot → m (Store × Cursor)} {draft : Draft}
    (same : ∀ spot : Spot, spot.keep.statements = draft.statements → step draft.store spot = pure (draft.store, spot.keep)) :
    draft.sweep step = pure draft := by
  obtain ⟨store, statements⟩ := draft
  have passes (before block after : List NodeId) (split : before ++ block ++ after = statements) :
      Passes step before block store after store (block ++ after) := by
    induction block generalizing before with
    | nil => exact .nil
    | cons current block continues =>
      refine .cons (continues (before ++ [current]) (by simpa using split)) (same ⟨before.reverse, current, block ++ after⟩ ?_)
      simpa [Spot.keep, Cursor.statements] using split
  have swept := (passes [] statements [] (by simp)).sweep
  rwa [List.append_nil] at swept

theorem Spot.mem_statements {spot : Spot} (same : spot.keep.statements = statements) :
    spot.current ∈ statements ∧ ∀ id ∈ spot.after, id ∈ statements := by
  rw [← same]
  simp +contextual [keep, Cursor.statements]

end Walks

/-! ## Enclosing instances and accessors -/

namespace OuterInstance

variable {table : ClassTable} {home : ClassId} {file : ClassFile}

theorem accessor?_ordinary (table : ClassTable) (ordinary : kind.Ordinary pool store) : accessor? table pool kind = .ok none := by
  unfold accessor?
  split
  · obtain ⟨called, resolved, named, _⟩ := ordinary
    simp [resolved, named, bind, Except.bind, pure, Except.pure]
  · rfl

theorem outerName?_ordinary (field : PoolIndex) (located : table.get? home = some file) (bare : file.outerField = none)
    (ordinary : kind.Ordinary pool store) : outerName? table home pool field kind = .ok none := by
  unfold outerName? holder?
  split
  · split
    · simp [located, bare, bind, Except.bind, pure, Except.pure]
    · rfl
  · exact ordinary.elim
  · rfl

variable {draft : Draft} {method : Nat} (located : table.get? home = some file) (ordinary : draft.Ordinary file.pool)
include located ordinary

theorem inlineSetter_ordinary (member : id ∈ draft.statements) :
    Idles (inlineSetter home draft.store id) table draft.store := by
  unfold inlineSetter
  split
  case h_1 call dropped =>
    split
    case h_1 kind found =>
      have reached : draft.store.Reaches id call := by
        rcases site_of_droppedCall? dropped with rfl | discarded
        · exact .refl id
        · exact .single ⟨_, discarded, List.mem_singleton_self call⟩
      have looked := accessor?_ordinary table (ordinary id member call kind reached found)
      exact idles_get_bind (OnTable.idles_pool_bind located (OnTable.idles_read_bind looked (idles_pure _)))
    case h_2 => exact idles_pure _
  case h_2 => exact idles_pure _

theorem foldNode_ordinary (bare : file.outerField = none) (among : id ∈ draft.store.postorder draft.statements) :
    Idles (foldNode home draft.store id) table draft.store := by
  unfold foldNode
  split
  case h_1 method object arguments found =>
    have looked := accessor?_ordinary table (ordinary.visited among found)
    exact idles_get_bind (OnTable.idles_pool_bind located (OnTable.idles_read_bind looked (idles_pure _)))
  case h_2 field object found =>
    split
    case h_1 kind inner =>
      have below : object ∈ (Kind.read (.field field object)).children := List.mem_singleton_self object
      have named := outerName?_ordinary field located bare (ordinary.child among found below inner)
      exact idles_get_bind (OnTable.idles_pool_bind located (OnTable.idles_read_bind named (idles_pure _)))
    case h_2 => exact idles_pure _
  case h_3 => exact idles_pure _

theorem recover_ordinary (bare : file.outerField = none) : Idles (recover home method draft) table draft := by
  have undropped : ((table.get? home).elim draft fun file => dropOuterStore file method draft) = draft := by
    simp [located, dropOuterStore, bare]
  unfold recover
  refine idles_get_bind ?_
  rw [undropped]
  refine .bind (idles_foldlM fun id member => ?_) (.bind (idles_foldlM fun id among => ?_) (idles_pure _))
  · exact inlineSetter_ordinary located ordinary member
  · exact foldNode_ordinary located ordinary bare among

end OuterInstance

/-! ## Idioms of statements -/

section Statements

variable {draft : Draft} {spot : Spot} (ordinary : draft.Ordinary pool) (within : spot.keep.statements = draft.statements)
include ordinary within

theorem Construction.step_ordinary : step pool draft.store spot = pure (draft.store, spot.keep) := by
  have member := (Spot.mem_statements within).1
  unfold step
  split
  case h_1 value found => exact (ordinary.statement member found).elim
  case h_2 =>
    have unrelated : constructorCall? pool (isAllocation draft.store) (draft.store.kind? spot.current) = .ok none := by
      unfold constructorCall?
      split
      case h_1 method object arguments found =>
        have apart := ordinary.statement member found
        have other : isAllocation draft.store object = false := by
          unfold isAllocation
          split
          case h_1 type allocated => exact absurd allocated (apart type)
          case h_2 => rfl
        rw [other]
        rfl
      case h_2 => rfl
    rw [unrelated]
    rfl

theorem Increment.step_ordinary (targets : List Offset) : step targets draft.store spot = (draft.store, spot.keep) := by
  have member := (Spot.mem_statements within).1
  unfold step
  split
  case h_1 node located =>
    have plain := ordinary.statement member (Store.kind?_of_node? located)
    split
    case h_1 held => exact (held ▸ plain).elim
    case h_2 slot delta bumped =>
      rw [bumped] at plain
      exact if_neg (by rintro (rfl | rfl) <;> simp [Kind.Ordinary] at plain)
    case h_3 => rfl
  case h_2 => rfl

theorem Assignment.step_ordinary : step draft.store spot = (draft.store, spot.keep) := by
  unfold step
  split
  case h_1 value found => exact (ordinary.statement (Spot.mem_statements within).1 found).elim
  case h_2 => rfl

theorem ArrayLiteral.step_ordinary : step draft.store spot = (draft.store, spot.keep) := by
  unfold step
  split
  case h_1 array found => exact (ordinary.statement (Spot.mem_statements within).1 found).elim
  case h_2 => rfl

theorem CompoundAssignment.step_ordinary : step draft.store spot = (draft.store, spot.keep) := by
  unfold step
  split
  case h_1 place value found =>
    have other := ordinary.statement (Spot.mem_statements within).1 found
    split
    case h_1 op lhs rhs operands =>
      rw [if_neg (by simp [other op lhs rhs (operands?_eq_some operands)])]
    case h_2 => rfl
  case h_2 => rfl

theorem Conditional.step_ordinary : step draft.store spot = .ok (draft.store, spot.keep) := by
  unfold step
  split
  · rfl
  · split
    case h_1 pending jump rest follows =>
      have settled : pending? draft.store pending = none := by
        unfold pending?
        split
        case h_1 value second found =>
          have member := (Spot.mem_statements within).2 pending (by simp [follows])
          exact (ordinary.statement member found).elim
        case h_2 => rfl
      rw [settled]
    case h_2 => rfl

theorem ClassLiteral.foldCached_ordinary (home : ClassId) : foldCached home draft.store spot = pure (draft.store, spot.keep) := by
  unfold foldCached
  split
  · split
    case h_1 held put pending jump use rest follows =>
      have unheld : heldCall? draft.store held = none := by
        unfold heldCall?
        split
        case h_1 call found =>
          have member := (Spot.mem_statements within).2 held (by simp [follows])
          exact (ordinary.statement member found).elim
        case h_2 => rfl
      rw [unheld]
    case h_2 => rfl
  · rfl

end Statements

/-! ## Idioms of expressions -/

section Expressions

variable {draft : Draft} {table : ClassTable} {home : ClassId} {file : ClassFile}

theorem ClassLiteral.foldCall_ordinary (located : table.get? home = some file) (ordinary : draft.Ordinary file.pool)
    (among : id ∈ draft.store.postorder draft.statements) : Idles (foldCall home draft.store id) table draft.store := by
  unfold foldCall
  split
  case h_1 method object arguments found =>
    obtain ⟨called, resolved, _, other⟩ := ordinary.visited among found
    have unnamed : named? file.pool draft.store method arguments = .ok none := by
      simp [named?, isHelper, resolved, other, bind, Except.bind, pure, Except.pure]
    exact OnTable.idles_pool_bind located (OnTable.idles_read_bind unnamed (idles_pure _))
  case h_2 => exact idles_pure _

theorem Concatenation.foldNode_ordinary (located : table.get? home = some file) (ordinary : draft.Ordinary file.pool)
    (among : id ∈ draft.store.postorder draft.statements) : Idles (foldNode home draft.store id) table draft.store := by
  unfold foldNode
  split
  case h_1 kind found =>
    have unrelated : operands? file.pool draft.store kind = .ok none := by
      unfold operands?
      split
      case h_1 method builder arguments =>
        obtain ⟨called, resolved, other⟩ := ordinary.visited among found
        have skipped : (!arguments.isEmpty || !isBuilder called.owner || called.name != "toString") = true := by
          by_cases named : called.name = "toString"
          · have notBuilder : isBuilder called.owner = false := by
              simpa [named] using other
            simp [notBuilder]
          · simp [named]
        rw [resolved]
        exact if_pos skipped
      case h_2 => rfl
    refine OnTable.idles_pool_bind located ?_
    rw [unrelated]
    exact idles_pure _
  case h_2 => exact idles_pure _

theorem CompoundAssignment.foldNode_ordinary (ordinary : draft.Ordinary pool)
    (among : id ∈ draft.store.postorder draft.statements) : foldNode draft.store id = draft.store := by
  unfold foldNode
  split
  case h_1 target value found => exact (ordinary.visited among found).elim
  case h_2 => rfl

end Expressions

/-! ## All idioms -/

section Recover

variable {draft : Draft} {table : ClassTable} {home : ClassId} {file : ClassFile}

theorem Construction.recover_ordinary (ordinary : draft.Ordinary pool) : recover pool draft = .ok draft :=
  Draft.sweep_unchanged fun _ within => step_ordinary ordinary within

theorem Increment.recover_ordinary (ordinary : draft.Ordinary pool) (handlers : List Handler) : recover handlers draft = draft :=
  Draft.sweep_unchanged (m := Id) fun _ within => congrArg pure (step_ordinary ordinary within _)

theorem ClassLiteral.recover_ordinary (located : table.get? home = some file) (ordinary : draft.Ordinary file.pool) :
    Idles (recover home draft) table draft := by
  have swept : draft.sweep (foldCached home) = pure draft :=
    Draft.sweep_unchanged fun _ within => foldCached_ordinary ordinary within home
  unfold recover
  rw [swept]
  exact .bind (idles_pure _) (.bind (idles_foldlM fun _ among => foldCall_ordinary located ordinary among) (idles_pure _))

theorem Concatenation.recover_ordinary (located : table.get? home = some file) (ordinary : draft.Ordinary file.pool) :
    Idles (recover home draft) table draft :=
  .bind (idles_foldlM fun _ among => foldNode_ordinary located ordinary among) (idles_pure _)

theorem Assignment.recover_ordinary (ordinary : draft.Ordinary pool) : recover draft = draft :=
  Draft.sweep_unchanged (m := Id) fun _ within => congrArg pure (step_ordinary ordinary within)

theorem ArrayLiteral.recover_ordinary (ordinary : draft.Ordinary pool) : recover draft = draft :=
  Draft.sweep_unchanged (m := Id) fun _ within => congrArg pure (step_ordinary ordinary within)

theorem CompoundAssignment.recover_ordinary (ordinary : draft.Ordinary pool) : recover draft = draft := by
  have swept : Id.run (draft.sweep fun store spot => pure (step store spot)) = draft :=
    Draft.sweep_unchanged (m := Id) fun _ within => congrArg pure (step_ordinary ordinary within)
  have folded (ids : List NodeId) (among : ∀ id ∈ ids, id ∈ draft.store.postorder draft.statements) :
      ids.foldl foldNode draft.store = draft.store := by
    induction ids with
    | nil => rfl
    | cons id rest continues =>
      rw [List.foldl_cons, foldNode_ordinary ordinary (among id List.mem_cons_self)]
      exact continues fun other inside => among other (List.mem_cons_of_mem id inside)
  unfold recover
  simp only [swept, folded _ fun _ => id]

theorem Conditional.recover_ordinary (ordinary : draft.Ordinary pool) : recover draft = .ok draft :=
  Draft.sweep_unchanged fun _ within => step_ordinary ordinary within

theorem Code.recover_ordinary {code : Code} (located : table.get? home = some file) (bare : file.outerField = none)
    (ordinary : Draft.Ordinary file.pool ⟨code.store, code.instructions⟩) (method : Nat) :
    Idles (code.recover home method) table ⟨code.store, code.instructions⟩ := by
  unfold recover
  refine .bind (OuterInstance.recover_ordinary located ordinary bare) ?_
  refine OnTable.idles_pool_bind located (OnTable.idles_read_bind (Construction.recover_ordinary ordinary) ?_)
  rw [Increment.recover_ordinary ordinary]
  refine .bind (ClassLiteral.recover_ordinary located ordinary) ?_
  refine .bind (Concatenation.recover_ordinary located ordinary) ?_
  simp only [Assignment.recover_ordinary ordinary, ArrayLiteral.recover_ordinary ordinary,
    CompoundAssignment.recover_ordinary ordinary, Conditional.recover_ordinary ordinary]
  rfl

end Recover

/-! ## Whole classes -/

theorem Kind.Ordinary.extend {after : Pool} (growth : pool.Extends after) (ordinary : kind.Ordinary pool store) :
    kind.Ordinary after store := by
  unfold Kind.Ordinary at ordinary ⊢
  split at ordinary
  case h_7 | h_8 =>
    obtain ⟨called, resolved, other⟩ := ordinary
    exact ⟨called, growth.member resolved, other⟩
  all_goals exact ordinary

theorem Draft.Ordinary.extend {after : Pool} {draft : Draft} (growth : pool.Extends after) (ordinary : draft.Ordinary pool) :
    draft.Ordinary after :=
  fun root member id kind reached found => (ordinary root member id kind reached found).extend growth

namespace ClassTable

variable {table middle after : ClassTable} {home : ClassId} {file : ClassFile} {index : Nat} {method : Method} {code : Code}
  {warnings early : List Warning}

def Widens : ClassTable → ClassTable → Prop :=
  Each fun _ file other => other.outerField = file.outerField ∧ file.pool.Extends other.pool

theorem Widens.refl (table : ClassTable) : table.Widens table := Each.refl (fun _ file => ⟨rfl, .refl file.pool⟩) table

theorem Widens.trans (first : table.Widens middle) (second : middle.Widens after) : table.Widens after :=
  Each.trans (fun _ _ _ _ one two => ⟨two.1.trans one.1, one.2.trans two.2⟩) first second

instance : Std.Refl Widens := ⟨.refl⟩

instance : IsTrans ClassTable Widens := ⟨fun _ _ _ => .trans⟩

theorem Widens.of_annotates (annotates : table.Annotates home after) : table.Widens after := by
  refine Each.imp ?_ annotates
  rintro _ _ _ ⟨annotated, _⟩
  exact ⟨(congrArg ClassFile.outerField annotated.rest :), annotated.pool⟩

theorem Widens.setCode (table : ClassTable) (home : ClassId) (index : Nat) (code : Code) :
    table.Widens (table.setCode home index code) :=
  Each.modify (fun _ file => ⟨rfl, .refl file.pool⟩) fun file _ => ⟨rfl, .refl file.pool⟩

theorem Widens.flag (table : ClassTable) (home : ClassId) (index : Nat) (error : MethodError) :
    table.Widens (table.flag home index error).1 := by
  unfold ClassTable.flag
  cases located : table.get? home with
  | none => exact .refl table
  | some file =>
    refine Each.modify (fun _ file => ⟨rfl, .refl file.pool⟩) fun other there => ?_
    cases there.symm.trans located
    exact ⟨rfl, .refl file.pool⟩

theorem recoverMethod_widens (ran : table.recoverMethod home index = .ok (after, warnings)) : table.Widens after := by
  rcases recoverMethod_cases ran with ⟨rfl, _⟩ | ⟨_, code, middle, _, _, _, annotates, made⟩
  · exact .refl after
  · have widens : table.Widens middle := .of_annotates annotates
    rcases made with ⟨draft, _, rfl⟩ | ⟨error, _, rfl⟩
    · exact widens.trans (.setCode middle home index _)
    · exact (widens.trans (.setCode middle home index _)).trans (.flag _ home index error)

theorem recoverMethods_append {indices others : List Nat}
    (ran : table.recoverMethods home (indices ++ others) = .ok (after, warnings)) :
    ∃ middle early late, table.recoverMethods home indices = .ok (middle, early) ∧
      middle.recoverMethods home others = .ok (after, late) := by
  induction indices generalizing table warnings with
  | nil => exact ⟨table, [], warnings, rfl, ran⟩
  | cons index rest continues =>
    obtain ⟨⟨next, found⟩, first, ran⟩ := except_bind_ok.mp ran
    obtain ⟨⟨last, more⟩, later, same⟩ := except_bind_ok.mp ran
    cases same
    obtain ⟨middle, early, late, front, back⟩ := continues later
    exact ⟨middle, found ++ early, late, except_bind_ok.mpr ⟨_, first, except_bind_ok.mpr ⟨_, front, rfl⟩⟩, back⟩

theorem poolOf_setCode (id : ClassId) : (table.setCode home index code).poolOf id = table.poolOf id := by
  unfold poolOf setCode ClassTable.modify get?
  rw [Array.getElem?_modify]
  split
  · cases table.classes[id]? <;> rfl
  · rfl

theorem recoverMethod_ordinary (located : table.get? home = some file) (bare : file.outerField = none)
    (given : file.methods[index]? = some method) (unflagged : method.flagged = false) (body : method.code = some code)
    (ordinary : Draft.Ordinary file.pool ⟨code.store, code.instructions⟩) :
    table.recoverMethod home index = .ok (table.setCode home index { code with statements := code.instructions }, []) := by
  have recovered : code.recover home index table = (.ok ⟨code.store, code.instructions⟩, table) :=
    Code.recover_ordinary located bare ordinary index
  simp only [recoverMethod, located, Option.bind_some, given, unflagged, body, recovered]

theorem recoverMethods_ordinary {earlier : List Nat} (located : table.get? home = some file) (bare : file.outerField = none)
    (given : file.methods[index]? = some method) (unflagged : method.flagged = false) (body : method.code = some code)
    (ordinary : Draft.Ordinary file.pool ⟨code.store, code.instructions⟩) (distinct : earlier.Nodup) (absent : index ∉ earlier)
    (ran : table.recoverMethods home earlier = .ok (middle, early)) :
    middle.recoverMethod home index = .ok (middle.setCode home index { code with statements := code.instructions }, []) ∧
      ∃ marked, middle.method? home index = some marked ∧ method.Marked marked := by
  have there : table.method? home index = some method := Option.bind_eq_some_iff.mpr ⟨file, located, given⟩
  obtain ⟨marked, here, mark⟩ := (recoverMethods_ok distinct ran).1 index method absent there
  obtain ⟨other, relocated, outer, growth⟩ := (recoverMethods_related recoverMethod_widens ran).left home file located
  obtain ⟨same, relocatedToo, declared⟩ := Option.bind_eq_some_iff.mp here
  cases relocated.symm.trans relocatedToo
  exact ⟨recoverMethod_ordinary relocated (outer.trans bare) declared (mark.flagged.trans unflagged) (mark.code.trans body)
    (ordinary.extend growth), marked, here, mark⟩

/-- An ordinary method is handed back as it is, whatever becomes of the other methods. -/
theorem recover_leaves_ordinary (located : table.get? home = some file) (bare : file.outerField = none)
    (given : file.methods[index]? = some method) (unflagged : method.flagged = false) (body : method.code = some code)
    (ordinary : Draft.Ordinary file.pool ⟨code.store, code.instructions⟩) :
    (∀ middle early, table.recoverMethods home (List.range index) = .ok (middle, early) →
      middle.recoverMethod home index = .ok (middle.setCode home index { code with statements := code.instructions }, []) ∧
        ∀ id, (middle.setCode home index { code with statements := code.instructions }).poolOf id = middle.poolOf id) ∧
    ∀ after warnings, table.recover home = .ok (after, warnings) →
      ∃ result, after.method? home index = some result ∧ result.flagged = false ∧
        result.code = some { code with statements := code.instructions } := by
  refine ⟨fun middle early ran => ?_, fun after warnings ran => ?_⟩
  · have step := (recoverMethods_ordinary located bare given unflagged body ordinary List.nodup_range (by simp) ran).1
    exact ⟨step, fun id => poolOf_setCode id⟩
  · have inside : index ∈ List.range ((table.get? home).elim 0 (·.methods.size)) := by
      rw [located]
      exact List.mem_range.mpr (Array.getElem?_eq_some_iff.mp given).1
    obtain ⟨earlier, later, split⟩ := List.append_of_mem inside
    have distinct := List.nodup_range (n := (table.get? home).elim 0 (·.methods.size))
    rw [split] at distinct
    unfold recover at ran
    rw [split] at ran
    obtain ⟨distinctEarlier, distinctLater, apart⟩ := List.nodup_append'.mp distinct
    obtain ⟨absentLater, distinctLater⟩ := List.nodup_cons.mp distinctLater
    have absent : index ∉ earlier := fun among => apart among List.mem_cons_self
    obtain ⟨middle, early, late, front, back⟩ := recoverMethods_append ran
    obtain ⟨step, marked, here, mark⟩ :=
      recoverMethods_ordinary located bare given unflagged body ordinary distinctEarlier absent front
    obtain ⟨⟨next, found⟩, stepped, back⟩ := except_bind_ok.mp back
    cases step.symm.trans stepped
    obtain ⟨⟨last, more⟩, rest, same⟩ := except_bind_ok.mp back
    cases same
    have set : (middle.setCode home index { code with statements := code.instructions }).method? home index =
        some { marked with code := some { code with statements := code.instructions } } := by
      rw [setCode, method?_modifyMethod, if_pos rfl, here]
      rfl
    obtain ⟨result, final, kept⟩ := (recoverMethods_ok distinctLater rest).1 index _ absentLater set
    exact ⟨result, final, kept.flagged.trans (mark.flagged.trans unflagged), kept.code⟩

end ClassTable

/-- A jump, a switch, a call, and an addition that reads another variable than it writes. -/
def ordinaryBody : Code where
  store := ⟨#[⟨0, none, .read (.slot .int 2)⟩, ⟨1, none, .literal (.int 1)⟩, ⟨2, none, .binary .add 0 1⟩,
    ⟨3, none, .write (.slot .int 1) 2⟩, ⟨4, none, .read (.slot .reference 0)⟩, ⟨5, none, .call .virtual 6 (some 4) []⟩,
    ⟨8, none, .read (.slot .int 1)⟩, ⟨9, none, .switch 6 12 [(7, 0)]⟩, ⟨12, none, .goto 0⟩]⟩
  instructions := [3, 5, 7, 8]

/-- The first of the two methods calls a method that cannot be resolved. -/
def besideUnresolved : ClassFile where
  thisIndex := 2
  pool := ⟨#[none, some (.utf8 "A"), some (.classInfo 1), some (.utf8 "f"), some (.utf8 "()V"), some (.nameAndType 3 4),
    some (.methodRef 2 5), some (.utf8 "g")]⟩
  methods := #[
    { nameIndex := 3, descriptorIndex := 4, code := some { store := ⟨#[⟨0, none, .call .static 9 none []⟩]⟩, instructions := [0] } },
    { nameIndex := 7, descriptorIndex := 4, code := some ordinaryBody }]

theorem ordinaryBody_ordinary : Draft.Ordinary besideUnresolved.pool ⟨ordinaryBody.store, ordinaryBody.instructions⟩ := by
  intro root member id kind reached found
  obtain ⟨node, located, rfl⟩ := Store.kind?_eq_some.mp found
  have among := Array.mem_of_getElem? located
  simp only [ordinaryBody, List.mem_toArray, List.mem_cons, List.not_mem_nil, or_false] at among
  have apart : ∀ op lhs rhs, ordinaryBody.store.kind? 2 = some (.binary op lhs rhs) →
      ordinaryBody.store.readsPlace (.slot .int 1) lhs = false := by
    rintro op lhs rhs same
    cases same
    rfl
  have resolved : ∃ called, besideUnresolved.pool.member 6 = .ok called ∧
      ¬ (Concatenation.isBuilder called.owner = true ∧ called.name = "toString") := ⟨_, rfl, by decide⟩
  rcases among with rfl | rfl | rfl | rfl | rfl | rfl | rfl | rfl | rfl
  exacts [trivial, trivial, trivial, apart, trivial, resolved, trivial, trivial, trivial]

theorem recover_leaves_ordinaryBody :
    ∃ after warnings result, (⟨#[besideUnresolved]⟩ : ClassTable).recover 0 = .ok (after, warnings) ∧
    after.method? 0 1 = some result ∧ result.flagged = false ∧
    result.code = some { ordinaryBody with statements := ordinaryBody.instructions } := by
  have succeeds : ((⟨#[besideUnresolved]⟩ : ClassTable).recover 0).isOk = true := by decide +kernel
  cases ran : (⟨#[besideUnresolved]⟩ : ClassTable).recover 0 with
  | error error =>
    rw [ran] at succeeds
    cases succeeds
  | ok outcome =>
    have given : besideUnresolved.methods[1]? = some { nameIndex := 7, descriptorIndex := 4, code := some ordinaryBody } := rfl
    obtain ⟨result, kept⟩ := (ClassTable.recover_leaves_ordinary rfl rfl given rfl rfl ordinaryBody_ordinary).2 _ _ ran
    exact ⟨outcome.1, outcome.2, result, rfl, kept⟩

end ClassLift
