import ClassLift.Proofs.Structure.Rework
import ClassLift.Structure.Method

namespace ClassLift

inductive Code.Reaches (code : Code) : NodeId → Prop
  | listed (id : NodeId) (member : id ∈ code.instructions ++ code.statements) : Reaches code id
  | child (parent id : NodeId) (kind : Kind) (reached : Reaches code parent)
      (found : code.store.kind? parent = some kind) (member : id ∈ kind.children) : Reaches code id

structure Code.Intact (before after : Code) : Prop where
  instructions : after.instructions = before.instructions
  statements : after.statements = before.statements
  node : ∀ id node, before.Reaches id → before.store.node? id = some node → after.store.node? id = some node

namespace Code

variable {code : Code} {store : Store}

theorem intact_iff (reworked : code.store.Reworked (· ∈ code.statements) store) :
    code.Intact { code with store } ↔
      ∀ id ∈ code.statements, ∀ kind, code.store.kind? id = some kind → kind.isJump → store.kind? id = some kind := by
  constructor
  · intro intact id member kind found _
    obtain ⟨node, located, rfl⟩ := Store.kind?_eq_some.mp found
    have reached : code.Reaches id := .listed id (List.mem_append_right _ member)
    exact Store.kind?_of_node? (intact.node id node reached located)
  · intro same
    refine ⟨rfl, rfl, fun id node _ located => ?_⟩
    obtain ⟨kind, locatedAfter, change, untouched⟩ := reworked.node id node located
    have kept : kind = node.kind := by
      by_cases member : id ∈ code.statements
      · cases isJump : node.kind.isJump with
        | false => exact change.eq_of_not_isJump isJump
        | true =>
          have found := same id member node.kind (Store.kind?_of_node? located) isJump
          rw [Store.kind?_of_node? locatedAfter] at found
          exact Option.some_inj.mp found
      · exact untouched member
    rw [locatedAfter, kept]

end Code

theorem Region.build_reworks (store : Store) (statements : List NodeId) (handlers : List Handler) (maxLocals : Slot) :
    store.Reworked (· ∈ statements) (build store statements handlers maxLocals).2 := by
  let listing := Listing.ofStatements store statements maxLocals
  have reworked := regionFrom_reworks listing listing.size 0 listing.size {} [] ⟨store, handlers⟩
  refine reworked.store.widen fun id covered => ?_
  obtain ⟨position, _, _, located⟩ := covered
  exact List.mem_of_getElem? (by simpa [listing, Listing.ofStatements] using located)

namespace ClassFile

variable {config : Config} {file after : ClassFile} {index : Nat} {method : Method} {code : Code}

/-! ## One method -/

theorem structureCode_failed {failure : Failure} {failed : Code}
    (ran : file.structureCode config method code = (.error failure, failed)) :
    ∃ store, failed = { code with store } ∧ code.store.Reworked (· ∈ code.statements) store := by
  have reworked := Region.build_reworks code.store code.statements code.handlers code.maxLocals
  unfold structureCode at ran
  cases readable : file.pool.utf8 method.descriptorIndex with
  | error error =>
    simp only [readable, Prod.mk.injEq] at ran
    exact ⟨code.store, ran.2.symm, .refl _⟩
  | ok descriptor =>
    generalize Region.build code.store code.statements code.handlers code.maxLocals = built at ran reworked
    obtain ⟨result, store⟩ := built
    refine ⟨store, ?_, reworked⟩
    simp only [readable] at ran
    -- every way to fail after the build leaves the lists alone
    split at ran
    · exact (Prod.mk.inj ran).2.symm
    · split at ran
      · exact (Prod.mk.inj ran).2.symm
      · split at ran
        · exact (Prod.mk.inj ran).2.symm
        · cases (Prod.mk.inj ran).1

theorem structureCode_unreadable {error : PoolError} (unreadable : file.pool.utf8 method.descriptorIndex = .error error) :
    file.structureCode config method code = (.error (.method (.pool error)), code) := by
  simp only [structureCode, unreadable]

/-- What structuring makes of a method, judged from the class alone. -/
inductive StructuredTo (config : Config) (file : ClassFile) : Method → Method → Prop
  | skipped (method : Method) (skips : method.flagged = true ∨ method.code = none) : StructuredTo config file method method
  | done (method : Method) (code built : Code) (unflagged : method.flagged = false) (given : method.code = some code)
      (ran : file.structureCode config method code = (.ok (), built)) :
      StructuredTo config file method { method with code := some built }
  | failed (method : Method) (code kept : Code) (error : MethodError) (unflagged : method.flagged = false)
      (given : method.code = some code)
      (ran : file.structureCode config method code = (.error (.method error), kept)) :
      StructuredTo config file method { method with code := some kept, flagged := true }

theorem StructuredTo.of_methods {methods : Array Method} {result : Method}
    (structured : StructuredTo config { file with methods } method result) : StructuredTo config file method result := by
  cases structured with
  | skipped skips => exact .skipped method skips
  | done code built unflagged given ran => exact .done method code built unflagged given ran
  | failed code kept error unflagged given ran => exact .failed method code kept error unflagged given ran

theorem structureMethod_ok {warnings : List Warning} (ran : file.structureMethod config index = .ok (after, warnings)) :
    ∃ methods, after = { file with methods } ∧ (∀ other, other ≠ index → methods[other]? = file.methods[other]?) ∧
      ∀ method, file.methods[index]? = some method →
        ∃ result, methods[index]? = some result ∧ StructuredTo config file method result := by
  unfold structureMethod at ran
  cases found : file.methods[index]? with
  | none =>
    simp only [found, Except.ok.injEq, Prod.mk.injEq] at ran
    exact ⟨file.methods, ran.1.symm, fun _ _ => rfl, fun method given => by cases given⟩
  | some method =>
    simp only [found] at ran
    split at ran
    next code unflagged given =>
      cases structured : file.structureCode config method code with
      | mk result built =>
        simp only [structured] at ran
        cases result with
        | ok _ =>
          simp only [Except.ok.injEq, Prod.mk.injEq] at ran
          refine ⟨_, ran.1.symm, fun other apart => ?_, fun method' same => ?_⟩
          · simp [Array.getElem?_modify, Ne.symm apart]
          · cases same
            refine ⟨{ method with code := some built }, ?_, .done method code built unflagged given structured⟩
            simp [Array.getElem?_modify, found]
        | error failure =>
          cases failure with
          | descriptor error => cases ran
          | method error =>
            simp only [flag, Except.ok.injEq, Prod.mk.injEq] at ran
            refine ⟨_, ran.1.symm, fun other apart => ?_, fun method' same => ?_⟩
            · simp [modifyMethod, Array.getElem?_modify, Ne.symm apart]
            · cases same
              refine ⟨{ method with code := some built, flagged := true }, ?_,
                .failed method code built error unflagged given structured⟩
              simp [modifyMethod, Array.getElem?_modify, found]
    next skips =>
      simp only [Except.ok.injEq, Prod.mk.injEq] at ran
      refine ⟨file.methods, ran.1.symm, fun _ _ => rfl, fun method' same => ?_⟩
      cases same
      refine ⟨method, found, .skipped method ?_⟩
      cases isFlagged : method.flagged with
      | true => exact .inl rfl
      | false =>
        cases given : method.code with
        | none => exact .inr rfl
        | some code => exact (skips code isFlagged given).elim

/-! ## All methods -/

theorem structureMethods_ok {indices : List Nat} {warnings : List Warning} (distinct : indices.Nodup)
    (ran : file.structureMethods config indices = .ok (after, warnings)) :
    ∃ methods, after = { file with methods } ∧ (∀ other, other ∉ indices → methods[other]? = file.methods[other]?) ∧
      ∀ index ∈ indices, ∀ method, file.methods[index]? = some method →
        ∃ result, methods[index]? = some result ∧ StructuredTo config file method result := by
  induction indices generalizing file warnings with
  | nil =>
    simp only [structureMethods, Except.ok.injEq, Prod.mk.injEq] at ran
    exact ⟨file.methods, ran.1.symm, fun _ _ => rfl, fun index member => by cases member⟩
  | cons head rest ih =>
    obtain ⟨fresh, distinct⟩ := List.nodup_cons.mp distinct
    obtain ⟨⟨middle, early⟩, first, ran⟩ := except_bind_ok.mp ran
    obtain ⟨⟨last, late⟩, later, same⟩ := except_bind_ok.mp ran
    cases same
    obtain ⟨firstMethods, rfl, firstKept, firstDone⟩ := structureMethod_ok first
    obtain ⟨methods, rfl, kept, done⟩ := ih distinct later
    refine ⟨methods, rfl, fun other apart => ?_, fun index member method given => ?_⟩
    · rw [List.mem_cons, not_or] at apart
      rw [kept other apart.2, firstKept other apart.1]
    · rcases List.mem_cons.mp member with rfl | member
      · rw [kept index fresh]
        exact firstDone method given
      · have apart : index ≠ head := fun same => fresh (same ▸ member)
        obtain ⟨result, located, structured⟩ := done index member method (by rw [firstKept index apart, given])
        exact ⟨result, located, structured.of_methods⟩

/-- A method that structuring flags keeps its lists, and every node its position. Its kinds change at most where a jump among its
statements was reworked, so that it keeps everything unless such a jump was. -/
theorem structureBodies_intact_iff (config : Config) (file after : ClassFile) (warnings : List Warning) (index : Nat)
    (method failed : Method) (ran : file.structureBodies config = .ok (after, warnings))
    (given : file.methods[index]? = some method) (unflagged : method.flagged = false)
    (left : after.methods[index]? = some failed) (flagged : failed.flagged = true) :
    ∃ code store, method.code = some code ∧
      failed = { method with flagged := true, code := some { code with store } } ∧
      code.store.Reworked (· ∈ code.statements) store ∧
      (code.Intact { code with store } ↔
        ∀ id ∈ code.statements, ∀ kind, code.store.kind? id = some kind → kind.isJump → store.kind? id = some kind) ∧
      ((file.pool.utf8 method.descriptorIndex).toOption = none → code.Intact { code with store }) := by
  have inside : index ∈ List.range file.methods.size := List.mem_range.mpr (Array.getElem?_eq_some_iff.mp given).1
  obtain ⟨methods, rfl, _, done⟩ := structureMethods_ok List.nodup_range ran
  obtain ⟨result, located, structured⟩ := done index inside method given
  rw [located, Option.some_inj] at left
  subst left
  cases structured with
  | skipped => rw [unflagged] at flagged; cases flagged
  | done => rw [unflagged] at flagged; cases flagged
  | failed code kept error _ body outcome =>
    obtain ⟨store, rfl, reworked⟩ := structureCode_failed outcome
    refine ⟨code, store, body, rfl, reworked, Code.intact_iff reworked, fun unreadable => ?_⟩
    cases readable : file.pool.utf8 method.descriptorIndex with
    | ok descriptor => rw [readable] at unreadable; cases unreadable
    | error error =>
      rw [structureCode_unreadable readable] at outcome
      have same : store = code.store := congrArg Code.store (Prod.mk.inj outcome).2.symm
      exact (Code.intact_iff reworked).mpr fun id _ kind found _ => same ▸ found

/-! A branch that becomes an `if` before a block is found whose handler does not exist. -/

def lostHandlerBody : Code where
  store := ⟨#[⟨0, none, .read (.slot .int 0)⟩, ⟨1, none, .branch (.zero .eq 0) 10⟩, ⟨4, none, .bump 1 2⟩,
    ⟨10, none, .bump 1 3⟩, ⟨13, none, .ret none⟩]⟩
  maxLocals := 2
  instructions := [1, 2, 3, 4]
  statements := [1, 2, 3, 4]
  handlers := [⟨10, 13, 50, 0⟩]

def lostHandlerMethod : Method := { nameIndex := 3, descriptorIndex := 4, code := some lostHandlerBody }

def lostHandlerClass : ClassFile where
  thisIndex := 2
  pool := ⟨#[none, some (.utf8 "a/Main"), some (.classInfo 1), some (.utf8 "f"), some (.utf8 "(I)V")]⟩
  methods := #[lostHandlerMethod]

/-- The body afterwards: the branch is inverted, and nothing uses the `if` that was made of it. -/
def lostHandlerRemains : Code :=
  { lostHandlerBody with store := ((lostHandlerBody.store.negate 1).allocate 1 (.ifElse 1 [2] [])).2 }

theorem structureBodies_lostHandlerClass :
    lostHandlerClass.structureBodies {} =
      .ok ({ lostHandlerClass with
          methods := #[{ lostHandlerMethod with flagged := true, code := some lostHandlerRemains }] },
        [.flagged "f" (.structuring (.handlerOutside 50))]) := by
  with_unfolding_all rfl

theorem lostHandler_intact_iff :
    ∃ code store, lostHandlerMethod.code = some code ∧ lostHandlerRemains = { code with store } ∧
      (code.Intact lostHandlerRemains ↔
        ∀ id ∈ code.statements, ∀ kind, code.store.kind? id = some kind → kind.isJump → store.kind? id = some kind) := by
  obtain ⟨code, store, body, same, _, exactly, _⟩ := structureBodies_intact_iff {} lostHandlerClass _ _ 0 lostHandlerMethod _
    structureBodies_lostHandlerClass rfl rfl rfl rfl
  have remains : lostHandlerRemains = { code with store } := Option.some_inj.mp (congrArg Method.code same)
  exact ⟨code, store, body, remains, remains ▸ exactly⟩

/-- The raw list now shows the inverted branch. -/
theorem structureBodies_not_intact :
    ∃ after warnings failed remains, lostHandlerClass.structureBodies {} = .ok (after, warnings) ∧
      lostHandlerMethod.flagged = false ∧ after.methods[0]? = some failed ∧ failed.flagged = true ∧
      lostHandlerMethod.code = some lostHandlerBody ∧ failed.code = some remains ∧ ¬ lostHandlerBody.Intact remains := by
  refine ⟨_, _, _, lostHandlerRemains, structureBodies_lostHandlerClass, rfl, rfl, rfl, rfl, rfl, fun intact => ?_⟩
  have kept := intact.node 1 ⟨1, none, .branch (.zero .eq 0) 10⟩ (.listed 1 (by decide)) rfl
  revert kept
  decide

end ClassFile

end ClassLift
