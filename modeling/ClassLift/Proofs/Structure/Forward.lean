import ClassLift.Proofs.Structure.Construction

/-!
# Structuring keeps the order of execution

A flat list and a structured body are both run for given outcomes of the branches. `Listing.Runs` follows the jumps of the list
and `Store.Executes` the nesting of the body; both collect the statements they pass, up to one that returns or throws.
`Region.build_forward` says that the two agree where all jumps lead forward and structuring left none over.
-/

namespace ClassLift

def Kind.halts : Kind → Bool
  | ret _ | throw _ => true
  | _ => false

inductive Store.Nested (store : Store) : List NodeId → NodeId → Prop
  | listed (body : List NodeId) (id : NodeId) (member : id ∈ body) : Nested store body id
  | inner (body inside : List NodeId) (parent id : NodeId) (kind : Kind) (member : parent ∈ body)
      (found : store.kind? parent = some kind) (isBody : inside ∈ kind.bodies) (nested : Nested store inside id) :
      Nested store body id

/-! ## Tests -/

def Comparison.holds (lhs rhs : Int) : Comparison → Bool
  | eq => lhs = rhs
  | ne => lhs ≠ rhs
  | lt => lhs < rhs
  | ge => rhs ≤ lhs
  | gt => rhs < lhs
  | le => lhs ≤ rhs

theorem Comparison.holds_negate (lhs rhs : Int) (comparison : Comparison) :
    comparison.negate.holds lhs rhs = !comparison.holds lhs rhs := by
  cases comparison <;> simp only [negate, holds, ← decide_not, Decidable.not_not, Int.not_lt, Int.not_le, ne_eq]

/-- What a test comes to if each operand has a value, that of `null` being zero. -/
def Test.holds (value : NodeId → Int) : Test → Bool
  | zero comparison operand => comparison.holds (value operand) 0
  | pair comparison lhs rhs => comparison.holds (value lhs) (value rhs)
  | null comparison operand => comparison.holds (value operand) 0

theorem Test.holds_negate (value : NodeId → Int) (test : Test) : test.negate.holds value = !test.holds value := by
  cases test with
  | zero comparison operand => exact comparison.holds_negate _ _
  | pair comparison lhs rhs => exact comparison.holds_negate _ _
  | null comparison operand => exact comparison.holds_negate _ _

/-- Which tests come out true, and at which branches. A test and its negation never come out alike. -/
structure Verdict where
  decides : NodeId → Test → Bool
  negate : ∀ id test, decides id test.negate = !decides id test

def Verdict.ofValues (value : NodeId → Int) : Verdict := ⟨fun _ => Test.holds value, fun _ => Test.holds_negate value⟩

/-! ## Flat lists -/

/-- What happens at a position: the list is over, a statement ends execution, or execution goes on elsewhere. -/
inductive Move where
  | stop
  | halt (id : NodeId)
  | go (executed : List NodeId) (next : Nat)
  deriving DecidableEq

section Runs

variable (listing : Listing) (store : Store) (verdict : Verdict)

/-- The move at a position, if `verdict` tells which branches are taken. A switch has no meaning here. -/
def Listing.move? (position : Nat) : Option Move :=
  match listing.statements[position]? with
  | none => some .stop
  | some id => (store.kind? id).bind fun kind =>
      match kind with
      | .goto offset => some (.go [] (listing.positionOf offset))
      | .branch test offset => some (.go [] (if verdict.decides id test then listing.positionOf offset else position + 1))
      | .switch .. => none
      | kind => some (if kind.halts then .halt id else .go [id] (position + 1))

inductive Listing.Runs : Nat → List NodeId → Prop
  | stop (position : Nat) (moves : listing.move? store verdict position = some .stop) : Runs position []
  | halt (position : Nat) (id : NodeId) (moves : listing.move? store verdict position = some (.halt id)) : Runs position [id]
  | go (position next : Nat) (executed trace : List NodeId)
      (moves : listing.move? store verdict position = some (.go executed next)) (rest : Runs next trace) :
      Runs position (executed ++ trace)

end Runs

namespace Listing

variable {listing : Listing} {store : Store} {verdict : Verdict} {position : Nat} {id : NodeId} {kind : Kind}

theorem move?_of_outside (outside : listing.size ≤ position) : listing.move? store verdict position = some .stop := by
  have located : listing.statements[position]? = none := Array.getElem?_eq_none outside
  simp [move?, located]

theorem move?_of_not_isJump (verdict : Verdict) (located : listing.statements[position]? = some id) (found : store.kind? id = some kind)
    (noJump : kind.isJump = false) :
    listing.move? store verdict position = some (if kind.halts then .halt id else .go [id] (position + 1)) := by
  simp only [move?, located, found, Option.bind_some]
  cases kind with
  | goto | branch | switch => cases noJump
  | _ => rfl

theorem Runs.deterministic {one other : List NodeId} (first : listing.Runs store verdict position one)
    (second : listing.Runs store verdict position other) : one = other := by
  induction first generalizing other with
  | stop position moves =>
    cases second with
    | stop => rfl
    | halt _ id moves' => cases moves.symm.trans moves'
    | go _ next executed trace moves' => cases moves.symm.trans moves'
  | halt position id moves =>
    cases second with
    | stop _ moves' => cases moves.symm.trans moves'
    | halt _ id' moves' =>
      cases moves.symm.trans moves'
      rfl
    | go _ next executed trace moves' => cases moves.symm.trans moves'
  | go position next executed trace moves rest ih =>
    cases second with
    | stop _ moves' => cases moves.symm.trans moves'
    | halt _ id moves' => cases moves.symm.trans moves'
    | go _ next' executed' trace' moves' rest' =>
      cases moves.symm.trans moves'
      rw [ih rest']

end Listing

/-! ## Structured bodies -/

/-- The value of the condition of an `if`, which is the test of a branch as it stands now. -/
def Store.holds (store : Store) (verdict : Verdict) (condition : NodeId) : Bool :=
  match store.kind? condition with
  | some (.branch test _) => verdict.decides condition test
  | _ => false

inductive Effect where
  | run
  | halt
  | choose (block : List NodeId)
  deriving DecidableEq

section Executes

variable (initial final : Store) (verdict : Verdict)

/-- What a statement does: a node of the store before stands for itself, unless it is still a jump; a new one is an `if`. -/
def Store.effect? (id : NodeId) : Option Effect :=
  (final.kind? id).bind fun kind =>
    if id < initial.size then
      if kind.isJump then none else some (if kind.halts then .halt else .run)
    else
      match kind with
      | .ifElse condition onTrue onFalse => some (.choose (if final.holds verdict condition then onTrue else onFalse))
      | _ => none

inductive Store.Executes : List NodeId → List NodeId → Bool → Prop
  | done : Executes [] [] false
  | run (id : NodeId) (rest trace : List NodeId) (halted : Bool) (effect : initial.effect? final verdict id = some .run)
      (later : Executes rest trace halted) : Executes (id :: rest) (id :: trace) halted
  | halt (id : NodeId) (rest : List NodeId) (effect : initial.effect? final verdict id = some .halt) :
      Executes (id :: rest) [id] true
  | choose (id : NodeId) (block rest inner trace : List NodeId) (halted : Bool)
      (effect : initial.effect? final verdict id = some (.choose block)) (chosen : Executes block inner false)
      (later : Executes rest trace halted) : Executes (id :: rest) (inner ++ trace) halted
  | chooseHalt (id : NodeId) (block rest inner : List NodeId)
      (effect : initial.effect? final verdict id = some (.choose block)) (chosen : Executes block inner true) :
      Executes (id :: rest) inner true

end Executes

namespace Store.Executes

variable {initial final : Store} {verdict : Verdict}

theorem deterministic {body one other : List NodeId} {halted stopped : Bool}
    (first : initial.Executes final verdict body one halted) (second : initial.Executes final verdict body other stopped) :
    one = other ∧ halted = stopped := by
  induction first generalizing other stopped with
  | done =>
    cases second
    exact ⟨rfl, rfl⟩
  | run id rest trace halted effect later ih =>
    cases second with
    | run _ _ trace' _ effect' later' =>
      obtain ⟨rfl, rfl⟩ := ih later'
      exact ⟨rfl, rfl⟩
    | halt _ _ effect' => cases effect.symm.trans effect'
    | choose _ block _ inner trace' _ effect' => cases effect.symm.trans effect'
    | chooseHalt _ block _ _ effect' => cases effect.symm.trans effect'
  | halt id rest effect =>
    cases second with
    | run _ _ trace' _ effect' => cases effect.symm.trans effect'
    | halt => exact ⟨rfl, rfl⟩
    | choose _ block _ inner trace' _ effect' => cases effect.symm.trans effect'
    | chooseHalt _ block _ _ effect' => cases effect.symm.trans effect'
  | choose id block rest inner trace halted effect chosen later ihChosen ihLater =>
    cases second with
    | run _ _ trace' _ effect' => cases effect.symm.trans effect'
    | halt _ _ effect' => cases effect.symm.trans effect'
    | choose _ block' _ inner' trace' _ effect' chosen' later' =>
      cases effect.symm.trans effect'
      obtain ⟨rfl, _⟩ := ihChosen chosen'
      obtain ⟨rfl, rfl⟩ := ihLater later'
      exact ⟨rfl, rfl⟩
    | chooseHalt _ block' _ _ effect' chosen' =>
      cases effect.symm.trans effect'
      cases (ihChosen chosen').2
  | chooseHalt id block rest inner effect chosen ih =>
    cases second with
    | run _ _ trace' _ effect' => cases effect.symm.trans effect'
    | halt _ _ effect' => cases effect.symm.trans effect'
    | choose _ block' _ inner' trace' _ effect' chosen' =>
      cases effect.symm.trans effect'
      cases (ih chosen').2
    | chooseHalt _ block' _ _ effect' chosen' =>
      cases effect.symm.trans effect'
      exact ih chosen'

theorem append {body more trace later : List NodeId} {halted : Bool} (first : initial.Executes final verdict body trace false)
    (second : initial.Executes final verdict more later halted) :
    initial.Executes final verdict (body ++ more) (trace ++ later) halted := by
  generalize goesOn : false = stopped at first
  induction first with
  | done => exact second
  | run id rest trace halted effect _ ih => exact .run id _ _ _ effect (ih goesOn)
  | halt => cases goesOn
  | choose id block rest inner trace halted effect chosen _ _ ih =>
    rw [List.append_assoc]
    exact .choose id block _ inner _ _ effect chosen (ih goesOn)
  | chooseHalt => cases goesOn

theorem append_of_halted {body trace : List NodeId} (more : List NodeId)
    (first : initial.Executes final verdict body trace true) : initial.Executes final verdict (body ++ more) trace true := by
  generalize halts : true = stopped at first
  induction first with
  | done => cases halts
  | run id rest trace halted effect _ ih =>
    subst halts
    exact .run id _ _ _ effect (ih rfl)
  | halt id rest effect => exact .halt id _ effect
  | choose id block rest inner trace halted effect chosen _ _ ih =>
    subst halts
    exact .choose id block _ inner _ _ effect chosen (ih rfl)
  | chooseHalt id block rest inner effect chosen => exact .chooseHalt id block _ inner effect chosen

end Store.Executes

/-! ## Agreement -/

theorem Store.Nested.mono {store : Store} {body wider : List NodeId} {id : NodeId} (nested : store.Nested body id)
    (subset : ∀ statement ∈ body, statement ∈ wider) : store.Nested wider id := by
  cases nested with
  | listed _ _ member => exact .listed wider id (subset id member)
  | inner _ inside parent _ kind member found isBody nested =>
    exact .inner wider inside parent id kind (subset parent member) found isBody nested

namespace Region

section Agrees

variable (listing : Listing) (initial final : Store) (verdict : Verdict)

inductive Agrees (first next : Nat) (out : List NodeId) : Prop
  | halts (trace : List NodeId) (executes : initial.Executes final verdict out trace true)
      (runs : listing.Runs initial verdict first trace)
  | goesOn (trace : List NodeId) (executes : initial.Executes final verdict out trace false)
      (runs : ∀ rest, listing.Runs initial verdict next rest → listing.Runs initial verdict first (trace ++ rest))

end Agrees

section Forward

variable {listing : Listing} {initial final : Store} {verdict : Verdict} {first middle next position : Nat}
variable {out more : List NodeId} {id : NodeId}

theorem Agrees.append (one : Agrees listing initial final verdict first middle out)
    (two : Agrees listing initial final verdict middle next more) :
    Agrees listing initial final verdict first next (out ++ more) := by
  cases one with
  | halts trace executes runs => exact .halts trace (executes.append_of_halted more) runs
  | goesOn trace executes runs =>
    cases two with
    | halts later executesLater runsLater =>
      exact .halts (trace ++ later) (executes.append executesLater) (runs later runsLater)
    | goesOn later executesLater runsLater =>
      refine .goesOn (trace ++ later) (executes.append executesLater) fun rest ran => ?_
      rw [List.append_assoc]
      exact runs _ (runsLater rest ran)

theorem agrees_nil (reaches : ∀ rest, listing.Runs initial verdict next rest → listing.Runs initial verdict first rest) :
    Agrees listing initial final verdict first next [] :=
  .goesOn [] .done reaches

theorem runs_of_gotoTarget? {target : Nat} {rest : List NodeId} (goes : listing.gotoTarget? initial position = some target)
    (ran : listing.Runs initial verdict target rest) : listing.Runs initial verdict position rest := by
  obtain ⟨offset, found, rfl⟩ := Listing.gotoTarget?_eq_some.mp goes
  obtain ⟨id, located, found⟩ := Listing.kindAt?_eq_some.mp found
  refine .go position (listing.positionOf offset) [] rest ?_ ran
  simp [Listing.move?, located, found]

theorem agrees_kept {kind : Kind} (located : listing.statements[position]? = some id) (given : initial.kind? id = some kind)
    (same : final.kind? id = some kind) (noJump : kind.isJump = false) :
    Agrees listing initial final verdict position (position + 1) [id] := by
  have moves := Listing.move?_of_not_isJump verdict located given noJump
  have inside : id < initial.size := Store.lt_size_of_kind? given
  cases halts : kind.halts with
  | true =>
    rw [halts, if_pos rfl] at moves
    exact .halts [id] (.halt id [] (by simp [Store.effect?, same, inside, noJump, halts])) (.halt position id moves)
  | false =>
    rw [halts, if_neg Bool.false_ne_true] at moves
    exact .goesOn [id] (.run id [] [] false (by simp [Store.effect?, same, inside, noJump, halts]) .done)
      fun rest ran => .go position (position + 1) [id] rest moves ran

theorem agrees_chosen {node : NodeId} {test : Test} {offset : Offset} {onTrue onFalse : List NodeId}
    (located : listing.statements[position]? = some id) (given : initial.kind? id = some (.branch test offset))
    (inverted : final.kind? id = some (.branch test.negate offset)) (fresh : initial.size ≤ node)
    (made : final.kind? node = some (.ifElse id onTrue onFalse))
    (ifTrue : Agrees listing initial final verdict (position + 1) next onTrue)
    (ifFalse : Agrees listing initial final verdict (listing.positionOf offset) next onFalse) :
    Agrees listing initial final verdict position next [node] := by
  have value : final.holds verdict id = !verdict.decides id test := by
    simp only [Store.holds, inverted, verdict.negate]
  have effect : initial.effect? final verdict node =
      some (.choose (if !verdict.decides id test then onTrue else onFalse)) := by
    simp [Store.effect?, made, value, Nat.not_lt.mpr fresh]
  have moves : listing.move? initial verdict position =
      some (.go [] (if verdict.decides id test then listing.positionOf offset else position + 1)) := by
    simp [Listing.move?, located, given]
  have chosen : Agrees listing initial final verdict
      (if verdict.decides id test then listing.positionOf offset else position + 1) next
      (if !verdict.decides id test then onTrue else onFalse) := by
    cases verdict.decides id test with
    | true => exact ifFalse
    | false => exact ifTrue
  cases chosen with
  | halts trace executes runs => exact .halts trace (.chooseHalt node _ [] trace effect executes) (.go position _ [] trace moves runs)
  | goesOn trace executes runs =>
    refine .goesOn trace ?_ fun rest ran => .go position _ [] _ moves (runs rest ran)
    rw [← List.append_nil trace]
    exact .choose node _ [] trace [] false effect executes .done

theorem not_placed {loop : Loop} (forward : ∀ source target, listing.targetAt? initial source = some target → source < target)
    (placed : Placed listing initial position loop) : False := by
  have goes {source target : Nat} (leads : listing.gotoTarget? initial source = some target) : source < target := by
    unfold Listing.gotoTarget? at leads
    split at leads
    · exact forward source target leads
    · cases leads
  have tested {condition source : Nat} (tested : Tested listing initial position condition source) : False := by
    cases tested with
    | top source nonempty back branches leaves =>
      have := goes back
      omega
    | bottom test nonempty enters branches back =>
      have := forward _ _ back
      omega
  cases placed with
  | whileDo condition source isTested => exact tested isTested
  | counted condition update isTested => exact tested isTested
  | doWhile source ordered branches back =>
    have := forward _ _ back
    omega
  | forever source ordered back =>
    have := goes back
    omega

theorem Becomes.agrees {context : Context} {stop : Nat}
    (becomes : Becomes listing initial final [] (fun context _ _ _ => context ≠ {}) context first stop next out)
    (outermost : context = {}) (distinct : listing.statements.toList.Nodup)
    (noSwitch : ∀ id ∈ listing.statements, ∀ key default cases, initial.kind? id ≠ some (.switch key default cases))
    (forward : ∀ source target, listing.targetAt? initial source = some target → source < target)
    (structured : ∀ id, final.Nested out id → ∀ kind, final.kind? id = some kind →
      kind.isGoto = false ∧ kind.isBranch = false) :
    Agrees listing initial final verdict first next out := by
  induction becomes with
  | start => exact agrees_nil fun _ ran => ran
  | kept context first stop position out id kind _ inside located given same ih =>
    -- A jump that was kept would still be in the body, which has none.
    refine (ih outermost fun id nested => structured id (nested.mono fun _ => List.mem_append_left _)).append ?_
    have rawFree := structured id (.listed _ id (List.mem_append_right _ List.mem_cons_self)) kind (same distinct)
    refine agrees_kept located given (same distinct) ?_
    cases kind with
    | goto offset => cases rawFree.1
    | branch test offset => cases rawFree.2
    | switch key default cases => exact (noSwitch id (Array.mem_of_getElem? located) key default cases given).elim
    | _ => rfl
  | dropped context first position out _ goes ih =>
    have ways : Agrees listing initial final verdict position (position + 1) [] :=
      agrees_nil fun rest => runs_of_gotoTarget? goes
    have whole := (ih outermost structured).append ways
    rwa [List.append_nil] at whole
  -- Outside of loops and switches nothing is there to leave or to repeat.
  | exited context first stop position out id offset exit _ inside located given exits allowed => exact (allowed outermost).elim
  | guarded context first stop position out id node inner test offset exit _ inside located given same fresh made freshInner
      exits allowed => exact (allowed outermost).elim
  | chosen context first stop position thenEnd last out onTrue onFalse id node test offset _ located given inverted ahead
      divided _ _ fresh made ih ihTrue ihFalse =>
      refine (ih outermost fun id nested => structured id (nested.mono fun _ => List.mem_append_left _)).append ?_
      have inBlock {block : List NodeId} (isBlock : block ∈ [onTrue, onFalse]) (id : NodeId) (nested : final.Nested block id) :=
        structured id (.inner _ block node id _ (List.mem_append_right _ List.mem_cons_self) made isBlock nested)
      have ifTrue := ihTrue outermost (inBlock List.mem_cons_self)
      have ifFalse := ihFalse outermost (inBlock (List.mem_cons_of_mem _ List.mem_cons_self))
      cases divided with
      | single => exact agrees_chosen located given (inverted distinct) fresh made ifTrue ifFalse
      | double last nonempty passes =>
        -- The first block ends before the `goto` that leads over the second one.
        have ways : Agrees listing initial final verdict (listing.positionOf offset - 1) last [] :=
          agrees_nil fun rest => runs_of_gotoTarget? passes
        have whole := ifTrue.append ways
        rw [List.append_nil] at whole
        exact agrees_chosen located given (inverted distinct) fresh made whole ifFalse
  | looped context first stop position loop form out rest body node _ placed => exact (not_placed forward placed).elim
  | switched context first stop position last out id key default cases starts arms _ located given =>
    exact (noSwitch id (Array.mem_of_getElem? located) key default cases given).elim
  | attempted context first stop position bodyEnd after out full body cleanup catches blocks node _ handled =>
    obtain ⟨handler, member, _⟩ := handled
    cases member

end Forward

/-- A list of distinct statements whose jumps all lead forward and a body without jumps that was made of it execute the same
statements in the same order, whatever the tests come to. Each of them executes exactly one sequence. -/
theorem build_forward (store final : Store) (statements body : List NodeId) (maxLocals : Slot) (verdict : Verdict)
    (valid : ∀ id ∈ statements, id < store.size) (distinct : statements.Nodup)
    (noSwitch : ∀ id ∈ statements, ∀ key default cases, store.kind? id ≠ some (.switch key default cases))
    (forward : ∀ position target, (Listing.ofStatements store statements maxLocals).targetAt? store position = some target →
      position < target)
    (built : build store statements [] maxLocals = (.ok body, final))
    (structured : ∀ id, final.Nested body id → ∀ kind, final.kind? id = some kind →
      kind.isGoto = false ∧ kind.isBranch = false) :
    ∃ trace, (∀ other, (Listing.ofStatements store statements maxLocals).Runs store verdict 0 other ↔ other = trace) ∧
      ∀ other, (∃ halted, store.Executes final verdict body other halted) ↔ other = trace := by
  have noExit (context : Context) (position target : Nat) (exit : Exit)
      (_ : context.Within (.ofStatements store statements maxLocals) store position (position + 1))
      (exits : context.jumps.exit? target = some exit.kind) : context ≠ {} := by
    rintro rfl
    cases exits
  have becomes := build_becomes valid noExit built
  generalize ofStatements : Listing.ofStatements store statements maxLocals = listing at becomes forward ⊢
  have same : listing.statements = statements.toArray := by rw [← ofStatements]; rfl
  have size : listing.size = statements.length := by rw [Listing.size, same, List.size_toArray]
  have agrees : Agrees listing store final verdict 0 statements.length body :=
    becomes.agrees rfl (by rw [same]; exact distinct) (by rw [same]; simpa using noSwitch) forward structured
  have ends : listing.Runs store verdict statements.length [] :=
    .stop _ (Listing.move?_of_outside (Nat.le_of_eq size))
  have single {trace : List NodeId} {halted : Bool} (runs : listing.Runs store verdict 0 trace)
      (executes : store.Executes final verdict body trace halted) :
      (∀ other, listing.Runs store verdict 0 other ↔ other = trace) ∧
        ∀ other, (∃ halted, store.Executes final verdict body other halted) ↔ other = trace := by
    refine ⟨fun other => ⟨fun ran => ran.deterministic runs, ?_⟩, fun other => ⟨?_, ?_⟩⟩
    · rintro rfl
      exact runs
    · rintro ⟨stopped, ran⟩
      exact (ran.deterministic executes).1
    · rintro rfl
      exact ⟨halted, executes⟩
  cases agrees with
  | halts trace executes runs => exact ⟨trace, single runs executes⟩
  | goesOn trace executes runs =>
    have whole := runs [] ends
    rw [List.append_nil] at whole
    exact ⟨trace, single whole executes⟩

/-! A branch over a block that jumps over the next one. -/

def alternatives (comparison : Comparison) : Array Node :=
  #[⟨0, none, .read (.slot .int 0)⟩, ⟨1, none, .branch (.zero comparison 0) 20⟩, ⟨4, none, .bump 1 2⟩, ⟨7, none, .goto 30⟩,
    ⟨20, none, .bump 1 3⟩, ⟨30, none, .ret none⟩]

theorem build_alternatives :
    build ⟨alternatives .eq⟩ [1, 2, 3, 4, 5] [] 2 =
      (.ok [6, 5], ⟨(alternatives .ne).push ⟨1, none, .ifElse 1 [2] [4]⟩⟩) := by
  with_unfolding_all rfl

theorem alternatives_forward :
    ∃ trace, (∀ other, (Listing.ofStatements ⟨alternatives .eq⟩ [1, 2, 3, 4, 5] 2).Runs ⟨alternatives .eq⟩
        (.ofValues fun _ => 0) 0 other ↔ other = trace) ∧
      ∀ other, (∃ halted, Store.Executes ⟨alternatives .eq⟩ ⟨(alternatives .ne).push ⟨1, none, .ifElse 1 [2] [4]⟩⟩
        (.ofValues fun _ => 0) [6, 5] other halted) ↔ other = trace := by
  refine build_forward ⟨alternatives .eq⟩ _ [1, 2, 3, 4, 5] [6, 5] 2 (.ofValues fun _ => 0) (by decide) (by decide) ?_ ?_
    build_alternatives ?_
  · intro id member key default cases same
    simp only [List.mem_cons, List.not_mem_nil, or_false] at member
    rcases member with rfl | rfl | rfl | rfl | rfl <;> cases same
  · intro position target leads
    have first : (Listing.ofStatements ⟨alternatives .eq⟩ [1, 2, 3, 4, 5] 2).targetAt? ⟨alternatives .eq⟩ 0 = some 3 := by
      with_unfolding_all rfl
    have third : (Listing.ofStatements ⟨alternatives .eq⟩ [1, 2, 3, 4, 5] 2).targetAt? ⟨alternatives .eq⟩ 2 = some 4 := by
      with_unfolding_all rfl
    rcases position with _ | _ | _ | position
    · cases first.symm.trans leads
      decide
    · cases leads
    · cases third.symm.trans leads
      decide
    · rcases position with _ | _ | position <;> cases leads
  · intro id nested kind found
    have members : id = 6 ∨ id = 5 ∨ id = 2 ∨ id = 4 := by
      have inBlock {block : NodeId} (simple : block = 2 ∨ block = 4)
          (nested : Store.Nested ⟨(alternatives .ne).push ⟨1, none, .ifElse 1 [2] [4]⟩⟩ [block] id) : id = block := by
        cases nested with
        | listed _ _ member => exact List.mem_singleton.mp member
        | inner _ inside parent _ kind member found isBody =>
          cases List.mem_singleton.mp member
          rcases simple with rfl | rfl <;> cases found <;> cases isBody
      cases nested with
      | listed _ _ member =>
        rcases List.mem_cons.mp member with rfl | member
        · exact .inl rfl
        · exact .inr (.inl (List.mem_singleton.mp member))
      | inner _ inside parent _ kind member found isBody nested =>
        rcases List.mem_cons.mp member with rfl | member
        · cases found
          rcases List.mem_cons.mp isBody with rfl | isBody
          · exact .inr (.inr (.inl (inBlock (.inl rfl) nested)))
          · cases List.mem_singleton.mp isBody
            exact .inr (.inr (.inr (inBlock (.inr rfl) nested)))
        · cases List.mem_singleton.mp member
          cases found
          cases isBody
    rcases members with rfl | rfl | rfl | rfl <;> cases found <;> decide

end Region

end ClassLift
