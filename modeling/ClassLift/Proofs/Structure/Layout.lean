import ClassLift.Proofs.Structure.Rework

/-!
# What becomes of a region

`Region.Becomes` relates the flat statements between two positions to the nested statements made of them. It names every
form that structuring can give to a statement, with the positions that its parts come from; nothing in it refers to how the
form is found. A loop is described by `Region.Loop`, and the loop and the switch around a region by `Region.Context`.
-/

namespace ClassLift

namespace Region

/-! ## Loops and their exits -/

inductive Exit where
  | leave
  | again
  deriving DecidableEq

def Exit.kind : Exit → Kind
  | leave => .breakOut
  | again => .continueLoop

theorem Exit.kind_isJump (exit : Exit) : exit.kind.isJump = false := by
  cases exit <;> rfl

inductive LoopShape where
  | whileDo (condition : Nat)
  | doWhile (condition : Nat)
  | counted (condition update : Nat)
  | forever
  deriving DecidableEq

structure Loop where
  shape : LoopShape
  first : Nat
  stop : Nat
  resume : Nat
  deriving DecidableEq

/-- The targets of jumps that are taken for a repetition of the loop. -/
def Loop.accepts (loop : Loop) : List Nat :=
  match loop.shape with
  | .whileDo condition => [condition]
  | .doWhile condition => [condition, loop.first]
  | .counted condition update => [condition, update]
  | .forever => [loop.first]

/-- The innermost loop around a region, and where the innermost loop or switch ends. -/
structure Context where
  loop : Option Loop := none
  resume : Option Nat := none
  deriving DecidableEq

namespace Context

def ofLoop (loop : Loop) : Context := ⟨some loop, some loop.resume⟩

def jumps (context : Context) : Jumps := ⟨context.resume, context.loop.elim [] Loop.accepts⟩

end Context

/-- A loop with a test that one jump leads to or behind: either the test comes first and its branch leaves, or a `goto` leads to
the test behind the body. -/
inductive Tested (listing : Listing) (store : Store) (position : Nat) : Nat → Nat → Prop
  | top (source : Nat) (nonempty : position < source) (back : listing.gotoTarget? store source = some position)
      (branches : listing.isBranchAt store position = true) (leaves : listing.targetAt? store position = some (source + 1)) :
      Tested listing store position position source
  | bottom (test : Nat) (nonempty : position < test) (enters : listing.gotoTarget? store position = some test)
      (branches : listing.isBranchAt store test = true) (back : listing.targetAt? store test = some (position + 1)) :
      Tested listing store position test test

/-- The loop that begins at a position, told by the jumps of the list. -/
inductive Placed (listing : Listing) (store : Store) (position : Nat) : Loop → Prop
  | whileDo (condition source : Nat) (tested : Tested listing store position condition source) :
      Placed listing store position ⟨.whileDo condition, position + 1, source, source + 1⟩
  | counted (condition update : Nat) (tested : Tested listing store position condition (update + 1))
      (nonempty : position < update) :
      Placed listing store position ⟨.counted condition update, position + 1, update, update + 2⟩
  | doWhile (source : Nat) (ordered : position ≤ source) (branches : listing.isBranchAt store source = true)
      (back : listing.targetAt? store source = some position) :
      Placed listing store position ⟨.doWhile source, position, source, source + 1⟩
  | forever (source : Nat) (ordered : position ≤ source) (back : listing.gotoTarget? store source = some position) :
      Placed listing store position ⟨.forever, position, source, source + 1⟩

theorem Tested.lt {listing : Listing} {store : Store} {position condition source : Nat}
    (tested : Tested listing store position condition source) : position < source := by
  cases tested <;> assumption

theorem Placed.bounds {listing : Listing} {store : Store} {position : Nat} {loop : Loop}
    (placed : Placed listing store position loop) :
    position ≤ loop.first ∧ loop.first ≤ loop.stop ∧ loop.stop < loop.resume := by
  cases placed with
  | whileDo condition source tested => exact ⟨Nat.le_succ _, tested.lt, Nat.lt_succ_self _⟩
  | counted condition update tested nonempty => exact ⟨Nat.le_succ _, nonempty, by simp⟩
  | doWhile source ordered => exact ⟨Nat.le_refl _, ordered, Nat.lt_succ_self _⟩
  | forever source ordered => exact ⟨Nat.le_refl _, ordered, Nat.lt_succ_self _⟩

/-- The region lies in the body of the innermost loop, and that loop is there. -/
def Context.Within (context : Context) (listing : Listing) (store : Store) (first stop : Nat) : Prop :=
  ∀ loop ∈ context.loop, (∃ position, Placed listing store position loop) ∧ loop.first ≤ first ∧ stop ≤ loop.stop

namespace Context.Within

variable {context : Context} {listing : Listing} {store : Store} {position first stop lower upper : Nat} {loop : Loop}

theorem narrow (within : context.Within listing store first stop) (le_lower : first ≤ lower) (upper_le : upper ≤ stop) :
    context.Within listing store lower upper :=
  fun loop member => ⟨(within loop member).1, Nat.le_trans (within loop member).2.1 le_lower,
    Nat.le_trans upper_le (within loop member).2.2⟩

theorem ofLoop (placed : Placed listing store position loop) :
    (Context.ofLoop loop).Within listing store loop.first loop.stop := by
  intro other member
  cases member
  exact ⟨⟨position, placed⟩, Nat.le_refl _, Nat.le_refl _⟩

end Context.Within

/-- The nodes of a loop, and the statements before it. A counted loop takes the last one of these in. -/
inductive Controlled (listing : Listing) : LoopShape → LoopForm → List NodeId → List NodeId → Prop
  | whileDo (position : Nat) (condition : NodeId) (out : List NodeId)
      (located : listing.statements[position]? = some condition) :
      Controlled listing (.whileDo position) (.whileDo condition) out out
  | doWhile (position : Nat) (condition : NodeId) (out : List NodeId)
      (located : listing.statements[position]? = some condition) :
      Controlled listing (.doWhile position) (.doWhile condition) out out
  | counted (position updateAt : Nat) (begin condition update : NodeId) (out : List NodeId)
      (located : listing.statements[position]? = some condition)
      (updated : listing.statements[updateAt]? = some update) :
      Controlled listing (.counted position updateAt) (.counted begin condition update) (out ++ [begin]) out
  | forever (out : List NodeId) : Controlled listing .forever .forever out out

/-! ## Blocks -/

/-- The ends of the two blocks of a branch to `target`. The first may end in a jump over the second. -/
inductive Divided (listing : Listing) (store : Store) (position target stop : Nat) : Nat → Nat → Prop
  | single (inside : target ≤ stop) : Divided listing store position target stop target target
  | double (last : Nat) (nonempty : position + 1 < target) (passes : listing.gotoTarget? store (target - 1) = some last)
      (ahead : target < last) (inside : last ≤ stop) : Divided listing store position target stop (target - 1) last

theorem Divided.bounds {listing : Listing} {store : Store} {position target stop thenEnd last : Nat}
    (divided : Divided listing store position target stop thenEnd last) (ahead : position < target) :
    position < thenEnd ∧ thenEnd ≤ target ∧ target ≤ last ∧ last ≤ stop := by
  cases divided <;> omega

structure Block where
  first : Nat
  stop : Nat
  body : List NodeId
  deriving DecidableEq

def armStop (starts : List Nat) (last index : Nat) : Nat := starts[index + 1]?.elim last (min last)

theorem armStop_le (starts : List Nat) (last index : Nat) : armStop starts last index ≤ last := by
  unfold armStop
  cases starts[index + 1]? with
  | none => exact Nat.le_refl _
  | some next => exact Nat.min_le_left _ _

structure IsArm (default last : Nat) (cases : List (Int32 × Nat)) (start : Nat) (arm : SwitchArm) : Prop where
  inside : start < last
  values : arm.values = (cases.filter (·.2 = start)).map (·.1)
  isDefault : arm.isDefault = decide (default = start)

/-! ## Regions -/

section Becomes

variable (listing : Listing) (initial final : Store) (handlers : List Handler)
variable (allows : Context → Nat → Nat → Exit → Prop)

/-- In a region, the statements from `first` up to a position have become a list of statements. `initial` is the store before
and `final` the store after; `allows` tells which jumps of which positions may become exits. A statement that is listed twice
may change again later, so what its node keeps is only told of a list without repetitions. -/
inductive Becomes : Context → Nat → Nat → Nat → List NodeId → Prop
  | start (context : Context) (first stop : Nat) : Becomes context first stop first []
  | kept (context : Context) (first stop position : Nat) (out : List NodeId) (id : NodeId) (kind : Kind)
      (before : Becomes context first stop position out)
      (inside : position < stop) (located : listing.statements[position]? = some id) (given : initial.kind? id = some kind)
      (same : listing.statements.toList.Nodup → final.kind? id = some kind) :
      Becomes context first stop (position + 1) (out ++ [id])
  | dropped (context : Context) (first position : Nat) (out : List NodeId)
      (before : Becomes context first (position + 1) position out)
      (goes : listing.gotoTarget? initial position = some (position + 1)) :
      Becomes context first (position + 1) (position + 1) out
  | exited (context : Context) (first stop position : Nat) (out : List NodeId) (id : NodeId) (offset : Offset) (exit : Exit)
      (before : Becomes context first stop position out)
      (inside : position < stop) (located : listing.statements[position]? = some id)
      (given : initial.kind? id = some (.goto offset)) (exits : final.kind? id = some exit.kind)
      (allowed : allows context position (listing.positionOf offset) exit) :
      Becomes context first stop (position + 1) (out ++ [id])
  | guarded (context : Context) (first stop position : Nat) (out : List NodeId) (id node inner : NodeId) (test : Test)
      (offset : Offset) (exit : Exit)
      (before : Becomes context first stop position out)
      (inside : position < stop) (located : listing.statements[position]? = some id)
      (given : initial.kind? id = some (.branch test offset))
      (same : listing.statements.toList.Nodup → final.kind? id = some (.branch test offset))
      (fresh : initial.size ≤ node) (made : final.kind? node = some (.ifElse id [inner] []))
      (freshInner : initial.size ≤ inner) (exits : final.kind? inner = some exit.kind)
      (allowed : allows context position (listing.positionOf offset) exit) :
      Becomes context first stop (position + 1) (out ++ [node])
  | chosen (context : Context) (first stop position thenEnd last : Nat) (out onTrue onFalse : List NodeId) (id node : NodeId)
      (test : Test) (offset : Offset)
      (before : Becomes context first stop position out)
      (located : listing.statements[position]? = some id) (given : initial.kind? id = some (.branch test offset))
      (inverted : listing.statements.toList.Nodup → final.kind? id = some (.branch test.negate offset))
      (ahead : position < listing.positionOf offset)
      (divided : Divided listing initial position (listing.positionOf offset) stop thenEnd last)
      (ifTrue : Becomes context (position + 1) thenEnd thenEnd onTrue)
      (ifFalse : Becomes context (listing.positionOf offset) last last onFalse)
      (fresh : initial.size ≤ node) (made : final.kind? node = some (.ifElse id onTrue onFalse)) :
      Becomes context first stop last (out ++ [node])
  | looped (context : Context) (first stop position : Nat) (loop : Loop) (form : LoopForm) (out rest body : List NodeId)
      (node : NodeId)
      (before : Becomes context first stop position out)
      (placed : Placed listing initial position loop) (inside : loop.resume ≤ stop)
      (controlled : Controlled listing loop.shape form out rest)
      (repeated : Becomes (.ofLoop loop) loop.first loop.stop loop.stop body)
      (fresh : initial.size ≤ node) (made : final.kind? node = some (.loop form body)) :
      Becomes context first stop loop.resume (rest ++ [node])
  | switched (context : Context) (first stop position last : Nat) (out : List NodeId) (id key : NodeId) (default : Offset)
      (cases : List (Int32 × Offset)) (starts : List Nat) (arms : List SwitchArm)
      (before : Becomes context first stop position out)
      (located : listing.statements[position]? = some id) (given : initial.kind? id = some (.switch key default cases))
      (started : starts = armStarts position stop (listing.positionOf default)
        (cases.map fun (value, target) => (value, listing.positionOf target)))
      (ahead : position < last) (inside : last ≤ stop)
      (isArm : ∀ (index : Nat) arm, arms[index]? = some arm → ∃ start, starts[index]? = some start ∧
        IsArm (listing.positionOf default) last (cases.map fun (value, target) => (value, listing.positionOf target)) start arm)
      (blocks : ∀ (index : Nat) arm start, arms[index]? = some arm → starts[index]? = some start →
        Becomes { context with resume := some last } start
          (armStop starts last index) (armStop starts last index) arm.body)
      (made : listing.statements.toList.Nodup → final.kind? id = some (.switchArms key arms)) :
      Becomes context first stop last (out ++ [id])
  | attempted (context : Context) (first stop position bodyEnd after : Nat) (out full body cleanup : List NodeId)
      (catches : List CatchClause) (blocks : List Block) (node : NodeId)
      (before : Becomes context first stop position out)
      (handled : ∃ handler ∈ handlers, listing.positionOf handler.start = position)
      (ahead : position < after) (inside : after ≤ stop) (bodyInside : bodyEnd ≤ after)
      (tried : Becomes context position bodyEnd bodyEnd full) (shortened : body <+: full)
      (blockInside : ∀ block ∈ blocks, position ≤ block.first ∧ block.stop ≤ after)
      (handles : ∀ block ∈ blocks,
        Becomes context block.first block.stop block.stop block.body)
      (catching : ∀ clause ∈ catches, ∃ block ∈ blocks, clause.body <+: block.body)
      (cleaning : cleanup = [] ∨ ∃ block ∈ blocks, cleanup <+: block.body)
      (fresh : initial.size ≤ node) (made : final.kind? node = some (.tryCatch body catches cleanup)) :
      Becomes context first stop after (out ++ [node])

end Becomes

structure Settled (listing : Listing) (initial : Store) (lower upper : Nat) (before after : Store) : Prop where
  fresh : ∀ node kind, initial.size ≤ node → kind.isJump = false → before.kind? node = some kind →
    after.kind? node = some kind
  exit : ∀ id offset kind, initial.kind? id = some (.goto offset) → kind.isJump = false → before.kind? id = some kind →
    after.kind? id = some kind
  kept : listing.statements.toList.Nodup → ∀ position id kind, lower ≤ position → position < upper →
    listing.statements[position]? = some id → before.kind? id = some kind → after.kind? id = some kind

theorem Settled.narrow {listing : Listing} {initial before after : Store} {lower upper first stop : Nat}
    (settled : Settled listing initial lower upper before after) (le_first : lower ≤ first) (stop_le : stop ≤ upper) :
    Settled listing initial first stop before after := by
  refine ⟨settled.fresh, settled.exit, fun distinct position id kind above below => ?_⟩
  exact settled.kept distinct position id kind (Nat.le_trans le_first above) (Nat.lt_of_lt_of_le below stop_le)

namespace Becomes

variable {listing : Listing} {initial before after : Store} {handlers : List Handler}
variable {allows : Context → Nat → Nat → Exit → Prop} {context : Context} {first stop next lower upper : Nat} {out : List NodeId}

theorem first_le (becomes : Becomes listing initial after handlers allows context first stop next out) : first ≤ next := by
  induction becomes with
  | start => exact Nat.le_refl _
  | kept | dropped | exited | guarded => omega
  | chosen _ _ _ _ _ _ _ _ _ _ _ _ _ _ _ _ _ ahead divided =>
    have := divided.bounds ahead
    omega
  | looped _ _ _ _ _ _ _ _ _ _ _ placed =>
    have := placed.bounds
    omega
  | switched => omega
  | attempted => omega

theorem transport (becomes : Becomes listing initial before handlers allows context first stop next out)
    (settled : Settled listing initial first next before after) :
    Becomes listing initial after handlers allows context first stop next out := by
  induction becomes with
  | start context first stop => exact .start context first stop
  | kept context first stop position out id kind earlier inside located given same ih =>
    have above := earlier.first_le
    exact .kept context first stop position out id kind (ih (settled.narrow (Nat.le_refl _) (by omega))) inside located given
      fun distinct => settled.kept distinct position id kind above (by omega) located (same distinct)
  | dropped context first position out _ goes ih =>
    exact .dropped context first position out (ih (settled.narrow (Nat.le_refl _) (by omega))) goes
  | exited context first stop position out id offset exit _ inside located given exits allowed ih =>
    exact .exited context first stop position out id offset exit (ih (settled.narrow (Nat.le_refl _) (by omega))) inside located
      given (settled.exit id offset exit.kind given exit.kind_isJump exits) allowed
  | guarded context first stop position out id node inner test offset exit earlier inside located given same fresh made freshInner
      exits allowed ih =>
      have above := earlier.first_le
      exact .guarded context first stop position out id node inner test offset exit
        (ih (settled.narrow (Nat.le_refl _) (by omega))) inside located given
        (fun distinct => settled.kept distinct position id _ above (by omega) located (same distinct))
        fresh (settled.fresh node _ fresh rfl made) freshInner (settled.fresh inner _ freshInner exit.kind_isJump exits) allowed
  | chosen context first stop position thenEnd last out onTrue onFalse id node test offset earlier located given inverted ahead
      divided _ _ fresh made ih ihTrue ihFalse =>
      have above := earlier.first_le
      have bounds := divided.bounds ahead
      exact .chosen context first stop position thenEnd last out onTrue onFalse id node test offset
        (ih (settled.narrow (Nat.le_refl _) (by omega))) located given
        (fun distinct => settled.kept distinct position id _ above (by omega) located (inverted distinct)) ahead divided
        (ihTrue (settled.narrow (by omega) (by omega))) (ihFalse (settled.narrow (by omega) (Nat.le_refl _))) fresh
        (settled.fresh node _ fresh rfl made)
  | looped context first stop position loop form out rest body node earlier placed inside controlled _ fresh made ih ihBody =>
    have above := earlier.first_le
    have bounds := placed.bounds
    exact .looped context first stop position loop form out rest body node
      (ih (settled.narrow (Nat.le_refl _) (by omega))) placed inside controlled
      (ihBody (settled.narrow (by omega) (by omega))) fresh (settled.fresh node _ fresh rfl made)
  | switched context first stop position last out id key default cases starts arms earlier located given started ahead inside isArm
      _ made ih ihArms =>
      have above := earlier.first_le
      refine .switched context first stop position last out id key default cases starts arms
        (ih (settled.narrow (Nat.le_refl _) (by omega))) located given started ahead inside isArm
        (fun index arm start isArmAt startsAt => ?_)
        (fun distinct => settled.kept distinct position id _ above (by omega) located (made distinct))
      have behind := (mem_armStarts.mp (started ▸ List.mem_of_getElem? startsAt)).2.1
      exact ihArms index arm start isArmAt startsAt (settled.narrow (by omega) (armStop_le starts last index))
  | attempted context first stop position bodyEnd after out full body cleanup catches blocks node earlier handled ahead inside
      bodyInside _ shortened blockInside _ catching cleaning fresh made ih ihBody ihBlocks =>
      have above := earlier.first_le
      refine .attempted context first stop position bodyEnd after out full body cleanup catches blocks node
        (ih (settled.narrow (Nat.le_refl _) (by omega))) handled ahead inside bodyInside
        (ihBody (settled.narrow above bodyInside)) shortened blockInside (fun block member => ?_) catching cleaning fresh
        (settled.fresh node _ fresh rfl made)
      have bounds := blockInside block member
      exact ihBlocks block member (settled.narrow (by omega) bounds.2)

theorem rework (becomes : Becomes listing initial before handlers allows context first stop next out)
    (reworked : before.Reworked (listing.Covers lower upper) after) (later : next ≤ lower) :
    Becomes listing initial after handlers allows context first stop next out := by
  refine becomes.transport ⟨?_, ?_, ?_⟩
  · exact fun node kind _ noJump found => reworked.kind?_of_not_isJump found noJump
  · exact fun id offset kind _ noJump found => reworked.kind?_of_not_isJump found noJump
  · intro distinct position id kind _ below located found
    exact reworked.kind?_of_earlier distinct located (by omega) found

theorem grow (becomes : Becomes listing initial before handlers allows context first stop next out)
    (grown : ∀ touched, before.Reworked touched after) :
    Becomes listing initial after handlers allows context first stop next out :=
  becomes.rework (grown (listing.Covers next next)) (Nat.le_refl _)

theorem replace {position : Nat} {id key : NodeId} {default : Offset} {cases : List (Int32 × Offset)} {kind : Kind}
    (becomes : Becomes listing initial before handlers allows context first stop next out)
    (given : initial.kind? id = some (.switch key default cases)) (located : listing.statements[position]? = some id)
    (earlier : position < first) :
    Becomes listing initial (before.replace id kind) handlers allows context first stop next out := by
  have other {node : NodeId} {same : Kind} (apart : node ≠ id) (found : before.kind? node = some same) :
      (before.replace id kind).kind? node = some same :=
    (Store.kind?_replace_of_ne apart).trans found
  refine becomes.transport ⟨fun node same fresh _ found => other ?_ found, fun goto offset same goes _ found => other ?_ found, ?_⟩
  · exact Nat.ne_of_gt (Nat.lt_of_lt_of_le (Store.lt_size_of_kind? given) fresh)
  · rintro rfl
    rw [given] at goes
    cases goes
  · intro distinct elsewhere node same above _ locatedNode found
    refine other ?_ found
    rintro rfl
    have := Listing.position_unique distinct located locatedNode
    omega

end Becomes

end Region

end ClassLift
