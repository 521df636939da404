import ClassLift.Proofs.Structure.Layout

namespace ClassLift

/-! ## Jumps of the list before it was reworked -/

namespace Store.Reworked

variable {touched : NodeId → Prop} {initial store : Store} {listing : Listing} {position target : Nat}

theorem kindAt?_before {kind : Kind} (reworked : initial.Reworked touched store)
    (valid : ∀ id ∈ listing.statements, id < initial.size) (found : listing.kindAt? store position = some kind) :
    ∃ earlier, listing.kindAt? initial position = some earlier ∧ earlier.Reworked kind := by
  obtain ⟨id, located, found⟩ := Listing.kindAt?_eq_some.mp found
  obtain ⟨earlier, given, change⟩ := reworked.kind?_before (valid id (Array.mem_of_getElem? located)) found
  exact ⟨earlier, Listing.kindAt?_eq_some.mpr ⟨id, located, given⟩, change⟩

theorem gotoTarget?_before (reworked : initial.Reworked touched store)
    (valid : ∀ id ∈ listing.statements, id < initial.size) (goes : listing.gotoTarget? store position = some target) :
    listing.gotoTarget? initial position = some target := by
  obtain ⟨offset, found, leads⟩ := Listing.gotoTarget?_eq_some.mp goes
  obtain ⟨earlier, given, change⟩ := reworked.kindAt?_before valid found
  rw [change.goto_inv] at given
  exact Listing.gotoTarget?_eq_some.mpr ⟨offset, given, leads⟩

theorem isBranchAt_before (reworked : initial.Reworked touched store)
    (valid : ∀ id ∈ listing.statements, id < initial.size) (branches : listing.isBranchAt store position = true) :
    listing.isBranchAt initial position = true := by
  obtain ⟨test, offset, found⟩ := Listing.isBranchAt_iff.mp branches
  obtain ⟨earlier, given, change⟩ := reworked.kindAt?_before valid found
  rcases change.branch_inv with rfl | rfl
  · exact Listing.isBranchAt_iff.mpr ⟨_, _, given⟩
  · exact Listing.isBranchAt_iff.mpr ⟨_, _, given⟩

theorem targetAt?_before (reworked : initial.Reworked touched store)
    (valid : ∀ id ∈ listing.statements, id < initial.size) (leads : listing.targetAt? store position = some target) :
    listing.targetAt? initial position = some target := by
  obtain ⟨kind, offset, found, aims, leads⟩ := Listing.targetAt?_eq_some.mp leads
  obtain ⟨earlier, given, change⟩ := reworked.kindAt?_before valid found
  refine Listing.targetAt?_eq_some.mpr ⟨earlier, offset, given, ?_, leads⟩
  cases change with
  | kept => exact aims
  | inverted => exact aims
  | leaving => cases aims
  | repeating => cases aims
  | arranged => cases aims

end Store.Reworked

namespace Region

section Construction

variable {listing : Listing} {initial : Store} {handlers : List Handler} {allows : Context → Nat → Nat → Exit → Prop}

structure Visited (listing : Listing) (initial : Store) (handlers : List Handler) (position : Nat) (state : State) : Prop where
  store : initial.Reworked (listing.Covers 0 position) state.store
  handlers : ∀ handler ∈ state.handlers, handler ∈ handlers

theorem Visited.rework {position lower upper next : Nat} {state last : State}
    (visited : Visited listing initial handlers position state) (reworked : State.Reworked listing lower upper state last)
    (position_le : position ≤ next) (upper_le : upper ≤ next) : Visited listing initial handlers next last := by
  refine ⟨?_, fun handler member => visited.handlers handler (reworked.handlers handler member)⟩
  have early := visited.store.widen fun _ covered => covered.widen (Nat.le_refl 0) position_le
  exact early.trans (reworked.store.widen fun _ covered => covered.widen (Nat.zero_le _) upper_le)

theorem Visited.advance {position next : Nat} {state : State} (visited : Visited listing initial handlers position state)
    (position_le : position ≤ next) : Visited listing initial handlers next state :=
  have same : State.Reworked listing 0 0 state state := .refl state
  visited.rework same position_le (Nat.zero_le _)

theorem Visited.kind? {position : Nat} {state : State} {id : NodeId} {kind : Kind}
    (visited : Visited listing initial handlers position state) (valid : ∀ id ∈ listing.statements, id < initial.size)
    (located : listing.statements[position]? = some id) (found : state.store.kind? id = some kind) :
    ∃ earlier, initial.kind? id = some earlier ∧ earlier.Reworked kind ∧
      (listing.statements.toList.Nodup → earlier = kind) := by
  obtain ⟨earlier, given, change⟩ := visited.store.kind?_before (valid id (Array.mem_of_getElem? located)) found
  refine ⟨earlier, given, change, fun distinct => ?_⟩
  obtain ⟨changed, foundAgain, _, untouched⟩ := visited.store.kind? given
  rw [found, Option.some_inj] at foundAgain
  rw [foundAgain, untouched]
  rintro ⟨other, _, below, locatedOther⟩
  have := Listing.position_unique distinct located locatedOther
  omega

theorem Visited.branch {position : Nat} {state : State} {id : NodeId} {test : Test} {offset : Offset}
    (visited : Visited listing initial handlers position state) (valid : ∀ id ∈ listing.statements, id < initial.size)
    (located : listing.statements[position]? = some id) (found : state.store.kind? id = some (.branch test offset)) :
    ∃ original, initial.kind? id = some (.branch original offset) ∧
      (listing.statements.toList.Nodup → original = test) := by
  obtain ⟨earlier, given, change, unchanged⟩ := visited.kind? valid located found
  rcases change.branch_inv with rfl | rfl
  · exact ⟨test, given, fun _ => rfl⟩
  · exact ⟨test.negate, given, fun distinct => (Kind.branch.inj (unchanged distinct)).1⟩

structure Reached (listing : Listing) (initial : Store) (handlers : List Handler)
    (allows : Context → Nat → Nat → Exit → Prop) (context : Context) (first stop next : Nat) (out : List NodeId)
    (state : State) : Prop where
  visited : Visited listing initial handlers next state
  becomes : Becomes listing initial state.store handlers allows context first stop next out

theorem Reached.keep {context : Context} {first stop position : Nat} {out : List NodeId} {statement : NodeId} {state : State}
    (reached : Reached listing initial handlers allows context first stop position out state)
    (valid : ∀ id ∈ listing.statements, id < initial.size) (inside : position < stop)
    (located : listing.statements[position]? = some statement) :
    Reached listing initial handlers allows context first stop (position + 1) (out ++ [statement]) state := by
  have origin : statement < initial.size := valid statement (Array.mem_of_getElem? located)
  obtain ⟨node, found⟩ := Store.node?_isSome (Nat.lt_of_lt_of_le origin reached.visited.store.size_le)
  obtain ⟨earlier, given, _, unchanged⟩ := reached.visited.kind? valid located (Store.kind?_of_node? found)
  refine ⟨reached.visited.advance (Nat.le_succ _), .kept context first stop position out statement earlier reached.becomes
    inside located given fun distinct => ?_⟩
  rw [unchanged distinct, Store.kind?_of_node? found]

structure Handled (listing : Listing) (initial : Store) (handlers : List Handler)
    (allows : Context → Nat → Nat → Exit → Prop) (context : Context) (position after : Nat) (store : Store)
    (blocks : List Block) (catches : List CatchClause) (cleanup : Option (List NodeId)) : Prop where
  placed : ∀ block ∈ blocks, position ≤ block.first ∧ block.stop ≤ after ∧
    Becomes listing initial store handlers allows context block.first block.stop block.stop block.body
  catching : ∀ clause ∈ catches, ∃ block ∈ blocks, clause.body <+: block.body
  cleaning : ∀ body ∈ cleanup, ∃ block ∈ blocks, body <+: block.body

namespace Handled

variable {context : Context} {position lower after : Nat} {store : Store} {block : Block} {blocks : List Block}
variable {catches : List CatchClause} {cleanup : Option (List NodeId)}

theorem widen (handled : Handled listing initial handlers allows context position after store blocks catches cleanup)
    (lower_le : lower ≤ position) : Handled listing initial handlers allows context lower after store blocks catches cleanup :=
  ⟨fun block member => ⟨Nat.le_trans lower_le (handled.placed block member).1, (handled.placed block member).2⟩,
    handled.catching, handled.cleaning⟩

theorem cons (handled : Handled listing initial handlers allows context position after store blocks catches cleanup)
    (becomes : position ≤ block.first ∧ block.stop ≤ after ∧
      Becomes listing initial store handlers allows context block.first block.stop block.stop block.body) :
    Handled listing initial handlers allows context position after store (block :: blocks) catches cleanup := by
  refine ⟨fun other member => ?_, fun clause member => ?_, fun body member => ?_⟩
  · rcases List.mem_cons.mp member with rfl | member
    · exact becomes
    · exact handled.placed other member
  · obtain ⟨found, inBlocks, shortened⟩ := handled.catching clause member
    exact ⟨found, List.mem_cons_of_mem _ inBlocks, shortened⟩
  · obtain ⟨found, inBlocks, shortened⟩ := handled.cleaning body member
    exact ⟨found, List.mem_cons_of_mem _ inBlocks, shortened⟩

end Handled

def Structures (listing : Listing) (initial : Store) (handlers : List Handler)
    (allows : Context → Nat → Nat → Exit → Prop) (bound : Nat) (recur : Recur) : Prop :=
  ∀ context first stop state body last, first ≤ stop → stop ≤ listing.size → stop ≤ first + bound →
    context.Within listing initial first stop → Visited listing initial handlers first state →
    recur first stop context.jumps state = (.ok body, last) →
    Becomes listing initial last.store handlers allows context first stop stop body

/-! ## Primitives -/

theorem exit_of_exit? {jumps : Jumps} {target : Nat} {kind : Kind} (exits : jumps.exit? target = some kind) :
    ∃ exit : Exit, kind = exit.kind := by
  rcases Jumps.exit?_eq_some exits with ⟨rfl, _⟩ | ⟨rfl, _⟩
  · exact ⟨.leave, rfl⟩
  · exact ⟨.again, rfl⟩

theorem allocate_ok {origin node : NodeId} {kind : Kind} {state last : State}
    (ran : allocate origin kind state = (.ok node, last)) :
    state.store.size = node ∧ { state with store := (state.store.allocate origin kind).2 } = last := by
  have made : ((state.store.allocate origin kind).1, { state with store := (state.store.allocate origin kind).2 }) =
      (node, last) := modifyGet_ok.mp ran
  obtain ⟨rfl, rfl⟩ := Prod.mk.inj made
  exact ⟨Store.allocate_fst.symm, rfl⟩

theorem Visited.allocate {position : Nat} {state last : State} {origin node : NodeId} {kind : Kind}
    (visited : Visited listing initial handlers position state) (inside : origin < initial.size)
    (ran : Region.allocate origin kind state = (.ok node, last)) :
    Visited listing initial handlers position last ∧ initial.size ≤ node ∧ last.store.kind? node = some kind ∧
      ∀ touched, state.store.Reworked touched last.store := by
  have grown := visited.store.size_le
  obtain ⟨rfl, rfl⟩ := allocate_ok ran
  have reworked (touched : NodeId → Prop) : state.store.Reworked touched (state.store.allocate origin kind).2 :=
    .allocate state.store origin kind
  exact ⟨⟨visited.store.trans (reworked _), visited.handlers⟩, grown,
    Store.kind?_allocate_self (Nat.lt_of_lt_of_le inside grown), reworked⟩

variable {recur : Recur} {bound : Nat} {context : Context} {first stop position next : Nat} {out result : List NodeId}
variable {state last : State}

section Steps

variable (valid : ∀ id ∈ listing.statements, id < initial.size) (recurs : Recurs listing recur)
variable (structures : Structures listing initial handlers allows bound recur)
variable (sound : ∀ context position target exit, context.Within listing initial position (position + 1) →
  context.jumps.exit? target = some exit.kind → allows context position target exit)

include recurs structures in
theorem recur_becomes {body : List NodeId} (ran : recur first stop context.jumps state = (.ok body, last))
    (visited : Visited listing initial handlers first state) (within : context.Within listing initial first stop)
    (ordered : first ≤ stop) (fits : stop ≤ listing.size) (bounded : stop ≤ first + bound) :
    Visited listing initial handlers stop last ∧
      Becomes listing initial last.store handlers allows context first stop stop body ∧
      State.Reworked listing first stop state last := by
  have reworked := (recurs first stop context.jumps).of_run ran
  exact ⟨visited.rework reworked ordered (Nat.le_refl _),
    structures context first stop state body last ordered fits bounded within visited ran, reworked⟩

/-! ## Jumps -/

include valid recurs structures in
theorem choice_becomes {branch : NodeId} {test : Test} {offset : Offset} {thenEnd ends : Nat}
    (reached : Reached listing initial handlers allows context first stop position out state)
    (within : context.Within listing initial position stop) (fits : stop ≤ listing.size)
    (bounded : stop ≤ position + 1 + bound) (located : listing.statements[position]? = some branch)
    (found : state.store.kind? branch = some (.branch test offset)) (ahead : position < listing.positionOf offset)
    (divided : Divided listing initial position (listing.positionOf offset) stop thenEnd ends)
    (ran : (do
      negate branch
      let onTrue ← recur (position + 1) thenEnd context.jumps
      let onFalse ← recur (listing.positionOf offset) ends context.jumps
      return (ends, out ++ [← allocate branch (.ifElse branch onTrue onFalse)]) : Build (Nat × List NodeId)) state =
        (.ok (next, result), last)) :
    Reached listing initial handlers allows context first stop next result last := by
  have origin : branch < initial.size := valid branch (Array.mem_of_getElem? located)
  have bounds := divided.bounds ahead
  obtain ⟨original, given, unchanged⟩ := reached.visited.branch valid located found
  obtain ⟨_, negated, negates, ran⟩ := bind_ok.mp ran
  obtain ⟨onTrue, between, ranTrue, ran⟩ := bind_ok.mp ran
  obtain ⟨onFalse, later, ranFalse, ran⟩ := bind_ok.mp ran
  obtain ⟨node, final, allocates, ran⟩ := bind_ok.mp ran
  obtain ⟨⟨rfl, rfl⟩, rfl⟩ := pure_pair_ok.mp ran
  have inverting := (negate_reworks (Nat.le_refl position) (Nat.lt_succ_self position) located).of_run negates
  have visited := reached.visited.rework inverting (Nat.le_succ _) (Nat.le_refl _)
  obtain ⟨visited, ifTrue, reworkedTrue⟩ := recur_becomes recurs structures ranTrue visited
    (within.narrow (by omega) (by omega)) (by omega) (by omega) (by omega)
  have visited := visited.advance bounds.2.1
  obtain ⟨visited, ifFalse, reworkedFalse⟩ := recur_becomes recurs structures ranFalse visited
    (within.narrow (by omega) (by omega)) (by omega) (by omega) (by omega)
  obtain ⟨visited, fresh, made, grown⟩ := visited.allocate origin allocates
  have blocks : negated.store.Reworked (listing.Covers (position + 1) stop) final.store :=
    ((reworkedTrue.widen (Nat.le_refl _) (by omega)).trans (reworkedFalse.widen (by omega) bounds.2.2.2)).store.trans (grown _)
  refine ⟨visited, .chosen context first stop position thenEnd ends out onTrue onFalse branch node original offset ?_ located given
    (fun distinct => ?_) ahead divided ?_ (ifFalse.grow grown) fresh made⟩
  · exact reached.becomes.rework ((inverting.store.widen fun _ covered => covered.widen (Nat.le_refl _) (by omega)).trans
      (blocks.widen fun _ covered => covered.widen (Nat.le_succ _) (Nat.le_refl stop))) (Nat.le_refl _)
  · refine blocks.kind?_of_earlier distinct located (Nat.lt_succ_self _) ?_
    rw [← modify_ok.mp negates, Store.kind?_negate_self, found, ← unchanged distinct]
    rfl
  · exact ifTrue.rework (reworkedFalse.store.trans (grown _)) bounds.2.1

include valid recurs structures sound in
theorem conditional_becomes {branch : NodeId} {test : Test} {offset : Offset}
    (reached : Reached listing initial handlers allows context first stop position out state)
    (within : context.Within listing initial position stop) (inside : position < stop) (fits : stop ≤ listing.size)
    (bounded : stop ≤ position + 1 + bound) (located : listing.statements[position]? = some branch)
    (found : state.store.kind? branch = some (.branch test offset))
    (ran : conditional listing recur position stop context.jumps out branch (listing.positionOf offset) state =
      (.ok (next, result), last)) :
    Reached listing initial handlers allows context first stop next result last := by
  have origin : branch < initial.size := valid branch (Array.mem_of_getElem? located)
  obtain ⟨original, given, unchanged⟩ := reached.visited.branch valid located found
  unfold conditional at ran
  by_cases ahead : position < listing.positionOf offset ∧ listing.positionOf offset ≤ stop
  · rw [if_pos (by simpa using ahead), run_get_bind] at ran
    cases ends : listing.elseEnd? state.store position (listing.positionOf offset) stop with
    | none =>
      simp only [ends] at ran
      exact choice_becomes valid recurs structures reached within fits bounded located found ahead.1 (.single ahead.2) ran
    | some beyond =>
      simp only [ends] at ran
      obtain ⟨long, goes, past, fitsOver⟩ := Listing.elseEnd?_eq_some ends
      exact choice_becomes valid recurs structures reached within fits bounded located found ahead.1
        (.double beyond long (reached.visited.store.gotoTarget?_before valid goes) past fitsOver) ran
  · rw [if_neg (by simpa using ahead)] at ran
    cases exits : context.jumps.exit? (listing.positionOf offset) with
    | none =>
      simp only [exits] at ran
      obtain ⟨⟨rfl, rfl⟩, rfl⟩ := pure_pair_ok.mp ran
      exact reached.keep valid inside located
    | some kind =>
      simp only [exits] at ran
      obtain ⟨inner, between, allocatesInner, ran⟩ := bind_ok.mp ran
      obtain ⟨node, final, allocates, ran⟩ := bind_ok.mp ran
      obtain ⟨⟨rfl, rfl⟩, rfl⟩ := pure_pair_ok.mp ran
      obtain ⟨exit, rfl⟩ := exit_of_exit? exits
      obtain ⟨visited, freshInner, madeInner, grownInner⟩ := reached.visited.allocate origin allocatesInner
      obtain ⟨visited, fresh, made, grown⟩ := visited.allocate origin allocates
      refine ⟨visited.advance (Nat.le_succ _), .guarded context first stop position out branch node inner original offset exit
        ((reached.becomes.grow grownInner).grow grown) inside located given (fun distinct => ?_) fresh made freshInner ?_
        (sound context position _ exit (within.narrow (Nat.le_refl _) inside) exits)⟩
      · have kept := (grownInner (fun _ => False)).trans (grown _)
        obtain ⟨changed, foundAfter, _, untouched⟩ := kept.kind? found
        rw [foundAfter, untouched id, unchanged distinct]
      · exact (grown (fun _ => False)).kind?_of_not_isJump madeInner exit.kind_isJump

include valid sound in
theorem jump_becomes {statement : NodeId} {offset : Offset}
    (reached : Reached listing initial handlers allows context first stop position out state)
    (within : context.Within listing initial position stop) (inside : position < stop)
    (located : listing.statements[position]? = some statement)
    (found : state.store.kind? statement = some (.goto offset))
    (ran : jump position stop context.jumps out statement (listing.positionOf offset) state = (.ok result, last)) :
    Reached listing initial handlers allows context first stop (position + 1) result last := by
  have reworked : State.Reworked listing position (position + 1) state
      (jump position stop context.jumps out statement (listing.positionOf offset) state).2 :=
    jump_reworks context.jumps out state (Nat.lt_succ_self position) located found
  rw [ran] at reworked
  refine ⟨reached.visited.rework reworked (Nat.le_succ _) (Nat.le_refl _), ?_⟩
  obtain ⟨earlier, given, change, unchanged⟩ := reached.visited.kind? valid located found
  rw [change.goto_inv] at given
  unfold jump at ran
  by_cases falls : listing.positionOf offset = stop ∧ position + 1 = stop
  · rw [if_pos falls] at ran
    obtain ⟨rfl, rfl⟩ := pure_ok.mp ran
    obtain ⟨leads, rfl⟩ := falls
    refine .dropped context first position out reached.becomes (Listing.gotoTarget?_eq_some.mpr ⟨offset, ?_, leads⟩)
    exact Listing.kindAt?_eq_some.mpr ⟨statement, located, given⟩
  · rw [if_neg falls] at ran
    cases exits : context.jumps.exit? (listing.positionOf offset) with
    | none =>
      simp only [exits] at ran
      obtain ⟨rfl, rfl⟩ := pure_ok.mp ran
      exact (reached.keep valid inside located).becomes
    | some kind =>
      simp only [exits] at ran
      obtain ⟨_, replaced, replaces, ran⟩ := bind_ok.mp ran
      obtain ⟨rfl, rfl⟩ := pure_ok.mp ran
      obtain ⟨exit, rfl⟩ := exit_of_exit? exits
      refine .exited context first stop position out statement offset exit
        (reached.becomes.rework reworked.store (Nat.le_refl _)) inside located given ?_
        (sound context position _ exit (within.narrow (Nat.le_refl _) inside) exits)
      rw [← modify_ok.mp replaces]
      exact Store.kind?_replace_self (Store.lt_size_of_kind? found)

/-! ## Loops -/

include recurs structures in
theorem loop_becomes {loop : Loop} {form : LoopForm} {rest body : List NodeId} {origin node : NodeId} {between : State}
    (visited : Visited listing initial handlers loop.first state)
    (becomes : Becomes listing initial state.store handlers allows context first stop position out)
    (placed : Placed listing initial position loop) (inside : loop.resume ≤ stop) (fits : stop ≤ listing.size)
    (bounded : stop ≤ position + 1 + bound) (controlled : Controlled listing loop.shape form out rest)
    (given : origin < initial.size)
    (ranBody : recur loop.first loop.stop (Context.ofLoop loop).jumps state = (.ok body, between))
    (allocates : allocate origin (.loop form body) between = (.ok node, last)) :
    Reached listing initial handlers allows context first stop loop.resume (rest ++ [node]) last := by
  have bounds := placed.bounds
  obtain ⟨visited, repeated, reworked⟩ := recur_becomes recurs structures ranBody visited (.ofLoop placed) bounds.2.1
    (by omega) (by omega)
  obtain ⟨visited, fresh, made, grown⟩ := visited.allocate given allocates
  exact ⟨visited.advance (Nat.le_of_lt bounds.2.2), .looped context first stop position loop form out rest body node
    ((becomes.rework reworked.store bounds.1).grow grown) placed inside controlled (repeated.grow grown) fresh made⟩

include valid recurs structures in
theorem whileLoop_becomes {condition : NodeId} {conditionAt source : Nat}
    (visited : Visited listing initial handlers (position + 1) state)
    (becomes : Becomes listing initial state.store handlers allows context first stop position out)
    (tested : Tested listing initial position conditionAt source)
    (located : listing.statements[conditionAt]? = some condition) (inside : source < stop) (fits : stop ≤ listing.size)
    (bounded : stop ≤ position + 1 + bound)
    (ran : whileLoop listing recur (position + 1) source condition conditionAt (source + 1) out state =
      (.ok result, last)) :
    Reached listing initial handlers allows context first stop (source + 1) result last := by
  have origin : condition < initial.size := valid condition (Array.mem_of_getElem? located)
  unfold whileLoop at ran
  rw [run_get_bind] at ran
  cases counts : countedParts? listing state.store (position + 1) source condition out with
  | some parts =>
    obtain ⟨begin, update⟩ := parts
    obtain ⟨updateAbove, rfl, isLast, _⟩ := countedParts?_eq_some counts
    obtain ⟨rest, rfl⟩ := List.getLast?_eq_some_iff.mp isLast
    have updateInside : update < listing.statements.size := Nat.lt_of_lt_of_le (by omega) fits
    have updated := Array.getElem?_eq_getElem updateInside
    simp only [counts, updated, List.dropLast_concat] at ran
    obtain ⟨body, between, ranBody, ran⟩ := bind_ok.mp ran
    obtain ⟨node, final, allocates, ran⟩ := bind_ok.mp ran
    obtain ⟨rfl, rfl⟩ := pure_ok.mp ran
    exact loop_becomes recurs structures visited becomes (.counted conditionAt update tested updateAbove) inside fits bounded
      (.counted conditionAt update begin condition _ rest located updated) origin ranBody allocates
  | none =>
    simp only [counts] at ran
    obtain ⟨body, between, ranBody, ran⟩ := bind_ok.mp ran
    obtain ⟨node, final, allocates, ran⟩ := bind_ok.mp ran
    obtain ⟨rfl, rfl⟩ := pure_ok.mp ran
    exact loop_becomes recurs structures visited becomes (.whileDo conditionAt source tested) inside fits bounded
      (.whileDo conditionAt condition out located) origin ranBody allocates

include valid recurs structures in
theorem backEdgeLoop_becomes {source : Nat}
    (reached : Reached listing initial handlers allows context first stop position out state)
    (ordered : position ≤ source) (inside : source < stop) (fits : stop ≤ listing.size)
    (bounded : stop ≤ position + 1 + bound) (back : listing.targetAt? state.store source = some position)
    (ran : backEdgeLoop listing recur position source out state = (.ok (next, result), last)) :
    Reached listing initial handlers allows context first stop next result last := by
  have positionInside : position < listing.statements.size := Nat.lt_of_lt_of_le (by omega) fits
  have sourceInside : source < listing.statements.size := Nat.lt_of_lt_of_le inside fits
  have located := Array.getElem?_eq_getElem positionInside
  have locatedSource := Array.getElem?_eq_getElem sourceInside
  have origin (at_ : Nat) (within : at_ < listing.statements.size) : listing.statements[at_] < initial.size :=
    valid _ (Array.getElem_mem within)
  have reworked := reached.visited.store
  unfold backEdgeLoop at ran
  simp only [located, locatedSource] at ran
  rw [run_get_bind] at ran
  cases bottom : listing.isBranchAt state.store source with
  | true =>
    simp only [bottom, if_true] at ran
    obtain ⟨body, between, ranBody, ran⟩ := bind_ok.mp ran
    obtain ⟨node, final, allocates, ran⟩ := bind_ok.mp ran
    obtain ⟨⟨rfl, rfl⟩, rfl⟩ := pure_pair_ok.mp ran
    exact loop_becomes recurs structures reached.visited reached.becomes
      (.doWhile source ordered (reworked.isBranchAt_before valid bottom) (reworked.targetAt?_before valid back))
      inside fits bounded (.doWhile source _ out locatedSource) (origin source sourceInside) ranBody allocates
  | false =>
    have goes : listing.gotoTarget? initial source = some position :=
      reworked.gotoTarget?_before valid (Listing.gotoTarget?_of_not_branch back bottom)
    simp only [bottom, Bool.false_eq_true, if_false] at ran
    by_cases top : listing.isBranchAt state.store position = true ∧ listing.targetAt? state.store position = some (source + 1)
    · rw [if_pos (by simpa using top)] at ran
      obtain ⟨_, negated, negates, ran⟩ := bind_ok.mp ran
      obtain ⟨whole, final, ranLoop, ran⟩ := bind_ok.mp ran
      obtain ⟨⟨rfl, rfl⟩, rfl⟩ := pure_pair_ok.mp ran
      have inverting := (negate_reworks (Nat.le_refl position) (Nat.lt_succ_self position) located).of_run negates
      have apart : position ≠ source := fun same => by
        rw [← same, top.1] at bottom
        cases bottom
      exact whileLoop_becomes valid recurs structures (reached.visited.rework inverting (Nat.le_succ _) (Nat.le_refl _))
        (reached.becomes.rework inverting.store (Nat.le_refl _))
        (.top source (by omega) goes (reworked.isBranchAt_before valid top.1) (reworked.targetAt?_before valid top.2))
        located inside fits bounded ranLoop
    · rw [if_neg (by simpa using top)] at ran
      obtain ⟨body, between, ranBody, ran⟩ := bind_ok.mp ran
      obtain ⟨node, final, allocates, ran⟩ := bind_ok.mp ran
      obtain ⟨⟨rfl, rfl⟩, rfl⟩ := pure_pair_ok.mp ran
      exact loop_becomes recurs structures reached.visited reached.becomes (.forever source ordered goes) inside fits bounded
        (.forever out) (origin position positionInside) ranBody allocates

/-! ## Switches -/

include recurs structures in
theorem arms_become {default ends : Nat} {cases : List (Int32 × Nat)} {starts : List Nat} {arms : List SwitchArm}
    (visited : Visited listing initial handlers position state) (within : context.Within listing initial position stop)
    (increasing : starts.Pairwise (· < ·)) (above : ∀ start ∈ starts, position ≤ start) (ordered : position ≤ ends)
    (inside : ends ≤ stop) (fits : stop ≤ listing.size) (bounded : stop ≤ position + bound)
    (ran : Region.arms recur default ends cases context.jumps starts state = (.ok arms, last)) :
    Visited listing initial handlers ends last ∧
      (∀ (index : Nat) arm, arms[index]? = some arm →
        ∃ start, starts[index]? = some start ∧ IsArm default ends cases start arm) ∧
      ∀ (index : Nat) arm start, arms[index]? = some arm → starts[index]? = some start →
        Becomes listing initial last.store handlers allows context start (armStop starts ends index)
          (armStop starts ends index) arm.body := by
  induction starts generalizing position state arms with
  | nil =>
    obtain ⟨rfl, rfl⟩ := pure_ok.mp ran
    exact ⟨visited.advance ordered, by simp, by simp⟩
  | cons start rest ih =>
    unfold Region.arms at ran
    by_cases outside : ends ≤ start
    · rw [if_pos outside] at ran
      obtain ⟨rfl, rfl⟩ := pure_ok.mp ran
      exact ⟨visited.advance ordered, by simp, by simp⟩
    · rw [if_neg outside] at ran
      obtain ⟨body, between, ranBody, ran⟩ := bind_ok.mp ran
      obtain ⟨others, final, ranOthers, ran⟩ := bind_ok.mp ran
      obtain ⟨rfl, rfl⟩ := pure_ok.mp ran
      have startAbove := above start List.mem_cons_self
      have isStop : rest.head?.elim ends (min ends) = armStop (start :: rest) ends 0 := by
        rw [List.head?_eq_getElem?]
        rfl
      have stopBounds := armEnd_bounds increasing (Nat.le_of_not_le outside)
      rw [isStop] at ranBody stopBounds
      obtain ⟨visited, becomes, _⟩ := recur_becomes recurs structures ranBody (visited.advance startAbove)
        (within.narrow startAbove (by omega)) stopBounds.1 (by omega) (by omega)
      have reworked := (arms_reworks recurs default ends cases context.jumps rest stopBounds.2.2).of_run ranOthers
      obtain ⟨visited, isArm, blocks⟩ := ih visited (within.narrow (by omega) (Nat.le_refl _))
        (List.pairwise_cons.mp increasing).2 stopBounds.2.2 stopBounds.2.1 (by omega) ranOthers
      refine ⟨visited, fun index arm isAt => ?_, fun index arm startAt isAt starts => ?_⟩
      · cases index with
        | zero =>
          cases isAt
          exact ⟨start, rfl, by omega, rfl, rfl⟩
        | succ index => exact isArm index arm isAt
      · cases index with
        | zero =>
          cases isAt
          cases starts
          exact becomes.rework reworked.store (Nat.le_refl _)
        | succ index => exact blocks index arm startAt isAt starts

include valid recurs structures in
theorem switch_becomes {statement key : NodeId} {default : Offset} {cases : List (Int32 × Offset)}
    (reached : Reached listing initial handlers allows context first stop position out state)
    (within : context.Within listing initial position stop) (inside : position < stop) (fits : stop ≤ listing.size)
    (bounded : stop ≤ position + 1 + bound) (located : listing.statements[position]? = some statement)
    (found : state.store.kind? statement = some (.switch key default cases))
    (ran : switch listing recur position stop context.jumps out statement key default cases state =
      (.ok (next, result), last)) :
    Reached listing initial handlers allows context first stop next result last := by
  have reworked := switch_reworks recurs context.jumps out state inside located found
  rw [ran] at reworked
  obtain ⟨earlier, given, change, unchanged⟩ := reached.visited.kind? valid located found
  rw [change.switch_inv] at given
  unfold switch at ran
  simp only at ran
  generalize mapped : cases.map _ = casesAt at ran
  generalize started : armStarts position stop (listing.positionOf default) casesAt = starts at ran
  cases isLast : starts.getLast? with
  | none =>
    simp only [isLast] at ran
    obtain ⟨⟨rfl, rfl⟩, rfl⟩ := pure_pair_ok.mp ran
    exact reached.keep valid inside located
  | some lastStart =>
    simp only [isLast] at ran
    rw [run_get_bind] at ran
    have starting {start : Nat} (member : start ∈ starts) : position < start ∧ start ≤ stop :=
      (mem_armStarts.mp (started ▸ member)).2
    have lastBounds := starting (List.mem_of_getLast? isLast)
    have ends := switchEnd_bounds listing state.store position (listing.positionOf default) casesAt lastBounds.2
    generalize switchEnd listing state.store position stop (listing.positionOf default) casesAt lastStart = beyond at ran ends
    obtain ⟨arms, between, ranArms, ran⟩ := bind_ok.mp ran
    obtain ⟨_, replaced, replaces, ran⟩ := bind_ok.mp ran
    obtain ⟨⟨rfl, rfl⟩, rfl⟩ := pure_pair_ok.mp ran
    have increasing : starts.Pairwise (· < ·) := started ▸ (armStarts_increasing _ _ _ _).1
    have withinArms : { context with resume := some beyond }.Within listing initial (position + 1) stop :=
      within.narrow (Nat.le_succ _) (Nat.le_refl _)
    obtain ⟨visited, isArm, blocks⟩ := arms_become recurs structures
      (reached.visited.advance (Nat.le_succ position)) withinArms increasing
      (fun start member => (starting member).1) (by omega) ends.2 fits bounded ranArms
    have replacing := modify_ok.mp replaces
    subst mapped
    refine ⟨⟨?_, ?_⟩, .switched context first stop position beyond out statement key default cases starts arms
      (reached.becomes.rework reworked.store (Nat.le_refl _)) located given started.symm (by omega) ends.2 isArm
      (fun index arm start isAt startsAt => ?_) (fun _ => ?_)⟩
    · rw [← replacing]
      refine visited.store.replace ⟨position, Nat.zero_le _, by omega, located⟩ fun earlier foundEarlier => ?_
      rw [given, Option.some_inj] at foundEarlier
      subst foundEarlier
      exact .arranged key default cases arms
    · rw [← replacing]
      exact visited.handlers
    · rw [← replacing]
      have behind := (starting (List.mem_of_getElem? startsAt)).1
      exact (blocks index arm start isAt startsAt).replace given located behind
    · rw [← replacing]
      have grown := visited.store.size_le
      exact Store.kind?_replace_self (Nat.lt_of_lt_of_le (Store.lt_size_of_kind? given) grown)

/-! ## Protected blocks -/

theorem takeHandlers_ok {protectedStop : Offset} {found : List (Nat × Handler)}
    (ran : takeHandlers listing position protectedStop state = (.ok found, last)) :
    found.Pairwise (fun one other => one.1 < other.1) ∧ last.store = state.store ∧
      ∀ handler ∈ last.handlers, handler ∈ state.handlers := by
  have taken := modifyGet_ok.mp ran
  obtain ⟨rfl, rfl⟩ := Prod.mk.inj taken
  refine ⟨(firstOfRuns_increasing none _ ?_ (by simp)).1, rfl, fun handler member => (List.mem_filter.mp member).1⟩
  exact mergeSort_ordered (fun entry : Nat × Handler => entry.1) _

theorem first_le_entries {start : Nat} {handler : Handler} {others : List (Nat × Handler)}
    (increasing : ((start, handler) :: others).Pairwise fun one other => one.1 < other.1) :
    ∀ entry ∈ (start, handler) :: others, start ≤ entry.1 := by
  intro entry member
  rcases List.mem_cons.mp member with rfl | member
  · exact Nat.le_refl _
  · exact Nat.le_of_lt ((List.pairwise_cons.mp increasing).1 entry member)

theorem entries_le_last {start : Nat} {handler : Handler} {others : List (Nat × Handler)}
    (increasing : ((start, handler) :: others).Pairwise fun one other => one.1 < other.1) :
    ∀ entry ∈ (start, handler) :: others, entry.1 ≤ (others.map (·.1)).getLast?.getD start := by
  induction others generalizing start handler with
  | nil => simp
  | cons next rest ih =>
    obtain ⟨nextStart, nextHandler⟩ := next
    obtain ⟨least, increasing⟩ := List.pairwise_cons.mp increasing
    have isLast : (((nextStart, nextHandler) :: rest).map (·.1)).getLast?.getD start =
        (rest.map (·.1)).getLast?.getD nextStart := by
      rw [List.map_cons, List.getLast?_cons]
      rfl
    rw [isLast]
    intro entry member
    rcases List.mem_cons.mp member with rfl | member
    · exact Nat.le_trans (Nat.le_of_lt (least _ List.mem_cons_self)) (ih increasing _ List.mem_cons_self)
    · exact ih increasing entry member

theorem withoutCleanup_shortens (store : Store) (cleanup body : List NodeId) : withoutCleanup store cleanup body <+: body := by
  unfold withoutCleanup
  simp only
  split
  · exact List.take_prefix _ _
  · exact List.prefix_rfl

include recurs structures in
theorem clauses_become {after : Nat} {found : List (Nat × Handler)} {catches : List CatchClause}
    {cleanup : Option (List NodeId)} (visited : Visited listing initial handlers position state)
    (within : context.Within listing initial position stop)
    (increasing : found.Pairwise fun one other => one.1 < other.1) (above : ∀ entry ∈ found, position ≤ entry.1)
    (below : ∀ entry ∈ found, entry.1 < after) (ordered : position ≤ after) (inside : after ≤ stop)
    (fits : stop ≤ listing.size) (bounded : stop ≤ position + bound)
    (ran : clauses listing recur after context.jumps found state = (.ok (catches, cleanup), last)) :
    Visited listing initial handlers after last ∧
      ∃ blocks, Handled listing initial handlers allows context position after last.store blocks catches cleanup := by
  induction found generalizing position state catches cleanup with
  | nil =>
    obtain ⟨⟨rfl, rfl⟩, rfl⟩ := pure_pair_ok.mp ran
    exact ⟨visited.advance ordered, [], by simp, by simp, by simp⟩
  | cons head rest ih =>
    obtain ⟨start, handler⟩ := head
    obtain ⟨least, increasing⟩ := List.pairwise_cons.mp increasing
    have startAbove : position ≤ start := above _ List.mem_cons_self
    have startBelow : start < after := below _ List.mem_cons_self
    have restBelow : ∀ entry ∈ rest, entry.1 < after := fun entry member => below entry (List.mem_cons_of_mem _ member)
    have ends : start < (rest.head?.map (·.1)).getD after ∧ (rest.head?.map (·.1)).getD after ≤ after ∧
        ∀ entry ∈ rest, (rest.head?.map (·.1)).getD after ≤ entry.1 := by
      cases rest with
      | nil => exact ⟨startBelow, Nat.le_refl _, by simp⟩
      | cons next others =>
        refine ⟨least next List.mem_cons_self, Nat.le_of_lt (restBelow next List.mem_cons_self), fun entry member => ?_⟩
        rcases List.mem_cons.mp member with rfl | member
        · exact Nat.le_refl _
        · exact Nat.le_of_lt ((List.pairwise_cons.mp increasing).1 entry member)
    unfold clauses at ran
    rw [run_get_bind] at ran
    simp only at ran
    generalize (rest.head?.map (·.1)).getD after = nextStart at ran ends
    have upper := Listing.withoutJump_le listing state.store start nextStart after
    have lower := Listing.le_withoutJump listing state.store after ends.1
    generalize listing.withoutJump state.store start nextStart after = blockStop at ran upper lower
    have exception := (exceptionSlot_position listing state.store start).1
    obtain ⟨body, between, ranBody, ran⟩ := bind_ok.mp ran
    generalize (exceptionSlot listing state.store start).2 = bodyStart at ranBody exception
    obtain ⟨visited, becomes, _⟩ := recur_becomes recurs structures ranBody (visited.advance (by omega))
      (within.narrow (by omega) (by omega)) (Nat.min_le_right _ _) (by omega) (by omega)
    have visited := visited.advance upper
    -- The remaining handlers stand behind this one, so that its block outlives them.
    have remaining {catches : List CatchClause} {cleanup : Option (List NodeId)}
        (ranRest : clauses listing recur after context.jumps rest between = (.ok (catches, cleanup), last)) :
        Visited listing initial handlers after last ∧ ∃ blocks, Handled listing initial handlers allows context position after
          last.store (⟨min bodyStart blockStop, blockStop, body⟩ :: blocks) catches cleanup := by
      have reworked := (clauses_reworks recurs nextStart context.jumps rest inside ends.2.1
        (fun entry member => ⟨ends.2.2 entry member, Nat.lt_of_lt_of_le (restBelow entry member) inside⟩)).of_run ranRest
      obtain ⟨visited, blocks, handled⟩ := ih visited (within.narrow (by omega) (Nat.le_refl _)) increasing ends.2.2 restBelow
        ends.2.1 (by omega) ranRest
      refine ⟨visited, blocks, (handled.widen (by omega)).cons ⟨?_, ?_, becomes.rework reworked.store upper⟩⟩ <;> simp only <;>
        omega
    split at ran
    next =>
      rw [run_get_bind] at ran
      obtain ⟨⟨others, cleaned⟩, final, ranRest, ran⟩ := bind_ok.mp ran
      obtain ⟨⟨rfl, rfl⟩, rfl⟩ := pure_pair_ok.mp ran
      obtain ⟨visited, blocks, handled⟩ := remaining ranRest
      refine ⟨visited, _, handled.placed, handled.catching, fun cleanupBody member => ?_⟩
      cases cleaned with
      | some given => exact handled.cleaning cleanupBody member
      | none =>
        cases member
        refine ⟨_, List.mem_cons_self, ?_⟩
        split
        · exact List.dropLast_prefix _
        · exact List.prefix_rfl
    next =>
      obtain ⟨⟨others, cleaned⟩, final, ranRest, ran⟩ := bind_ok.mp ran
      obtain ⟨⟨rfl, rfl⟩, rfl⟩ := pure_pair_ok.mp ran
      obtain ⟨visited, blocks, handled⟩ := remaining ranRest
      refine ⟨visited, _, handled.placed, fun clause member => ?_, handled.cleaning⟩
      rcases List.mem_cons.mp member with rfl | member
      · exact ⟨_, List.mem_cons_self, List.prefix_rfl⟩
      · exact handled.catching clause member

include valid recurs structures in
theorem tryCatch_becomes {protectedStop : Offset} {statement : NodeId}
    (reached : Reached listing initial handlers allows context first stop position out state)
    (within : context.Within listing initial position stop) (inside : position < stop) (fits : stop ≤ listing.size)
    (bounded : stop ≤ position + 1 + bound) (located : listing.statements[position]? = some statement)
    (isProtected : protectedEnd? listing state.handlers position stop = some protectedStop)
    (ran : tryCatch listing recur position protectedStop stop context.jumps out statement state =
      (.ok (next, result), last)) :
    Reached listing initial handlers allows context first stop next result last := by
  have origin : statement < initial.size := valid statement (Array.mem_of_getElem? located)
  obtain ⟨nonempty, _, handler, pending, _, starts⟩ := protectedEnd?_eq_some isProtected
  have reworked := (tryCatch_reworks recurs context.jumps out statement nonempty).of_run ran
  unfold tryCatch at ran
  obtain ⟨found, taken, takes, ran⟩ := bind_ok.mp ran
  simp only at ran
  cases checked : checkHandlers (listing.positionOf protectedStop) stop found with
  | error error =>
    simp only [checked] at ran
    obtain ⟨_, _, thrown, _⟩ := bind_ok.mp ran
    exact (throw_ok.mp thrown).elim
  | ok _ =>
    simp only [checked] at ran
    obtain ⟨increasing, sameStore, fewer⟩ := takeHandlers_ok takes
    have visited : Visited listing initial handlers position taken :=
      ⟨sameStore ▸ reached.visited.store, fun handler member => reached.visited.handlers handler (fewer handler member)⟩
    cases found with
    | nil =>
      -- No handler is left for this block: its first statement is kept as any other.
      obtain ⟨⟨rfl, rfl⟩, rfl⟩ := pure_pair_ok.mp ran
      have reached : Reached listing initial handlers allows context first stop position out taken :=
        ⟨visited, reached.becomes.rework reworked.store (Nat.le_refl _)⟩
      exact reached.keep valid inside located
    | cons head others =>
      obtain ⟨firstHandler, firstOne⟩ := head
      simp only at ran
      rw [run_get_bind] at ran
      have handlersInside := checkHandlers_ok checked
      have firstInside := handlersInside _ List.mem_cons_self
      have lastInside := lastHandler_bounds handlersInside
      have ends := tryEnd_bounds listing taken.store (listing.positionOf protectedStop) lastInside.2
      have below := entries_le_last increasing
      generalize tryEnd listing taken.store (listing.positionOf protectedStop) stop firstHandler
        (others.map (·.1)) = after at ran ends
      have nonempty : position < firstHandler := Nat.lt_of_lt_of_le nonempty firstInside.1
      have upper := Listing.withoutJump_le listing taken.store position firstHandler after
      have lower := Listing.le_withoutJump listing taken.store after nonempty
      generalize listing.withoutJump taken.store position firstHandler after = bodyEnd at ran upper lower
      have firstBelow := below _ List.mem_cons_self
      simp only at firstInside firstBelow
      obtain ⟨body, between, ranBody, ran⟩ := bind_ok.mp ran
      obtain ⟨⟨catches, cleanup⟩, handled, ranClauses, ran⟩ := bind_ok.mp ran
      rw [run_get_bind] at ran
      obtain ⟨node, final, allocates, ran⟩ := bind_ok.mp ran
      obtain ⟨⟨rfl, rfl⟩, rfl⟩ := pure_pair_ok.mp ran
      obtain ⟨visited, tried, _⟩ := recur_becomes recurs structures ranBody visited
        (within.narrow (Nat.le_refl _) (by omega)) (by omega) (by omega) (by omega)
      have reworkedClauses := (clauses_reworks recurs firstHandler context.jumps _ ends.2 (by omega)
        (fun entry member => ⟨first_le_entries increasing entry member, (handlersInside entry member).2⟩)).of_run ranClauses
      obtain ⟨visited, blocks, becomes⟩ := clauses_become recurs structures (visited.advance upper)
        (within.narrow (by omega) (Nat.le_refl _)) increasing (first_le_entries increasing)
        (fun entry member => Nat.lt_of_le_of_lt (below entry member) ends.1) (by omega) ends.2 fits (by omega) ranClauses
      obtain ⟨visited, fresh, made, grown⟩ := visited.allocate origin allocates
      refine ⟨visited, .attempted context first stop position bodyEnd after out body _ _ _ blocks node
        (reached.becomes.rework reworked.store (Nat.le_refl _))
        ⟨handler, reached.visited.handlers handler pending, starts⟩ (by omega) ends.2 (by omega)
        ((tried.rework reworkedClauses.store upper).grow grown) (withoutCleanup_shortens _ _ _)
        (fun block member => ?_) (fun block member => ?_) (fun clause member => ?_) ?_ fresh made⟩
      · have bounds := becomes.placed block member
        exact ⟨by omega, bounds.2.1⟩
      · exact (becomes.placed block member).2.2.grow grown
      · obtain ⟨original, inCatches, rfl⟩ := List.mem_map.mp member
        obtain ⟨block, inBlocks, shortened⟩ := becomes.catching original inCatches
        exact ⟨block, inBlocks, (withoutCleanup_shortens _ _ _).trans shortened⟩
      · cases cleanup with
        | none => exact .inl rfl
        | some cleaned => exact .inr (becomes.cleaning cleaned rfl)

/-! ## Regions -/

include valid recurs structures sound in
theorem plain_becomes {statement : NodeId}
    (reached : Reached listing initial handlers allows context first stop position out state)
    (within : context.Within listing initial position stop) (inside : position < stop) (fits : stop ≤ listing.size)
    (bounded : stop ≤ position + 1 + bound) (located : listing.statements[position]? = some statement)
    (ran : plain listing recur position stop context.jumps out statement state = (.ok (next, result), last)) :
    Reached listing initial handlers allows context first stop next result last := by
  have origin : statement < initial.size := valid statement (Array.mem_of_getElem? located)
  unfold plain at ran
  rw [run_get_bind] at ran
  obtain ⟨node, foundNode⟩ := Store.node?_isSome (Nat.lt_of_lt_of_le origin reached.visited.store.size_le)
  have found := Store.kind?_of_node? foundNode
  rw [found] at ran
  cases kind : node.kind with
  | switch key default cases =>
    simp only [kind] at ran found
    exact switch_becomes valid recurs structures reached within inside fits bounded located found ran
  | branch test offset =>
    simp only [kind] at ran found
    exact conditional_becomes valid recurs structures sound reached within inside fits bounded located found ran
  | goto offset =>
    simp only [kind] at ran found
    cases bottom : listing.bottomTest? state.store position stop with
    | none =>
      simp only [bottom] at ran
      obtain ⟨whole, final, ranJump, ran⟩ := bind_ok.mp ran
      obtain ⟨⟨rfl, rfl⟩, rfl⟩ := pure_pair_ok.mp ran
      exact jump_becomes valid sound reached within inside located found ranJump
    | some test =>
      obtain ⟨leads, ahead, testInside, branches, back⟩ := Listing.bottomTest?_eq_some bottom
      have locatedTest := Array.getElem?_eq_getElem (Nat.lt_of_lt_of_le testInside fits)
      simp only [bottom, locatedTest] at ran
      obtain ⟨whole, final, ranLoop, ran⟩ := bind_ok.mp ran
      obtain ⟨⟨rfl, rfl⟩, rfl⟩ := pure_pair_ok.mp ran
      have enters : listing.gotoTarget? state.store position = some test := by
        refine Listing.gotoTarget?_of_not_branch leads ?_
        simp [Listing.isBranchAt, Listing.kindAt?, located, found, Kind.isBranch]
      have reworked := reached.visited.store
      exact whileLoop_becomes valid recurs structures (reached.visited.advance (Nat.le_succ _)) reached.becomes
        (.bottom test ahead (reworked.gotoTarget?_before valid enters) (reworked.isBranchAt_before valid branches)
          (reworked.targetAt?_before valid back)) locatedTest testInside fits bounded ranLoop
  | _ =>
    simp only [kind] at ran
    obtain ⟨⟨rfl, rfl⟩, rfl⟩ := pure_pair_ok.mp ran
    exact reached.keep valid inside located

include valid recurs structures sound in
theorem statement_becomes (reached : Reached listing initial handlers allows context first stop position out state)
    (within : context.Within listing initial position stop) (inside : position < stop) (fits : stop ≤ listing.size)
    (bounded : stop ≤ position + 1 + bound)
    (ran : statement listing recur position stop context.jumps out state = (.ok (next, result), last)) :
    Reached listing initial handlers allows context first stop next result last := by
  have located := Array.getElem?_eq_getElem (Nat.lt_of_lt_of_le inside fits)
  unfold statement at ran
  simp only [located] at ran
  rw [run_get_bind] at ran
  have loops {source : Nat} (found : (if context.jumps.continueTo.contains position then none
      else listing.backEdge? state.store position stop) = some source) := Listing.backEdge?_of_ite found
  generalize (if context.jumps.continueTo.contains position then none
    else listing.backEdge? state.store position stop) = backEdge at ran loops
  cases isProtected : protectedEnd? listing state.handlers position stop with
  | some protectedStop =>
    cases backEdge with
    | none =>
      simp only [isProtected] at ran
      exact tryCatch_becomes valid recurs structures reached within inside fits bounded located isProtected ran
    | some source =>
      simp only [isProtected] at ran
      obtain ⟨ordered, sourceInside, back⟩ := loops rfl
      split at ran
      · exact tryCatch_becomes valid recurs structures reached within inside fits bounded located isProtected ran
      · exact backEdgeLoop_becomes valid recurs structures reached ordered sourceInside fits bounded back ran
  | none =>
    cases backEdge with
    | none =>
      simp only [isProtected] at ran
      exact plain_becomes valid recurs structures sound reached within inside fits bounded located ran
    | some source =>
      simp only [isProtected] at ran
      obtain ⟨ordered, sourceInside, back⟩ := loops rfl
      exact backEdgeLoop_becomes valid recurs structures reached ordered sourceInside fits bounded back ran

end Steps

variable (valid : ∀ id ∈ listing.statements, id < initial.size)
variable (sound : ∀ context position target exit, context.Within listing initial position (position + 1) →
  context.jumps.exit? target = some exit.kind → allows context position target exit)
include valid sound

theorem regionFrom_becomes (reached : Reached listing initial handlers allows context first stop position out state)
    (within : context.Within listing initial position stop) (ordered : position ≤ stop) (fits : stop ≤ listing.size)
    (bounded : stop ≤ position + bound)
    (ran : regionFrom listing bound position stop context.jumps out state = (.ok result, last)) :
    Reached listing initial handlers allows context first stop stop result last := by
  -- The bound also counts how deep regions are nested, so that the hypothesis serves the inner regions as well as the rest.
  induction bound generalizing context first stop position out state result last with
  | zero =>
    obtain ⟨rfl, rfl⟩ := pure_ok.mp ran
    have ends : position = stop := by omega
    exact ends ▸ reached
  | succ bound ih =>
    unfold regionFrom at ran
    by_cases done : stop ≤ position
    · rw [if_pos done] at ran
      obtain ⟨rfl, rfl⟩ := pure_ok.mp ran
      have ends : position = stop := by omega
      exact ends ▸ reached
    · rw [if_neg done] at ran
      obtain ⟨⟨next, so⟩, between, ranFirst, ranRest⟩ := bind_ok.mp ran
      have inside : position < stop := by omega
      have advances := statement_advances context.jumps out inside state (next, so) between ranFirst
      have structures : Structures listing initial handlers allows bound
          fun first stop jumps => regionFrom listing bound first stop jumps [] := by
        intro context first stop state body last ordered fits bounded within visited ran
        exact (ih ⟨visited, .start context first stop⟩ within ordered fits bounded ran).becomes
      have step := statement_becomes valid (fun first stop jumps => regionFrom_reworks listing bound first stop jumps [])
        structures sound reached within inside fits (by omega) ranFirst
      exact ih step (within.narrow (Nat.le_of_lt advances.1) (Nat.le_refl _)) advances.2 fits
        (by have := advances.1; simp only at this; omega) ranRest

end Construction

theorem build_becomes {store final : Store} {statements body : List NodeId} {handlers : List Handler} {maxLocals : Slot}
    {allows : Context → Nat → Nat → Exit → Prop} (valid : ∀ id ∈ statements, id < store.size)
    (sound : ∀ context position target exit,
      context.Within (.ofStatements store statements maxLocals) store position (position + 1) →
      context.jumps.exit? target = some exit.kind → allows context position target exit)
    (built : build store statements handlers maxLocals = (.ok body, final)) :
    Becomes (.ofStatements store statements maxLocals) store final handlers allows {} 0 statements.length
      statements.length body := by
  let listing := Listing.ofStatements store statements maxLocals
  have size : listing.size = statements.length := by simp [listing, Listing.ofStatements, Listing.size]
  have valid : ∀ id ∈ listing.statements, id < store.size := by
    intro id member
    exact valid id (by simpa [listing, Listing.ofStatements] using member)
  cases ran : regionFrom listing listing.size 0 listing.size {} [] ⟨store, handlers⟩ with
  | mk outcome last =>
    obtain ⟨rfl, rfl⟩ : outcome = .ok body ∧ last.store = final := by
      simpa only [build, listing, ran, Prod.mk.injEq] using built
    have visited : Visited listing store handlers 0 ⟨store, handlers⟩ := ⟨.refl _, fun _ member => member⟩
    have within : Context.Within {} listing store 0 listing.size := by
      intro loop member
      cases member
    have reached := regionFrom_becomes valid sound ⟨visited, .start {} 0 listing.size⟩ within (Nat.zero_le _)
      (Nat.le_refl _) (by omega) ran
    exact size ▸ reached.becomes

end Region

end ClassLift
