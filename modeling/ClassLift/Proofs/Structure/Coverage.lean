import ClassLift.Proofs.Structure.Construction

namespace ClassLift

/-! ## Counting -/

namespace Listing

def listedBefore (listing : Listing) (position : Nat) (id : NodeId) : Nat :=
  (listing.statements.toList.take position).count id

/-- Of the nodes that were there, the outline names those that stand between two positions, each as often as it stands there. A
`goto` may be missing. -/
structure Accounts (listing : Listing) (initial : Store) (first next : Nat) (outline : List NodeId) : Prop where
  atMost : ∀ id < initial.size, outline.count id + listing.listedBefore first id ≤ listing.listedBefore next id
  all : ∀ id < initial.size, (∀ target, initial.kind? id ≠ some (.goto target)) →
    outline.count id + listing.listedBefore first id = listing.listedBefore next id

variable {listing : Listing} {initial : Store} {first position next last : Nat} {outline : List NodeId} {id : NodeId}

theorem listedBefore_succ (located : listing.statements[position]? = some id) (other : NodeId) :
    listing.listedBefore (position + 1) other = listing.listedBefore position other + [id].count other := by
  rw [← Array.getElem?_toList] at located
  rw [listedBefore, List.take_add_one, located, List.count_append]
  rfl

theorem covers_of_listedBefore_lt (more : listing.listedBefore first id < listing.listedBefore next id) :
    listing.Covers first next id := by
  unfold listedBefore at more
  by_cases ordered : first ≤ next
  · have split : listing.statements.toList.take next =
        listing.statements.toList.take first ++ (listing.statements.toList.take next).drop first := by
      conv => lhs; rw [← List.take_append_drop first (listing.statements.toList.take next)]
      rw [List.take_take, Nat.min_eq_left ordered]
    rw [split, List.count_append] at more
    have member : id ∈ (listing.statements.toList.take next).drop first := List.count_pos_iff.mp (by omega)
    obtain ⟨index, found⟩ := List.mem_iff_getElem?.mp member
    rw [List.getElem?_drop, List.getElem?_take] at found
    split at found
    next below => exact ⟨first + index, Nat.le_add_right _ _, below, by rwa [← Array.getElem?_toList]⟩
    next => cases found
  · have fewer := (List.take_sublist_take_left (l := listing.statements.toList) (Nat.le_of_not_le ordered)).count_le id
    omega

def Enters (listing : Listing) (position : Nat) (default : Offset) (cases : List (Int32 × Offset)) : Prop :=
  ∃ target ∈ default :: cases.map (·.2), listing.positionOf target = position + 1

namespace Accounts

theorem empty (listing : Listing) (initial : Store) (position : Nat) : listing.Accounts initial position position [] :=
  ⟨fun _ _ => by simp, fun _ _ _ => by simp⟩

theorem append {others : List NodeId} (early : listing.Accounts initial first next outline)
    (late : listing.Accounts initial next last others) : listing.Accounts initial first last (outline ++ others) := by
  constructor
  · intro id inside
    have one := early.atMost id inside
    have other := late.atMost id inside
    rw [List.count_append]
    omega
  · intro id inside stays
    have one := early.all id inside stays
    have other := late.all id inside stays
    rw [List.count_append]
    omega

theorem congr {other : List NodeId} (accounts : listing.Accounts initial first next outline)
    (same : ∀ id < initial.size, other.count id = outline.count id) : listing.Accounts initial first next other := by
  constructor
  · intro id inside
    rw [same id inside]
    exact accounts.atMost id inside
  · intro id inside stays
    rw [same id inside]
    exact accounts.all id inside stays

theorem single (initial : Store) (located : listing.statements[position]? = some id) :
    listing.Accounts initial position (position + 1) [id] := by
  constructor
  · intro other _
    rw [listedBefore_succ located]
    omega
  · intro other _ _
    rw [listedBefore_succ located]
    omega

theorem dropped {target : Nat} (goes : listing.gotoTarget? initial position = some target) :
    listing.Accounts initial position (position + 1) [] := by
  obtain ⟨offset, found, _⟩ := gotoTarget?_eq_some.mp goes
  obtain ⟨id, located, given⟩ := kindAt?_eq_some.mp found
  constructor
  · intro other _
    rw [listedBefore_succ located, List.count_nil]
    omega
  · intro other _ stays
    have apart : other ≠ id := by
      rintro rfl
      exact stays offset given
    rw [listedBefore_succ located, List.count_nil, List.count_singleton, if_neg (by simpa using apart.symm)]
    omega

theorem covers (accounts : listing.Accounts initial first next outline) (member : id ∈ outline) (inside : id < initial.size) :
    listing.Covers first next id := by
  have named := List.count_pos_iff.mpr member
  have counted := accounts.atMost id inside
  exact covers_of_listedBefore_lt (by omega)

end Accounts

end Listing

namespace Region

/-! ## Parts of a region -/

variable {listing : Listing} {initial store after : Store} {scope : Scope} {first position next lower upper stop : Nat}
variable {out : List NodeId} {id : NodeId} {kind : Kind}

def Kept (listing : Listing) (initial : Store) (scope : Scope) (first next : Nat) (out : List NodeId) (store : Store) : Prop :=
  ∃ outline, store.Outlined scope out outline ∧ listing.Accounts initial first next outline

namespace Kept

theorem congr (kept : Kept listing initial scope first next out store)
    (same : ∀ id kind, (id < initial.size → listing.Covers first next id) → store.kind? id = some kind →
      after.kind? id = some kind) : Kept listing initial scope first next out after := by
  obtain ⟨outline, outlined, accounts⟩ := kept
  exact ⟨outline, outlined.congr fun id member kind => same id kind (accounts.covers member), accounts⟩

theorem rework (kept : Kept listing initial scope first next out store) (valid : ∀ id ∈ listing.statements, id < initial.size)
    (distinct : listing.statements.toList.Nodup) (reworked : store.Reworked (listing.Covers lower upper) after)
    (later : next ≤ lower) : Kept listing initial scope first next out after := by
  refine kept.congr fun id kind covered found => ?_
  obtain ⟨changed, foundAfter, _, untouched⟩ := reworked.kind? found
  rw [foundAfter, untouched]
  rintro ⟨other, above, _, locatedOther⟩
  obtain ⟨position, _, below, located⟩ := covered (valid id (Array.mem_of_getElem? locatedOther))
  have := Listing.position_unique distinct located locatedOther
  omega

theorem replace (kept : Kept listing initial scope first next out store) (valid : ∀ id ∈ listing.statements, id < initial.size)
    (distinct : listing.statements.toList.Nodup) (located : listing.statements[position]? = some id)
    (outside : position < first ∨ next ≤ position) : Kept listing initial scope first next out (store.replace id kind) := by
  refine kept.congr fun other same covered found => ?_
  have apart : other ≠ id := by
    rintro rfl
    obtain ⟨elsewhere, _, below, locatedOther⟩ := covered (valid other (Array.mem_of_getElem? located))
    have := Listing.position_unique distinct located locatedOther
    omega
  rw [Store.kind?_replace_of_ne apart, found]

theorem nil (listing : Listing) (initial store : Store) (scope : Scope) (position : Nat) :
    Kept listing initial scope position position [] store :=
  ⟨[], .nil scope, .empty listing initial position⟩

theorem leaf (kept : Kept listing initial scope first position out store) (located : listing.statements[position]? = some id)
    (found : store.kind? id = some kind) (leaf : scope.Leaf kind) :
    Kept listing initial scope first (position + 1) (out ++ [id]) store := by
  obtain ⟨outline, outlined, accounts⟩ := kept
  exact ⟨outline ++ [id], outlined.append (.leaf found leaf), accounts.append (.single initial located)⟩

theorem dropped {target : Nat} (kept : Kept listing initial scope first position out store)
    (goes : listing.gotoTarget? initial position = some target) :
    Kept listing initial scope first (position + 1) out store := by
  obtain ⟨outline, outlined, accounts⟩ := kept
  exact ⟨outline, outlined, by simpa using accounts.append (.dropped goes)⟩

end Kept

structure Covered (listing : Listing) (initial : Store) (scope : Scope) (first next : Nat) (out : List NodeId) (state : State) :
    Prop where
  visited : Visited listing initial [] next state
  kept : Kept listing initial scope first next out state.store

def scopeOf (jumps : Jumps) : Scope := ⟨jumps.breakTo.isSome, !jumps.continueTo.isEmpty⟩

theorem leaf_of_exit? {jumps : Jumps} {target : Nat} (exits : jumps.exit? target = some kind) : (scopeOf jumps).Leaf kind := by
  rcases Jumps.exit?_eq_some exits with ⟨rfl, leads⟩ | ⟨rfl, leads⟩
  · exact ⟨by simp [scopeOf, Scope.admits, leads], rfl, rfl⟩
  · have listed : jumps.continueTo ≠ [] := List.ne_nil_of_mem leads
    exact ⟨by simp [scopeOf, Scope.admits, listed], rfl, rfl⟩

theorem Divided.accounts {target thenEnd last : Nat} (divided : Divided listing initial position target stop thenEnd last) :
    listing.Accounts initial thenEnd target [] := by
  cases divided with
  | single => exact .empty listing initial target
  | double last nonempty passes =>
    have joined := Listing.Accounts.dropped passes
    rwa [Nat.sub_add_cancel (by omega)] at joined

theorem Tested.accounts {conditionAt source : Nat} {condition : NodeId} {within : List NodeId}
    (tested : Tested listing initial position conditionAt source) (located : listing.statements[conditionAt]? = some condition)
    (inner : listing.Accounts initial (position + 1) source within) :
    listing.Accounts initial position (source + 1) ([condition] ++ within) := by
  cases tested with
  | top source nonempty back => simpa using (Listing.Accounts.single initial located).append (inner.append (.dropped back))
  | bottom test nonempty enters =>
    have whole := (Listing.Accounts.dropped enters).append (inner.append (.single initial located))
    exact whole.congr fun id _ => List.perm_append_comm.count_eq id

section Steps

def Keeps (listing : Listing) (initial : Store) (bound : Nat) (recur : Recur) : Prop :=
  ∀ first stop jumps state, first ≤ stop → stop ≤ listing.size → stop ≤ first + bound → Visited listing initial [] first state →
    Returns (recur first stop jumps) state fun body last =>
      Kept listing initial (scopeOf jumps) first stop body last.store

variable {recur : Recur} {bound : Nat} {jumps : Jumps} {state : State} {origin : NodeId} {rest : List NodeId}

variable (valid : ∀ id ∈ listing.statements, id < initial.size) (distinct : listing.statements.toList.Nodup)
variable (recurs : Recurs listing recur) (keeps : Keeps listing initial bound recur)

include recurs keeps in
theorem recur_keeps (visited : Visited listing initial [] first state) (ordered : first ≤ stop) (fits : stop ≤ listing.size)
    (bounded : stop ≤ first + bound) :
    Returns (recur first stop jumps) state fun body last =>
      Visited listing initial [] stop last ∧ Kept listing initial (scopeOf jumps) first stop body last.store ∧
        State.Reworked listing first stop state last := by
  refine (keeps first stop jumps state ordered fits bounded visited).of_run fun body last ran kept => ?_
  have reworked := (recurs first stop jumps).of_run ran
  exact ⟨visited.rework reworked ordered (Nat.le_refl _), kept, reworked⟩

theorem allocate_returns (visited : Visited listing initial [] position state) (inside : origin < initial.size) :
    Returns (allocate origin kind) state fun node last =>
      Visited listing initial [] position last ∧ initial.size ≤ node ∧ last.store.kind? node = some kind ∧
        ∀ touched, state.store.Reworked touched last.store :=
  ⟨_, _, rfl, visited.allocate inside rfl⟩

theorem allocate_keeps {outline within : List NodeId} (visited : Visited listing initial [] position state)
    (ordered : position ≤ next) (inside : origin < initial.size) (before : state.store.Outlined scope rest outline)
    (inner : state.store.Outlined (scope.enter kind) kind.bodies.flatten within) (admitted : scope.admits kind = true)
    (accounts : listing.Accounts initial first next (outline ++ (kind.controls ++ within))) :
    Returns (allocate origin kind) state fun node last => Covered listing initial scope first next (rest ++ [node]) last := by
  refine (allocate_returns visited inside).of_run fun node last _ made => ?_
  obtain ⟨visited, fresh, found, grown⟩ := made
  have same (id : NodeId) (kind : Kind) (found : state.store.kind? id = some kind) : last.store.kind? id = some kind := by
    obtain ⟨changed, foundAfter, _, untouched⟩ := (grown fun _ => False).kind? found
    rw [foundAfter, untouched not_false]
  refine ⟨visited.advance ordered, _,
    (before.congr fun id _ => same id).append (.single found admitted (inner.congr fun id _ => same id)), ?_⟩
  refine accounts.congr fun id old => ?_
  have apart : node ≠ id := Nat.ne_of_gt (Nat.lt_of_lt_of_le old fresh)
  simp [List.count_append, List.count_cons_of_ne apart]

/-! ## Jumps -/

include valid distinct recurs keeps in
theorem choice_keeps {branch : NodeId} {offset : Offset} {thenEnd ends : Nat}
    (visited : Visited listing initial [] position state)
    (kept : Kept listing initial (scopeOf jumps) first position out state.store) (fits : stop ≤ listing.size)
    (bounded : stop ≤ position + 1 + bound) (located : listing.statements[position]? = some branch)
    (ahead : position < listing.positionOf offset)
    (divided : Divided listing initial position (listing.positionOf offset) stop thenEnd ends) :
    Returns (do
      negate branch
      let onTrue ← recur (position + 1) thenEnd jumps
      let onFalse ← recur (listing.positionOf offset) ends jumps
      return (ends, out ++ [← allocate branch (.ifElse branch onTrue onFalse)]) : Build (Nat × List NodeId)) state
      fun result last => Covered listing initial (scopeOf jumps) first result.1 result.2 last := by
  have inside : branch < initial.size := valid branch (Array.mem_of_getElem? located)
  have bounds := divided.bounds ahead
  have inverting := negate_reworks (Nat.le_refl position) (Nat.lt_succ_self position) located state
  have visited := visited.rework inverting (Nat.le_succ _) (Nat.le_refl _)
  have kept := kept.rework valid distinct inverting.store (Nat.le_refl _)
  refine returns_modify_bind ?_
  refine (recur_keeps recurs keeps visited bounds.1 (by omega) (by omega)).bind fun onTrue between holds => ?_
  obtain ⟨visited, ifTrue, reworked⟩ := holds
  have kept := kept.rework valid distinct reworked.store (Nat.le_succ _)
  refine (recur_keeps recurs keeps (visited.advance bounds.2.1) bounds.2.2.1 (by omega) (by omega)).bind
    fun onFalse later holds => ?_
  obtain ⟨visited, ifFalse, reworked⟩ := holds
  obtain ⟨outline, outlined, accounts⟩ := kept.rework valid distinct reworked.store (by omega)
  obtain ⟨whenTrue, outlinedTrue, accountsTrue⟩ := ifTrue.rework valid distinct reworked.store bounds.2.1
  obtain ⟨whenFalse, outlinedFalse, accountsFalse⟩ := ifFalse
  have inner : later.store.Outlined ((scopeOf jumps).enter (.ifElse branch onTrue onFalse))
      (Kind.ifElse branch onTrue onFalse).bodies.flatten (whenTrue ++ whenFalse) := by
    simpa [Kind.bodies, Scope.enter] using outlinedTrue.append outlinedFalse
  have whole := (accounts.append (.single initial located)).append
    (accountsTrue.append (divided.accounts.append accountsFalse))
  refine (allocate_keeps visited (Nat.le_refl _) inside outlined inner rfl ?_).bind fun node last covered => returns_pure covered
  simpa [Kind.controls] using whole

include valid distinct recurs keeps in
theorem conditional_keeps {branch : NodeId} {test : Test} {offset : Offset}
    (visited : Visited listing initial [] position state)
    (kept : Kept listing initial (scopeOf jumps) first position out state.store) (fits : stop ≤ listing.size)
    (bounded : stop ≤ position + 1 + bound) (located : listing.statements[position]? = some branch)
    (found : state.store.kind? branch = some (.branch test offset)) :
    Returns (conditional listing recur position stop jumps out branch (listing.positionOf offset)) state
      fun result last => Covered listing initial (scopeOf jumps) first result.1 result.2 last := by
  have inside : branch < initial.size := valid branch (Array.mem_of_getElem? located)
  unfold conditional
  by_cases ahead : position < listing.positionOf offset ∧ listing.positionOf offset ≤ stop
  · rw [if_pos (by simpa using ahead)]
    refine returns_get_bind ?_
    cases ends : listing.elseEnd? state.store position (listing.positionOf offset) stop with
    | none => exact choice_keeps valid distinct recurs keeps visited kept fits bounded located ahead.1 (.single ahead.2)
    | some beyond =>
      obtain ⟨long, goes, past, fitsOver⟩ := Listing.elseEnd?_eq_some ends
      exact choice_keeps valid distinct recurs keeps visited kept fits bounded located ahead.1
        (.double beyond long (visited.store.gotoTarget?_before valid goes) past fitsOver)
  · rw [if_neg (by simpa using ahead)]
    cases exits : jumps.exit? (listing.positionOf offset) with
    | none => exact returns_pure ⟨visited.advance (Nat.le_succ _), kept.leaf located found ⟨rfl, rfl, rfl⟩⟩
    | some kind =>
      refine (allocate_returns visited inside).bind fun exit between made => ?_
      obtain ⟨visited, fresh, foundExit, grown⟩ := made
      obtain ⟨outline, outlined, accounts⟩ :=
        kept.rework valid distinct (grown (listing.Covers position position)) (Nat.le_refl _)
      have inner : between.store.Outlined ((scopeOf jumps).enter (.ifElse branch [exit] []))
          (Kind.ifElse branch [exit] []).bodies.flatten [exit] :=
        .leaf foundExit (leaf_of_exit? exits)
      refine (allocate_keeps visited (Nat.le_succ _) inside outlined inner rfl ?_).bind fun node last covered =>
        returns_pure covered
      refine (accounts.append (.single initial located)).congr fun id old => ?_
      have apart : exit ≠ id := Nat.ne_of_gt (Nat.lt_of_lt_of_le old fresh)
      simp [Kind.controls, List.count_append, List.count_cons, apart]

include valid in
theorem jump_keeps {statement : NodeId} {offset : Offset} (visited : Visited listing initial [] position state)
    (distinct : listing.statements.toList.Nodup)
    (kept : Kept listing initial (scopeOf jumps) first position out state.store)
    (located : listing.statements[position]? = some statement)
    (found : state.store.kind? statement = some (.goto offset)) :
    Returns (jump position stop jumps out statement (listing.positionOf offset)) state
      fun result last => Covered listing initial (scopeOf jumps) first (position + 1) result last := by
  have reworked : State.Reworked listing position (position + 1) state
      (jump position stop jumps out statement (listing.positionOf offset) state).2 :=
    jump_reworks jumps out state (Nat.lt_succ_self position) located found
  revert reworked
  unfold jump
  by_cases falls : listing.positionOf offset = stop ∧ position + 1 = stop
  · rw [if_pos falls]
    intro _
    have goes := Listing.gotoTarget?_eq_some.mpr ⟨offset, Listing.kindAt?_eq_some.mpr ⟨statement, located, found⟩, rfl⟩
    exact returns_pure ⟨visited.advance (Nat.le_succ _), kept.dropped (visited.store.gotoTarget?_before valid goes)⟩
  · rw [if_neg falls]
    cases exits : jumps.exit? (listing.positionOf offset) with
    | none => exact fun _ => returns_pure ⟨visited.advance (Nat.le_succ _), kept.leaf located found ⟨rfl, rfl, rfl⟩⟩
    | some kind =>
      intro reworked
      refine ⟨_, _, rfl, visited.rework reworked (Nat.le_succ _) (Nat.le_refl _),
        (kept.rework valid distinct reworked.store (Nat.le_refl _)).leaf located ?_ (leaf_of_exit? exits)⟩
      exact Store.kind?_replace_self (Store.lt_size_of_kind? found)

/-! ## Loops -/

include valid distinct recurs keeps in
theorem loop_keeps {form : LoopForm} (visited : Visited listing initial [] lower state)
    (kept : Kept listing initial scope first position out state.store) (inside : origin < initial.size)
    (position_le : position ≤ lower) (ordered : lower ≤ upper) (fits : upper ≤ listing.size) (bounded : upper ≤ lower + bound)
    (upper_le : upper ≤ next) (repeats : scopeOf jumps = ⟨true, true⟩)
    (takes : ∀ last outline within, State.Reworked listing lower upper state last → last.store.Outlined scope out outline →
      listing.Accounts initial first position outline → listing.Accounts initial lower upper within →
      ∃ before, last.store.Outlined scope rest before ∧
        listing.Accounts initial first next (before ++ (form.operands ++ within))) :
    Returns (recur lower upper jumps) state fun body last =>
      Returns (allocate origin (.loop form body)) last fun node final =>
        Covered listing initial scope first next (rest ++ [node]) final := by
  refine (recur_keeps recurs keeps visited ordered fits bounded).of_run fun body last _ holds => ?_
  obtain ⟨visited, repeated, reworked⟩ := holds
  obtain ⟨outline, outlined, accounts⟩ := kept.rework valid distinct reworked.store position_le
  obtain ⟨within, outlinedBody, accountsBody⟩ := repeated
  obtain ⟨before, outlinedBefore, whole⟩ := takes last outline within reworked outlined accounts accountsBody
  have inner : last.store.Outlined (scope.enter (.loop form body)) (Kind.loop form body).bodies.flatten within := by
    simpa [Kind.bodies, Scope.enter, repeats] using outlinedBody
  exact allocate_keeps visited upper_le inside outlinedBefore inner rfl whole

include valid distinct recurs keeps in
theorem whileLoop_keeps {condition : NodeId} {conditionAt source : Nat}
    (visited : Visited listing initial [] (position + 1) state)
    (kept : Kept listing initial scope first position out state.store)
    (tested : Tested listing initial position conditionAt source)
    (located : listing.statements[conditionAt]? = some condition) (inside : source < stop) (fits : stop ≤ listing.size)
    (bounded : stop ≤ position + 1 + bound) :
    Returns (whileLoop listing recur (position + 1) source condition conditionAt (source + 1) out) state
      fun result last => Covered listing initial scope first (source + 1) result last := by
  have conditionInside : condition < initial.size := valid condition (Array.mem_of_getElem? located)
  have ahead := tested.lt
  unfold whileLoop
  refine returns_get_bind ?_
  cases counts : countedParts? listing state.store (position + 1) source condition out with
  | some parts =>
    obtain ⟨begin, update⟩ := parts
    obtain ⟨updateAbove, rfl, isLast, type, slot, value, written⟩ := countedParts?_eq_some counts
    obtain ⟨rest, rfl⟩ := List.getLast?_eq_some_iff.mp isLast
    have updated := Array.getElem?_eq_getElem (show update < listing.statements.size from Nat.lt_of_lt_of_le (by omega) fits)
    simp only [updated, List.dropLast_concat]
    refine (loop_keeps valid distinct recurs keeps visited kept conditionInside (Nat.le_succ _) updateAbove (by omega)
      (by omega) (by omega) rfl ?_).bind fun body last made => made.bind fun node final covered => returns_pure covered
    intro last outline within reworked outlined accounts accountsBody
    obtain ⟨before, ends, outlinedBefore, outlinedEnd, rfl⟩ := outlined.append_inv
    have begins : last.store.Outlined scope [begin] [begin] :=
      .leaf (reworked.store.kind?_of_not_isJump written rfl) ⟨rfl, rfl, rfl⟩
    cases outlinedEnd.unique begins
    refine ⟨before, outlinedBefore, ?_⟩
    have whole := accounts.append (tested.accounts located (accountsBody.append (.single initial updated)))
    refine whole.congr fun id _ => ?_
    simp only [LoopForm.operands, List.count_append, List.count_cons, List.count_nil]
    omega
  | none =>
    refine (loop_keeps valid distinct recurs keeps visited kept conditionInside (Nat.le_succ _) ahead (by omega) (by omega)
      (Nat.le_succ _) rfl ?_).bind fun body last made => made.bind fun node final covered => returns_pure covered
    intro last outline within _ outlined accounts accountsBody
    exact ⟨outline, outlined, accounts.append (tested.accounts located accountsBody)⟩

include valid distinct recurs keeps in
theorem backEdgeLoop_keeps {source : Nat} (visited : Visited listing initial [] position state)
    (kept : Kept listing initial scope first position out state.store) (ordered : position ≤ source) (inside : source < stop)
    (fits : stop ≤ listing.size) (bounded : stop ≤ position + 1 + bound)
    (back : listing.targetAt? state.store source = some position) :
    Returns (backEdgeLoop listing recur position source out) state
      fun result last => Covered listing initial scope first result.1 result.2 last := by
  have positionInside : position < listing.statements.size := Nat.lt_of_lt_of_le (by omega) fits
  have sourceInside : source < listing.statements.size := Nat.lt_of_lt_of_le inside fits
  have located := Array.getElem?_eq_getElem positionInside
  have locatedSource := Array.getElem?_eq_getElem sourceInside
  have reworked := visited.store
  unfold backEdgeLoop
  simp only [located, locatedSource]
  refine returns_get_bind ?_
  cases bottom : listing.isBranchAt state.store source with
  | true =>
    rw [if_pos rfl]
    refine (loop_keeps valid distinct recurs keeps visited kept (valid _ (Array.getElem_mem sourceInside)) (Nat.le_refl _)
      ordered (by omega) (by omega) (Nat.le_succ _) rfl ?_).bind fun body last made =>
        made.bind fun node final covered => returns_pure covered
    intro last outline within _ outlined accounts accountsBody
    refine ⟨outline, outlined, (accounts.append (accountsBody.append (.single initial locatedSource))).congr fun id _ => ?_⟩
    exact (List.perm_append_comm.append_left outline).count_eq id
  | false =>
    have goes : listing.gotoTarget? initial source = some position :=
      reworked.gotoTarget?_before valid (Listing.gotoTarget?_of_not_branch back bottom)
    rw [if_neg Bool.false_ne_true]
    by_cases top : listing.isBranchAt state.store position = true ∧ listing.targetAt? state.store position = some (source + 1)
    · rw [if_pos (by simpa using top)]
      have inverting := negate_reworks (Nat.le_refl position) (Nat.lt_succ_self position) located state
      have apart : position ≠ source := fun same => by
        rw [← same, top.1] at bottom
        cases bottom
      refine returns_modify_bind ?_
      exact (whileLoop_keeps valid distinct recurs keeps (visited.rework inverting (Nat.le_succ _) (Nat.le_refl _))
        (kept.rework valid distinct inverting.store (Nat.le_refl _))
        (.top source (by omega) goes (reworked.isBranchAt_before valid top.1) (reworked.targetAt?_before valid top.2))
        located inside fits bounded).bind fun whole last covered => returns_pure covered
    · rw [if_neg (by simpa using top)]
      refine (loop_keeps valid distinct recurs keeps visited kept (valid _ (Array.getElem_mem positionInside)) (Nat.le_refl _)
        ordered (by omega) (by omega) (Nat.le_succ _) rfl ?_).bind fun body last made =>
        made.bind fun node final covered => returns_pure covered
      intro last outline within _ outlined accounts accountsBody
      exact ⟨outline, outlined, by simpa [LoopForm.operands] using accounts.append (accountsBody.append (.dropped goes))⟩

/-! ## Switches -/

include valid distinct recurs keeps in
theorem arms_keep {default ends : Nat} {cases : List (Int32 × Nat)} {starts : List Nat}
    (visited : Visited listing initial [] position state) (begins : position = starts.head?.elim ends (min ends))
    (increasing : starts.Pairwise (· < ·)) (fits : ends ≤ listing.size) (bounded : ends ≤ position + bound) :
    Returns (arms recur default ends cases jumps starts) state fun arms last =>
      Kept listing initial (scopeOf jumps) position ends (arms.map (·.body)).flatten last.store := by
  induction starts generalizing position state with
  | nil =>
    subst begins
    exact returns_pure (.nil listing initial _ _ _)
  | cons start rest ih =>
    have begins : position = min ends start := begins
    unfold arms
    by_cases outside : ends ≤ start
    · rw [if_pos outside]
      have done : position = ends := by omega
      subst done
      exact returns_pure (.nil listing initial _ _ _)
    · rw [if_neg outside]
      have same : position = start := by omega
      subst same
      have stops := armEnd_bounds increasing (Nat.le_of_not_le outside)
      have others (state : State) (visited : Visited listing initial [] (rest.head?.elim ends (min ends)) state) :=
        ih visited rfl (List.pairwise_cons.mp increasing).2 (by omega)
      have later := arms_reworks recurs default ends cases jumps rest stops.2.2
      generalize rest.head?.elim ends (min ends) = armEnd at stops others later ⊢
      refine (recur_keeps recurs keeps visited stops.1 (by omega) (by omega)).bind fun body between holds => ?_
      obtain ⟨visited, kept, _⟩ := holds
      refine Returns.bind ((others between visited).of_run fun built last ran keptOthers => ?_) fun built last holds =>
        returns_pure holds
      obtain ⟨outline, outlined, accounts⟩ := kept.rework valid distinct (later.of_run ran).store (Nat.le_refl _)
      obtain ⟨behind, outlinedBehind, accountsBehind⟩ := keptOthers
      exact ⟨outline ++ behind, outlined.append outlinedBehind, accounts.append accountsBehind⟩

include valid distinct recurs keeps in
theorem switch_keeps {statement key : NodeId} {default : Offset} {cases : List (Int32 × Offset)}
    (visited : Visited listing initial [] position state)
    (kept : Kept listing initial (scopeOf jumps) first position out state.store) (inside : position < stop)
    (fits : stop ≤ listing.size) (bounded : stop ≤ position + 1 + bound) (located : listing.statements[position]? = some statement)
    (found : state.store.kind? statement = some (.switch key default cases)) (enters : listing.Enters position default cases) :
    Returns (switch listing recur position stop jumps out statement key default cases) state
      fun result last => Covered listing initial (scopeOf jumps) first result.1 result.2 last := by
  obtain ⟨earlier, original, change, _⟩ := visited.kind? valid located found
  rw [change.switch_inv] at original
  unfold switch
  simp only
  generalize mapped : cases.map _ = casesAt
  have begins : (armStarts position stop (listing.positionOf default) casesAt).head? = some (position + 1) := by
    refine head?_armStarts inside ?_
    obtain ⟨target, member, leads⟩ := enters
    rcases List.mem_cons.mp member with rfl | member
    · exact .inl leads.symm
    · obtain ⟨case, inCases, rfl⟩ := List.mem_map.mp member
      exact .inr ⟨case.1, mapped ▸ List.mem_map.mpr ⟨case, inCases, congrArg (Prod.mk case.1) leads⟩⟩
  have increasing := (armStarts_increasing position stop (listing.positionOf default) casesAt).1
  have starting {start : Nat} (member : start ∈ armStarts position stop (listing.positionOf default) casesAt) :=
    (mem_armStarts.mp member).2
  generalize armStarts position stop (listing.positionOf default) casesAt = starts at begins increasing starting ⊢
  cases isLast : starts.getLast? with
  | none =>
    rw [List.getLast?_eq_none_iff.mp isLast] at begins
    cases begins
  | some lastStart =>
    have lastBounds := starting (List.mem_of_getLast? isLast)
    have ends := switchEnd_bounds listing state.store position (listing.positionOf default) casesAt lastBounds.2
    refine returns_get_bind ?_
    generalize switchEnd listing state.store position stop (listing.positionOf default) casesAt lastStart = beyond at ends ⊢
    refine Returns.bind ((arms_keep valid distinct recurs keeps (visited.advance (Nat.le_succ position)) ?_ increasing
      (by omega) (by omega)).of_run fun arms last ran keptArms => ?_) fun arms last covered =>
      returns_modify_bind (returns_pure covered)
    · rw [begins]
      exact (Nat.min_eq_right (by omega)).symm
    · have reworked := (arms_reworks recurs _ _ _ _ starts fun start member => (starting member).1).of_run ran
      have visited := visited.rework reworked (show position ≤ beyond by omega) (Nat.le_refl _)
      have kept := kept.rework valid distinct reworked.store (Nat.le_succ _)
      obtain ⟨outline, outlined, accounts⟩ := kept.replace valid distinct located (.inr (Nat.le_refl _))
      obtain ⟨within, outlinedArms, accountsArms⟩ := keptArms.replace valid distinct located (.inl (Nat.lt_succ_self _))
      have arranged : (last.store.replace statement (.switchArms key arms)).kind? statement = some (.switchArms key arms) :=
        Store.kind?_replace_self (Nat.lt_of_lt_of_le (Store.lt_size_of_kind? found) reworked.store.size_le)
      refine ⟨⟨?_, visited.handlers⟩, outline ++ (statement :: within), outlined.append (.single arranged rfl outlinedArms),
        accounts.append ((Listing.Accounts.single initial located).append accountsArms)⟩
      refine visited.store.replace ⟨position, Nat.zero_le _, by omega, located⟩ fun before foundBefore => ?_
      cases original.symm.trans foundBefore
      exact .arranged key default cases arms

/-! ## Regions -/

/-- What structuring expects of a list: its statements are there, each stands once, none of them is structured yet, and every
switch is entered right behind it. -/
structure Given (listing : Listing) (initial : Store) : Prop where
  valid : ∀ id ∈ listing.statements, id < initial.size
  distinct : listing.statements.toList.Nodup
  raw : ∀ id ∈ listing.statements, ∀ kind, initial.kind? id = some kind → kind.isStructured = false
  enters : ∀ position id key default cases, listing.statements[position]? = some id →
    initial.kind? id = some (.switch key default cases) → listing.Enters position default cases

variable (given : Given listing initial)

include given recurs keeps in
theorem plain_keeps {statement : NodeId} (visited : Visited listing initial [] position state)
    (kept : Kept listing initial (scopeOf jumps) first position out state.store) (inside : position < stop)
    (fits : stop ≤ listing.size) (bounded : stop ≤ position + 1 + bound)
    (located : listing.statements[position]? = some statement) :
    Returns (plain listing recur position stop jumps out statement) state
      fun result last => Covered listing initial (scopeOf jumps) first result.1 result.2 last := by
  have listed : statement ∈ listing.statements := Array.mem_of_getElem? located
  obtain ⟨node, foundNode⟩ := Store.node?_isSome (Nat.lt_of_lt_of_le (given.valid statement listed) visited.store.size_le)
  have found := Store.kind?_of_node? foundNode
  obtain ⟨_, original, _, unchanged⟩ := visited.kind? given.valid located found
  rw [unchanged given.distinct] at original
  have raw := given.raw statement listed node.kind original
  unfold plain
  refine returns_get_bind ?_
  simp only [found]
  generalize node.kind = kind at found original raw
  cases kind with
  | switch key default cases =>
    exact switch_keeps given.valid given.distinct recurs keeps visited kept inside fits bounded located found
      (given.enters position statement key default cases located original)
  | branch test offset =>
    exact conditional_keeps given.valid given.distinct recurs keeps visited kept fits bounded located found
  | goto offset =>
    cases bottom : listing.bottomTest? state.store position stop with
    | none =>
      exact (jump_keeps given.valid visited given.distinct kept located found).bind fun result last covered =>
        returns_pure covered
    | some test =>
      obtain ⟨leads, ahead, testInside, branches, back⟩ := Listing.bottomTest?_eq_some bottom
      have locatedTest := Array.getElem?_eq_getElem (Nat.lt_of_lt_of_le testInside fits)
      have enters : listing.gotoTarget? state.store position = some test := by
        refine Listing.gotoTarget?_of_not_branch leads ?_
        simp [Listing.isBranchAt, Listing.kindAt?, located, found, Kind.isBranch]
      have reworked := visited.store
      have tested : Tested listing initial position test test :=
        .bottom test ahead (reworked.gotoTarget?_before given.valid enters) (reworked.isBranchAt_before given.valid branches)
          (reworked.targetAt?_before given.valid back)
      simp only [locatedTest]
      exact (whileLoop_keeps given.valid given.distinct recurs keeps (visited.advance (Nat.le_succ _)) kept tested locatedTest
        testInside fits bounded).bind fun result last covered => returns_pure covered
  | _ => exact returns_pure ⟨visited.advance (Nat.le_succ _), kept.leaf located found (Scope.leaf_of_not_isStructured _ raw)⟩

include given recurs keeps in
theorem statement_keeps (visited : Visited listing initial [] position state)
    (kept : Kept listing initial (scopeOf jumps) first position out state.store) (inside : position < stop)
    (fits : stop ≤ listing.size) (bounded : stop ≤ position + 1 + bound) :
    Returns (statement listing recur position stop jumps out) state
      fun result last => Covered listing initial (scopeOf jumps) first result.1 result.2 last := by
  have located := Array.getElem?_eq_getElem (Nat.lt_of_lt_of_le inside fits)
  have noHandlers : state.handlers = [] := List.eq_nil_iff_forall_not_mem.mpr fun handler member =>
    List.not_mem_nil (visited.handlers handler member)
  unfold statement
  simp only [located]
  refine returns_get_bind ?_
  have loops {source : Nat} (found : (if jumps.continueTo.contains position then none
      else listing.backEdge? state.store position stop) = some source) := Listing.backEdge?_of_ite found
  generalize (if jumps.continueTo.contains position then none
    else listing.backEdge? state.store position stop) = backEdge at loops
  have unprotected : protectedEnd? listing state.handlers position stop = none := by
    rw [noHandlers]
    rfl
  simp only [unprotected]
  cases backEdge with
  | none => exact plain_keeps recurs keeps given visited kept inside fits bounded located
  | some source =>
    obtain ⟨ordered, sourceInside, back⟩ := loops rfl
    exact backEdgeLoop_keeps given.valid given.distinct recurs keeps visited kept ordered sourceInside fits bounded back

end Steps

theorem regionFrom_keeps {bound : Nat} {jumps : Jumps} {state : State} (given : Given listing initial)
    (visited : Visited listing initial [] position state)
    (kept : Kept listing initial (scopeOf jumps) first position out state.store) (ordered : position ≤ stop)
    (fits : stop ≤ listing.size) (bounded : stop ≤ position + bound) :
    Returns (regionFrom listing bound position stop jumps out) state
      fun body last => Covered listing initial (scopeOf jumps) first stop body last := by
  -- The bound also counts how deep regions are nested, so that the hypothesis serves the inner regions as well as the rest.
  induction bound generalizing first stop position jumps out state with
  | zero =>
    have ends : position = stop := by omega
    exact returns_pure (ends ▸ ⟨visited, kept⟩)
  | succ bound ih =>
    unfold regionFrom
    by_cases done : stop ≤ position
    · have ends : position = stop := by omega
      rw [if_pos done]
      exact returns_pure (ends ▸ ⟨visited, kept⟩)
    · rw [if_neg done]
      have inside : position < stop := by omega
      have recurs : Recurs listing fun first stop jumps => regionFrom listing bound first stop jumps [] :=
        fun first stop jumps => regionFrom_reworks listing bound first stop jumps []
      have keeps : Keeps listing initial bound fun first stop jumps => regionFrom listing bound first stop jumps [] :=
        fun first stop jumps state ordered fits bounded visited =>
          (ih visited (.nil listing initial _ _ _) ordered fits bounded).of_run fun _ _ _ covered => covered.kept
      refine Returns.bind ((statement_keeps recurs keeps given visited kept inside fits (by omega)).of_run
        fun result middle ran covered => ?_) fun result middle rest => rest
      obtain ⟨advanced, ends⟩ := statement_advances jumps out inside state result middle ran
      exact ih covered.visited covered.kept ends fits (by omega)

/-- Structuring a list of distinct raw statements without handlers succeeds if every switch is entered right behind it. The
outline of the result, in which every exit has something to leave or to repeat, names each statement once, a `goto` at most
once. The other nodes in it are new and evaluate nothing but their controls, and all nodes that were there evaluate what they
evaluated before. -/
theorem build_keeps_each_statement {store : Store} {statements : List NodeId} (maxLocals : Slot) (distinct : statements.Nodup)
    (raw : ∀ id ∈ statements, ∃ kind, store.kind? id = some kind ∧ kind.isStructured = false)
    (enters : ∀ (position : Nat) id key default cases, statements[position]? = some id →
      store.kind? id = some (.switch key default cases) →
      (Listing.ofStatements store statements maxLocals).Enters position default cases) :
    ∃ body final outline, build store statements [] maxLocals = (.ok body, final) ∧
      (∀ other, final.Outlined {} body other ↔ other = outline) ∧
      (∀ id ∈ statements, outline.count id = 1 ∨ outline.count id = 0 ∧ ∃ target, store.kind? id = some (.goto target)) ∧
      (∀ id ∈ outline, id ∈ statements ∨
        store.kind? id = none ∧ ∀ kind, final.kind? id = some kind → kind.operands = kind.controls) ∧
      ∀ id kind, store.kind? id = some kind → ∃ changed, final.kind? id = some changed ∧ changed.operands = kind.operands := by
  generalize ofStatements : Listing.ofStatements store statements maxLocals = listing at enters
  have same : listing.statements = statements.toArray := by rw [← ofStatements]; rfl
  have valid (id : NodeId) (member : id ∈ statements) : id < store.size := by
    obtain ⟨kind, found, _⟩ := raw id member
    exact Store.lt_size_of_kind? found
  have given : Given listing store := by
    refine ⟨?_, ?_, ?_, ?_⟩
    · simpa [same] using valid
    · simpa [same] using distinct
    · intro id member kind found
      obtain ⟨original, given, isRaw⟩ := raw id (by simpa [same] using member)
      cases given.symm.trans found
      exact isRaw
    · simpa [same] using enters
  have visited : Visited listing store [] 0 ⟨store, []⟩ := ⟨.refl _, fun _ member => member⟩
  have start : Kept listing store (scopeOf {}) 0 0 [] store := .nil listing store store _ 0
  obtain ⟨body, last, ran, covered⟩ := regionFrom_keeps given visited start (Nat.zero_le _) (Nat.le_refl listing.size)
    (Nat.le_of_eq (Nat.zero_add _).symm)
  have reworked := (regionFrom_reworks listing listing.size 0 listing.size {} []).of_run ran
  obtain ⟨outline, outlined, accounts⟩ := covered.kept
  refine ⟨body, last.store, outline, ?_, fun other => ⟨outlined.unique, ?_⟩, fun id member => ?_, fun id member => ?_,
    fun id kind found => ?_⟩
  · simp only [build, ofStatements, ran]
  · rintro rfl
    exact outlined
  · have whole : listing.listedBefore listing.size id = 1 := by
      simpa [Listing.listedBefore, Listing.size, same, member] using distinct.count (a := id)
    have none : listing.listedBefore 0 id = 0 := by simp [Listing.listedBefore]
    have atMost := accounts.atMost id (valid id member)
    by_cases goes : ∃ target, store.kind? id = some (.goto target)
    · rcases Nat.eq_zero_or_pos (outline.count id) with missing | named
      · exact .inr ⟨missing, goes⟩
      · exact .inl (by omega)
    · have all := accounts.all id (valid id member) fun target found => goes ⟨target, found⟩
      exact .inl (by omega)
  · by_cases old : id < store.size
    · obtain ⟨position, _, _, located⟩ := accounts.covers member old
      exact .inl (by simpa [same] using Array.mem_of_getElem? located)
    · have outside : store.size ≤ id := Nat.le_of_not_lt old
      refine .inr ⟨Option.eq_none_iff_forall_ne_some.mpr fun kind found => ?_, fun kind => reworked.added id kind outside⟩
      exact old (Store.lt_size_of_kind? found)
  · obtain ⟨changed, foundAfter, change, _⟩ := reworked.store.kind? found
    exact ⟨changed, foundAfter, change.operands_eq⟩

/-! A counted loop around a switch. The `goto` into the loop is dropped, and the one behind the first arm becomes a `break`. -/

def dispatch : Store :=
  ⟨#[⟨0, none, .literal (.int 0)⟩, ⟨1, none, .write (.slot .int 1) 0⟩, ⟨2, none, .goto 40⟩, ⟨5, none, .read (.slot .int 0)⟩,
    ⟨6, none, .switch 3 30 [(1, 20)]⟩, ⟨20, none, .bump 2 1⟩, ⟨23, none, .goto 33⟩, ⟨30, none, .bump 2 2⟩, ⟨33, none, .bump 1 1⟩,
    ⟨40, none, .read (.slot .int 1)⟩, ⟨41, none, .read (.slot .int 0)⟩, ⟨42, none, .branch (.pair .lt 9 10) 5⟩,
    ⟨45, none, .ret none⟩]⟩

def dispatched : Store :=
  let arms := [⟨[1], false, [5, 6]⟩, ⟨[], true, [7]⟩]
  ((dispatch.replace 4 (.switchArms 3 arms)).replace 6 .breakOut).allocate 11 (.loop (.counted 1 11 8) [4]) |>.2

def dispatchListing : Listing := .ofStatements dispatch [1, 2, 4, 5, 6, 7, 8, 11, 12] 3

def dispatchArmed : Store :=
  (dispatch.replace 6 .breakOut).replace 4 (.switchArms 3 [⟨[1], false, [5, 6]⟩, ⟨[], true, [7]⟩])

theorem switch_dispatch :
    switch dispatchListing (fun first stop jumps => regionFrom dispatchListing 6 first stop jumps []) 2 6
      { breakTo := some 8, continueTo := [7, 6] } [] 4 3 30 [(1, 20)] ⟨dispatch, []⟩ = (.ok (6, [4]), ⟨dispatchArmed, []⟩) := by
  have default : dispatchListing.positionOf 30 = 5 := by with_unfolding_all rfl
  have first : dispatchListing.positionOf 20 = 3 := by with_unfolding_all rfl
  have starts : armStarts 2 6 5 [(1, 3)] = [3, 5] := by
    simp [armStarts, List.mergeSort, List.eraseReps, List.eraseRepsBy, List.eraseRepsBy.loop]
  simp only [switch, List.map_cons, List.map_nil, default, first, starts]
  with_unfolding_all rfl

theorem whileLoop_dispatch :
    whileLoop dispatchListing (fun first stop jumps => regionFrom dispatchListing 7 first stop jumps []) 2 7 11 7 8 [1]
      ⟨dispatch, []⟩ = (.ok [13], ⟨dispatched, []⟩) := by
  have parts : countedParts? dispatchListing dispatch 2 7 11 [1] = some (1, 6) := by with_unfolding_all rfl
  have first := (statement_eq_switch rfl rfl rfl (by with_unfolding_all rfl)).trans switch_dispatch
  unfold whileLoop
  simp only [run_get_bind, parts]
  exact bind_ok.mpr ⟨_, _, bind_ok.mpr ⟨_, _, first, rfl⟩, rfl⟩

theorem build_dispatch : build dispatch [1, 2, 4, 5, 6, 7, 8, 11, 12] [] 3 = (.ok [13, 12], dispatched) := by
  have first : statement dispatchListing (fun first stop jumps => regionFrom dispatchListing 8 first stop jumps []) 0 9 {} []
      ⟨dispatch, []⟩ = (.ok (1, [1]), ⟨dispatch, []⟩) := by
    with_unfolding_all rfl
  have second : statement dispatchListing (fun first stop jumps => regionFrom dispatchListing 7 first stop jumps []) 1 9 {} [1]
      ⟨dispatch, []⟩ = (.ok (8, [13]), ⟨dispatched, []⟩) := by
    have located : dispatchListing.statements[1]? = some 2 := rfl
    have found : dispatch.kind? 2 = some (.goto 40) := rfl
    have unprotected : protectedEnd? dispatchListing [] 1 9 = none := rfl
    have straight : dispatchListing.backEdge? dispatch 1 9 = none := by with_unfolding_all rfl
    have tested : dispatchListing.bottomTest? dispatch 1 9 = some 7 := by with_unfolding_all rfl
    unfold statement plain
    simp only [located, run_get_bind, unprotected, straight, ite_self, found, tested]
    exact bind_ok.mpr ⟨_, _, whileLoop_dispatch, rfl⟩
  have built : regionFrom dispatchListing 9 0 9 {} [] ⟨dispatch, []⟩ = (.ok [13, 12], ⟨dispatched, []⟩) := by
    refine bind_ok.mpr ⟨_, _, first, ?_⟩
    refine bind_ok.mpr ⟨_, _, second, ?_⟩
    with_unfolding_all rfl
  exact build_eq_of_region built

theorem dispatch_keeps_each_statement :
    ∃ outline, (∀ other, dispatched.Outlined {} [13, 12] other ↔ other = outline) ∧
      ∀ id ∈ [1, 2, 4, 5, 6, 7, 8, 11, 12], outline.count id = 1 ∨
        outline.count id = 0 ∧ ∃ target, dispatch.kind? id = some (.goto target) := by
  have raw : ∀ id ∈ [1, 2, 4, 5, 6, 7, 8, 11, 12], ∃ kind, dispatch.kind? id = some kind ∧ kind.isStructured = false := by
    intro id listed
    simp only [List.mem_cons, List.not_mem_nil, or_false] at listed
    rcases listed with rfl | rfl | rfl | rfl | rfl | rfl | rfl | rfl | rfl <;> exact ⟨_, rfl, rfl⟩
  have enters (position : Nat) (id key : NodeId) (default : Offset) (cases : List (Int32 × Offset))
      (located : [1, 2, 4, 5, 6, 7, 8, 11, 12][position]? = some id)
      (found : dispatch.kind? id = some (.switch key default cases)) :
      (Listing.ofStatements dispatch [1, 2, 4, 5, 6, 7, 8, 11, 12] 3).Enters position default cases := by
    have first : (Listing.ofStatements dispatch [1, 2, 4, 5, 6, 7, 8, 11, 12] 3).positionOf 20 = 3 := by with_unfolding_all rfl
    rcases position with _ | _ | _ | position
    · cases located
      cases found
    · cases located
      cases found
    · cases located
      cases found
      exact ⟨20, by simp, first⟩
    · have listed : id ∈ [5, 6, 7, 8, 11, 12] := List.mem_of_getElem? located
      simp only [List.mem_cons, List.not_mem_nil, or_false] at listed
      rcases listed with rfl | rfl | rfl | rfl | rfl | rfl <;> cases found
  obtain ⟨body, final, outline, built, outlined, once, _⟩ := build_keeps_each_statement 3 (by decide) raw enters
  cases built.symm.trans build_dispatch
  exact ⟨outline, outlined, once⟩

end Region

end ClassLift
