import ClassLift.Proofs.Action
import ClassLift.Proofs.Body.Position
import ClassLift.Proofs.Structure.Outline
import ClassLift.Proofs.Structure.Progress

namespace ClassLift

/-! ## Changed nodes -/

def Kind.isJump : Kind → Bool
  | branch .. | goto _ | switch .. => true
  | _ => false

/-- What becomes of a node: the test of a branch may be inverted, a `goto` may become an exit, a switch gets its arms. -/
inductive Kind.Reworked : Kind → Kind → Prop
  | kept (kind : Kind) : Reworked kind kind
  | inverted (test : Test) (target : Offset) : Reworked (.branch test target) (.branch test.negate target)
  | leaving (target : Offset) : Reworked (.goto target) .breakOut
  | repeating (target : Offset) : Reworked (.goto target) .continueLoop
  | arranged (key : NodeId) (default : Offset) (cases : List (Int32 × Offset)) (arms : List SwitchArm) :
      Reworked (.switch key default cases) (.switchArms key arms)

namespace Kind.Reworked

theorem trans {first second third : Kind} (early : Reworked first second) (late : Reworked second third) :
    Reworked first third := by
  cases early with
  | kept => exact late
  | inverted test target =>
    cases late with
    | kept => exact .inverted test target
    | inverted =>
      rw [Test.negate_negate]
      exact .kept _
  | leaving target => cases late; exact .leaving target
  | repeating target => cases late; exact .repeating target
  | arranged key default cases arms => cases late; exact .arranged key default cases arms

theorem negateTest (kind : Kind) : Reworked kind kind.negateTest := by
  cases kind with
  | branch test target => exact .inverted test target
  | _ => exact .kept _

theorem branch_inv {kind : Kind} {test : Test} {target : Offset} (reworked : Reworked kind (.branch test target)) :
    kind = .branch test target ∨ kind = .branch test.negate target := by
  cases reworked with
  | kept => exact .inl rfl
  | inverted test target =>
    right
    rw [Test.negate_negate]

theorem goto_inv {kind : Kind} {target : Offset} (reworked : Reworked kind (.goto target)) : kind = .goto target := by
  cases reworked
  rfl

theorem switch_inv {kind : Kind} {key : NodeId} {default : Offset} {cases : List (Int32 × Offset)}
    (reworked : Reworked kind (.switch key default cases)) : kind = .switch key default cases := by
  cases reworked
  rfl

theorem eq_of_not_isJump {kind changed : Kind} (reworked : kind.Reworked changed) (noJump : kind.isJump = false) :
    changed = kind := by
  cases reworked with
  | kept => rfl
  | inverted => cases noJump
  | leaving => cases noJump
  | repeating => cases noJump
  | arranged => cases noJump

theorem operands_eq {kind changed : Kind} (reworked : kind.Reworked changed) : changed.operands = kind.operands := by
  cases reworked with
  | inverted test => cases test <;> rfl
  | _ => rfl

theorem operands_eq_controls {kind changed : Kind} (reworked : kind.Reworked changed) (own : kind.operands = kind.controls) :
    changed.operands = changed.controls := by
  rw [reworked.operands_eq, own]
  cases reworked <;> rfl

end Kind.Reworked

/-! ## Changed stores -/

/-- The store after some structuring, of which only the nodes in `touched` may have changed. -/
structure Store.Reworked (touched : NodeId → Prop) (before after : Store) : Prop where
  size_le : before.size ≤ after.size
  node : ∀ id node, before.node? id = some node → ∃ kind, after.node? id = some { node with kind } ∧
    node.kind.Reworked kind ∧ (¬ touched id → kind = node.kind)

namespace Store.Reworked

variable {touched wider : NodeId → Prop} {before after last : Store} {id origin : NodeId} {kind : Kind}

theorem refl (store : Store) : store.Reworked touched store :=
  ⟨Nat.le_refl _, fun _ node located => ⟨node.kind, located, .kept _, fun _ => rfl⟩⟩

theorem trans (early : before.Reworked touched after) (late : after.Reworked touched last) :
    before.Reworked touched last := by
  refine ⟨Nat.le_trans early.size_le late.size_le, ?_⟩
  intro id node located
  obtain ⟨middle, locatedMiddle, firstChange, firstSame⟩ := early.node id node located
  obtain ⟨final, locatedFinal, secondChange, secondSame⟩ := late.node id _ locatedMiddle
  exact ⟨final, locatedFinal, firstChange.trans secondChange,
    fun untouched => (secondSame untouched).trans (firstSame untouched)⟩

theorem widen (reworked : before.Reworked touched after) (subset : ∀ id, touched id → wider id) :
    before.Reworked wider after := by
  refine ⟨reworked.size_le, ?_⟩
  intro id node located
  obtain ⟨kind, found, change, same⟩ := reworked.node id node located
  exact ⟨kind, found, change, fun untouched => same fun inside => untouched (subset id inside)⟩

theorem kind? (reworked : before.Reworked touched after) (found : before.kind? id = some kind) :
    ∃ changed, after.kind? id = some changed ∧ kind.Reworked changed ∧ (¬ touched id → changed = kind) := by
  obtain ⟨node, located, rfl⟩ := kind?_eq_some.mp found
  obtain ⟨changed, foundAfter, change, same⟩ := reworked.node id node located
  exact ⟨changed, kind?_of_node? foundAfter, change, same⟩

theorem kind?_of_not_isJump (reworked : before.Reworked touched after) (found : before.kind? id = some kind)
    (noJump : kind.isJump = false) : after.kind? id = some kind := by
  obtain ⟨changed, foundAfter, change, _⟩ := reworked.kind? found
  rw [foundAfter, change.eq_of_not_isJump noJump]

theorem kind?_before (reworked : before.Reworked touched after) (inside : id < before.size)
    (found : after.kind? id = some kind) : ∃ earlier, before.kind? id = some earlier ∧ earlier.Reworked kind := by
  obtain ⟨node, located⟩ := node?_isSome inside
  obtain ⟨changed, foundAfter, change, _⟩ := reworked.kind? (kind?_of_node? located)
  rw [found, Option.some_inj] at foundAfter
  exact ⟨node.kind, kind?_of_node? located, foundAfter ▸ change⟩

theorem allocate (store : Store) (origin : NodeId) (kind : Kind) :
    store.Reworked touched (store.allocate origin kind).2 := by
  refine ⟨size_le_allocate, ?_⟩
  intro id node located
  refine ⟨node.kind, ?_, .kept _, fun _ => rfl⟩
  rw [node?_allocate_of_lt (lt_size_of_node? located), located]

theorem negate (inside : touched id) : before.Reworked touched (before.negate id) := by
  refine ⟨by simp, ?_⟩
  intro other node located
  by_cases same : other = id
  · subst same
    exact ⟨node.kind.negateTest, by simp [node?_negate, located], .negateTest _, fun untouched => absurd inside untouched⟩
  · exact ⟨node.kind, by simp [node?_negate, same, located], .kept _, fun _ => rfl⟩

theorem replace (reworked : before.Reworked touched after) (inside : touched id)
    (change : ∀ earlier, before.kind? id = some earlier → earlier.Reworked kind) :
    before.Reworked touched (after.replace id kind) := by
  refine ⟨by simpa using reworked.size_le, ?_⟩
  intro other node located
  obtain ⟨changed, found, changes, same⟩ := reworked.node other node located
  by_cases equal : other = id
  · subst equal
    exact ⟨kind, by simp [node?_replace, found], change _ (kind?_of_node? located), fun untouched => absurd inside untouched⟩
  · exact ⟨changed, by simp [node?_replace, equal, found], changes, same⟩

end Store.Reworked

/-! ## Ranges of positions -/

def Listing.Covers (listing : Listing) (first stop : Nat) (id : NodeId) : Prop :=
  ∃ position, first ≤ position ∧ position < stop ∧ listing.statements[position]? = some id

theorem Listing.Covers.widen {listing : Listing} {first stop lower upper : Nat} {id : NodeId}
    (covered : listing.Covers first stop id) (lower_le : lower ≤ first) (le_upper : stop ≤ upper) :
    listing.Covers lower upper id := by
  obtain ⟨position, above, below, located⟩ := covered
  exact ⟨position, Nat.le_trans lower_le above, Nat.lt_of_lt_of_le below le_upper, located⟩

/-- Reworking later statements leaves an earlier one alone, unless it is listed twice. -/
theorem Store.Reworked.kind?_of_earlier {listing : Listing} {before after : Store} {position lower upper : Nat} {id : NodeId}
    {kind : Kind} (reworked : before.Reworked (listing.Covers lower upper) after) (distinct : listing.statements.toList.Nodup)
    (located : listing.statements[position]? = some id) (earlier : position < lower) (found : before.kind? id = some kind) :
    after.kind? id = some kind := by
  obtain ⟨changed, foundAfter, _, untouched⟩ := reworked.kind? found
  rw [foundAfter, untouched]
  rintro ⟨other, above, _, locatedOther⟩
  have := Listing.position_unique distinct located locatedOther
  omega

/-! ## Regions -/

namespace Region

/-- Structuring between two positions: handlers are only taken off, only statements of the range change, no node moves, and
the nodes that are added evaluate nothing but their controls. -/
structure State.Reworked (listing : Listing) (first stop : Nat) (before after : State) : Prop where
  store : before.store.Reworked (listing.Covers first stop) after.store
  handlers : ∀ handler ∈ after.handlers, handler ∈ before.handlers
  grows : before.store.Grows after.store
  added : ∀ id kind, before.store.size ≤ id → after.store.kind? id = some kind → kind.operands = kind.controls

namespace State.Reworked

variable {listing : Listing} {first stop lower upper : Nat} {before after last : State}

theorem of_size_le (store : before.store.Reworked (listing.Covers first stop) after.store)
    (handlers : ∀ handler ∈ after.handlers, handler ∈ before.handlers) (grows : before.store.Grows after.store)
    (size_le : after.store.size ≤ before.store.size) : State.Reworked listing first stop before after := by
  refine ⟨store, handlers, grows, fun id kind outside found => ?_⟩
  exact absurd (Nat.lt_of_lt_of_le (Store.lt_size_of_kind? found) size_le) (Nat.not_lt.mpr outside)

theorem refl (state : State) : State.Reworked listing first stop state state :=
  .of_size_le (.refl _) (fun _ member => member) (.refl _) (Nat.le_refl _)

theorem trans (early : State.Reworked listing first stop before after) (late : State.Reworked listing first stop after last) :
    State.Reworked listing first stop before last := by
  refine ⟨early.store.trans late.store, fun handler member => early.handlers handler (late.handlers handler member),
    early.grows.trans late.grows, fun id kind outside found => ?_⟩
  by_cases inside : id < after.store.size
  · obtain ⟨earlier, foundEarlier, change⟩ := late.store.kind?_before inside found
    exact change.operands_eq_controls (early.added id earlier outside foundEarlier)
  · exact late.added id kind (by omega) found

theorem widen (reworked : State.Reworked listing first stop before after) (lower_le : lower ≤ first) (le_upper : stop ≤ upper) :
    State.Reworked listing lower upper before after :=
  ⟨reworked.store.widen fun _ covered => covered.widen lower_le le_upper, reworked.handlers, reworked.grows, reworked.added⟩

instance : Std.Refl (State.Reworked listing first stop) := ⟨refl⟩

instance : IsTrans State (State.Reworked listing first stop) := ⟨fun _ _ _ early late => early.trans late⟩

end State.Reworked

section Steps

variable {listing : Listing} {first stop lower upper : Nat}

theorem preserves_widen {α : Type} {action : Build α} (reworks : Preserves (State.Reworked listing first stop) action)
    (lower_le : lower ≤ first) (le_upper : stop ≤ upper) : Preserves (State.Reworked listing lower upper) action :=
  fun state => (reworks state).widen lower_le le_upper

theorem allocate_reworks (origin : NodeId) {kind : Kind} (own : kind.operands = kind.controls) :
    Preserves (State.Reworked listing first stop) (allocate origin kind) := by
  refine preserves_modifyGet fun state => ⟨.allocate state.store origin kind, fun _ member => member, .allocate _ _ _, ?_⟩
  intro id made outside found
  cases Store.kind?_allocate_of_le outside found
  exact own

theorem negate_reworks {position : Nat} {id : NodeId} (above : first ≤ position) (below : position < stop)
    (located : listing.statements[position]? = some id) : Preserves (State.Reworked listing first stop) (negate id) :=
  preserves_modify fun _ => .of_size_le (.negate ⟨position, above, below, located⟩) (fun _ member => member) (.negate _ _)
    (Nat.le_of_eq Store.size_negate)

theorem jump_reworks {position target : Nat} {statement : NodeId} {offset : Offset} (jumps : Jumps) (out : List NodeId)
    (state : State) (inside : position < upper) (located : listing.statements[position]? = some statement)
    (found : state.store.kind? statement = some (.goto offset)) :
    State.Reworked listing position upper state (jump position stop jumps out statement target state).2 := by
  unfold jump
  split
  · exact .refl _
  · cases exits : jumps.exit? target with
    | none => exact .refl _
    | some kind =>
      refine .of_size_le ((Store.Reworked.refl _).replace ⟨position, Nat.le_refl _, inside, located⟩ ?_)
        (fun _ member => member) (.replace _ _ _) (Nat.le_of_eq Store.size_replace)
      intro earlier foundEarlier
      rw [found, Option.some_inj] at foundEarlier
      subst foundEarlier
      rcases Jumps.exit?_eq_some exits with ⟨rfl, _⟩ | ⟨rfl, _⟩
      · exact .leaving offset
      · exact .repeating offset

def Recurs (listing : Listing) (recur : Recur) : Prop :=
  ∀ first stop jumps, Preserves (State.Reworked listing first stop) (recur first stop jumps)

variable {recur : Recur} (recurs : Recurs listing recur)
include recurs

theorem recur_reworks (jumps : Jumps) (lower_le : lower ≤ first) (le_upper : stop ≤ upper) :
    Preserves (State.Reworked listing lower upper) (recur first stop jumps) :=
  preserves_widen (recurs first stop jumps) lower_le le_upper

theorem whileLoop_reworks (condition : NodeId) (continueTo exit : Nat) (out : List NodeId) (lower_le : lower ≤ first)
    (le_upper : stop ≤ upper) :
    Preserves (State.Reworked listing lower upper) (whileLoop listing recur first stop condition continueTo exit out) := by
  refine .get_bind fun state => ?_
  split
  next start update counted =>
    have bounds := countedParts?_eq_some counted
    split
    · refine preserves_bind (recur_reworks recurs _ lower_le (by omega)) fun body => ?_
      exact preserves_bind (allocate_reworks _ rfl) fun _ => preserves_pure _
    · exact preserves_pure _
  next =>
    refine preserves_bind (recur_reworks recurs _ lower_le le_upper) fun body => ?_
    exact preserves_bind (allocate_reworks _ rfl) fun _ => preserves_pure _

theorem backEdgeLoop_reworks {header backEdge : Nat} (out : List NodeId) (ordered : header ≤ backEdge)
    (below : backEdge < upper) :
    Preserves (State.Reworked listing header upper) (backEdgeLoop listing recur header backEdge out) := by
  unfold backEdgeLoop
  split
  next source locatedSource =>
    split
    next first locatedFirst =>
      refine .get_bind fun state => ?_
      simp only
      split
      · refine preserves_bind (recur_reworks recurs _ (Nat.le_refl _) (by omega)) fun body => ?_
        exact preserves_bind (allocate_reworks _ rfl) fun _ => preserves_pure _
      · split
        · refine preserves_bind (negate_reworks (Nat.le_refl _) (by omega) locatedFirst) fun _ => ?_
          refine preserves_bind ?_ fun _ => preserves_pure _
          exact whileLoop_reworks recurs _ _ _ _ (by omega) (by omega)
        · refine preserves_bind (recur_reworks recurs _ (Nat.le_refl _) (by omega)) fun body => ?_
          exact preserves_bind (allocate_reworks _ rfl) fun _ => preserves_pure _
    · exact preserves_pure _
  · exact preserves_pure _

theorem conditional_reworks {position target : Nat} {branch : NodeId} (jumps : Jumps) (out : List NodeId)
    (inside : position < stop) (located : listing.statements[position]? = some branch) :
    Preserves (State.Reworked listing position stop) (conditional listing recur position stop jumps out branch target) := by
  unfold conditional
  split
  next ahead =>
    simp only [Bool.and_eq_true, decide_eq_true_eq] at ahead
    refine .get_bind fun state => ?_
    refine preserves_bind (negate_reworks (Nat.le_refl _) inside located) fun _ => ?_
    cases found : listing.elseEnd? state.store position target stop with
    | none =>
      simp only
      refine preserves_bind (recur_reworks recurs _ (by omega) ahead.2) fun onTrue => ?_
      refine preserves_bind (recur_reworks recurs _ (by omega) ahead.2) fun onFalse => ?_
      exact preserves_bind (allocate_reworks _ rfl) fun _ => preserves_pure _
    | some last =>
      have bounds := Listing.elseEnd?_eq_some found
      simp only
      refine preserves_bind (recur_reworks recurs _ (by omega) (by omega)) fun onTrue => ?_
      refine preserves_bind (recur_reworks recurs _ (by omega) bounds.2.2.2) fun onFalse => ?_
      exact preserves_bind (allocate_reworks _ rfl) fun _ => preserves_pure _
  next =>
    split
    next kind exits =>
      have own : kind.operands = kind.controls := by
        rcases Jumps.exit?_eq_some exits with ⟨rfl, _⟩ | ⟨rfl, _⟩ <;> rfl
      refine preserves_bind (allocate_reworks _ own) fun exit => ?_
      exact preserves_bind (allocate_reworks _ rfl) fun _ => preserves_pure _
    · exact preserves_pure _

theorem arms_reworks (default last : Nat) (cases : List (Int32 × Nat)) (jumps : Jumps) (starts : List Nat)
    (above : ∀ start ∈ starts, lower ≤ start) :
    Preserves (State.Reworked listing lower last) (arms recur default last cases jumps starts) := by
  induction starts with
  | nil => exact preserves_pure _
  | cons start rest ih =>
    unfold arms
    split
    · exact preserves_pure _
    · refine preserves_bind (recur_reworks recurs _ (above start List.mem_cons_self) ?_) fun body => ?_
      · cases rest with
        | nil => exact Nat.le_refl _
        | cons next _ => exact Nat.min_le_left _ _
      · refine preserves_bind (ih fun start member => above start (List.mem_cons_of_mem _ member)) fun others => ?_
        exact preserves_pure _

/-- The switch itself is changed last, whatever the arms did in between. -/
theorem switch_reworks {position : Nat} {statement key : NodeId} {default : Offset} {cases : List (Int32 × Offset)}
    (jumps : Jumps) (out : List NodeId) (state : State) (inside : position < stop)
    (located : listing.statements[position]? = some statement)
    (found : state.store.kind? statement = some (.switch key default cases)) :
    State.Reworked listing position stop state
      (switch listing recur position stop jumps out statement key default cases state).2 := by
  unfold switch
  generalize listing.positionOf default = defaultAt
  generalize cases.map _ = casesAt
  simp only
  cases isLast : (armStarts position stop defaultAt casesAt).getLast? with
  | none => exact .refl _
  | some lastStart =>
    have bounds := (mem_armStarts.mp (List.mem_of_getLast? isLast)).2
    have ends := (switchEnd_bounds listing state.store position defaultAt casesAt bounds.2).2
    have above : ∀ start ∈ armStarts position stop defaultAt casesAt, position ≤ start :=
      fun start member => Nat.le_of_lt (mem_armStarts.mp member).2.1
    simp only
    rw [run_get_bind, run_bind]
    generalize switchEnd listing state.store position stop defaultAt casesAt lastStart = last at ends ⊢
    have reworked := (arms_reworks recurs defaultAt last casesAt { jumps with breakTo := some last } _ above state).widen
      (Nat.le_refl _) ends
    revert reworked
    cases arms recur defaultAt last casesAt { jumps with breakTo := some last }
      (armStarts position stop defaultAt casesAt) state with
    | mk outcome middle =>
      intro reworked
      cases outcome with
      | error error => exact reworked
      | ok built =>
        refine ⟨reworked.store.replace ⟨position, Nat.le_refl _, inside, located⟩ ?_, reworked.handlers,
          reworked.grows.trans (.replace _ _ _), fun id kind outside foundAfter => ?_⟩
        · intro earlier foundEarlier
          rw [found, Option.some_inj] at foundEarlier
          subst foundEarlier
          exact .arranged key default cases built
        · have apart : id ≠ statement := Nat.ne_of_gt (Nat.lt_of_lt_of_le (Store.lt_size_of_kind? found) outside)
          exact reworked.added id kind outside ((Store.kind?_replace_of_ne apart).symm.trans foundAfter)

theorem clauses_reworks {after : Nat} (bodyEnd : Nat) (jumps : Jumps) (handlers : List (Nat × Handler))
    (afterInside : after ≤ stop) (afterAbove : bodyEnd ≤ after) (inside : ∀ found ∈ handlers, bodyEnd ≤ found.1 ∧ found.1 < stop) :
    Preserves (State.Reworked listing bodyEnd stop) (clauses listing recur after jumps handlers) := by
  induction handlers with
  | nil => exact preserves_pure _
  | cons head rest ih =>
    obtain ⟨start, handler⟩ := head
    have headInside := inside _ List.mem_cons_self
    have restReworks := ih fun found member => inside found (List.mem_cons_of_mem _ member)
    have ends : bodyEnd ≤ (rest.head?.map (·.1)).getD after ∧ (rest.head?.map (·.1)).getD after ≤ stop := by
      cases rest with
      | nil => exact ⟨afterAbove, afterInside⟩
      | cons next others =>
        have := inside next (by simp)
        exact ⟨this.1, Nat.le_of_lt this.2⟩
    unfold clauses
    refine .get_bind fun state => ?_
    simp only
    generalize (rest.head?.map (·.1)).getD after = nextStart at ends ⊢
    have upper := Listing.withoutJump_le listing state.store start nextStart after
    have lower : bodyEnd ≤ listing.withoutJump state.store start nextStart after := by
      rcases Listing.withoutJump_cases listing state.store start nextStart after with same | ⟨long, less, _⟩ <;> omega
    have exception := exceptionSlot_position listing state.store start
    refine preserves_bind (recur_reworks recurs _ (by omega) (by omega)) fun body => ?_
    split
    · refine .get_bind fun later => ?_
      exact preserves_bind restReworks fun _ => preserves_pure _
    · exact preserves_bind restReworks fun _ => preserves_pure _

theorem tryCatch_reworks {position : Nat} {protectedStop : Offset} (jumps : Jumps) (out : List NodeId) (statement : NodeId)
    (nonempty : position < listing.positionOf protectedStop) :
    Preserves (State.Reworked listing position stop)
      (tryCatch listing recur position protectedStop stop jumps out statement) := by
  unfold tryCatch
  refine preserves_bind (preserves_modifyGet fun state => .of_size_le (.refl _) (fun handler => ?_) (.refl _) (Nat.le_refl _)) fun handlers => ?_
  · exact fun member => (List.mem_filter.mp member).1
  · simp only
    split
    next => exact fun state => .refl state
    next checked =>
      split
      next firstHandler first others =>
        have inside := checkHandlers_ok checked
        have firstInside := inside _ List.mem_cons_self
        refine .get_bind fun state => ?_
        have lastInside := lastHandler_bounds inside
        have ends := tryEnd_bounds listing state.store (listing.positionOf protectedStop) lastInside.2
        generalize tryEnd listing state.store (listing.positionOf protectedStop) stop firstHandler
          (others.map (·.1)) = after at ends ⊢
        have upper := Listing.withoutJump_le listing state.store position firstHandler after
        refine preserves_bind (recur_reworks recurs _ (Nat.le_refl _) (by omega)) fun body => ?_
        refine preserves_bind (preserves_widen (clauses_reworks recurs _ _ _ ends.2 (by omega) inside) (by omega)
          (Nat.le_refl _)) fun found => ?_
        refine .get_bind fun later => ?_
        exact preserves_bind (allocate_reworks _ rfl) fun _ => preserves_pure _
      next => exact preserves_pure _

theorem plain_reworks {position : Nat} {statement : NodeId} (jumps : Jumps) (out : List NodeId) (inside : position < stop)
    (located : listing.statements[position]? = some statement) :
    Preserves (State.Reworked listing position stop) (plain listing recur position stop jumps out statement) := by
  unfold plain
  refine preserves_get_bind fun state => ?_
  cases found : state.store.kind? statement with
  | none => exact .refl _
  | some kind =>
    cases kind with
    | switch key default cases => exact switch_reworks recurs _ _ state inside located found
    | branch test target => exact conditional_reworks recurs _ _ inside located state
    | goto target =>
      simp only
      cases bottom : listing.bottomTest? state.store position stop with
      | none => exact related_bind (jump_reworks _ _ state inside located found) fun _ middle _ => .refl middle
      | some test =>
        have bounds := Listing.bottomTest?_eq_some bottom
        simp only
        cases locatedTest : listing.statements[test]? with
        | none => exact .refl _
        | some condition =>
          refine preserves_bind (whileLoop_reworks recurs _ _ _ _ ?_ ?_) (fun _ => preserves_pure _) state <;> omega
    | _ => exact .refl _

theorem statement_reworks {position : Nat} (jumps : Jumps) (out : List NodeId) (inside : position < stop) :
    Preserves (State.Reworked listing position stop) (statement listing recur position stop jumps out) := by
  unfold statement
  split
  next current located =>
    refine .get_bind fun state => ?_
    simp only
    split
    next protectedStop isProtected _ => exact tryCatch_reworks recurs _ _ _ (protectedEnd?_eq_some isProtected).1
    next protectedStop source isProtected found =>
      split
      · exact tryCatch_reworks recurs _ _ _ (protectedEnd?_eq_some isProtected).1
      · obtain ⟨ordered, sourceInside, _⟩ := Listing.backEdge?_of_ite found
        exact backEdgeLoop_reworks recurs _ ordered sourceInside
    next source _ found =>
      obtain ⟨ordered, sourceInside, _⟩ := Listing.backEdge?_of_ite found
      exact backEdgeLoop_reworks recurs _ ordered sourceInside
    next => exact plain_reworks recurs _ _ inside located
  next => exact preserves_pure _

omit recurs in
theorem regionFrom_reworks (listing : Listing) (bound position stop : Nat) (jumps : Jumps) (out : List NodeId) :
    Preserves (State.Reworked listing position stop) (regionFrom listing bound position stop jumps out) := by
  induction bound generalizing position stop jumps out with
  | zero => exact preserves_pure _
  | succ bound ih =>
    unfold regionFrom
    split
    · exact preserves_pure _
    next inside =>
      have inside : position < stop := by omega
      refine .bind_of_yields (statement_reworks (fun first stop jumps => ih first stop jumps []) jumps out inside)
        (statement_advances jumps out inside) fun result advances => ?_
      exact preserves_widen (ih result.1 stop jumps result.2) (Nat.le_of_lt advances.1) (Nat.le_refl _)

end Steps

end Region

end ClassLift
