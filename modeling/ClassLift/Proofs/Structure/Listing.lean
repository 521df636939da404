import ClassLift.Structure.Region

namespace ClassLift

/-! ## Lists of positions and offsets -/

theorem eraseReps_cons_cons {α : Type} [BEq α] (first second : α) (rest : List α) :
    (first :: second :: rest).eraseReps =
      if first == second then (first :: rest).eraseReps else first :: (second :: rest).eraseReps := by
  have moved (current : α) (rest found : List α) :
      List.eraseRepsBy.loop (· == ·) current rest found =
        found.reverse ++ List.eraseRepsBy.loop (· == ·) current rest [] := by
    induction rest generalizing current found with
    | nil => simp [List.eraseRepsBy.loop]
    | cons next rest ih =>
      simp only [List.eraseRepsBy.loop]
      split
      · exact ih current found
      · rw [ih next (current :: found), ih next [current]]
        simp
  change List.eraseRepsBy.loop (· == ·) first (second :: rest) [] = _
  simp only [List.eraseRepsBy.loop]
  cases same : first == second with
  | true => rfl
  | false => exact moved second rest [first]

theorem mergeSort_ordered {α : Type} (key : α → Nat) (elements : List α) :
    (elements.mergeSort fun one other => decide (key one ≤ key other)).Pairwise fun one other => key one ≤ key other := by
  have transitive (one two three : α) (early : decide (key one ≤ key two) = true) (late : decide (key two ≤ key three) = true) :
      decide (key one ≤ key three) = true := by
    simp only [decide_eq_true_eq] at *
    omega
  have total (one other : α) : (decide (key one ≤ key other) || decide (key other ≤ key one)) = true := by
    simp only [Bool.or_eq_true, decide_eq_true_eq]
    omega
  simpa using List.pairwise_mergeSort transitive total elements

/-- Repetitions in a sorted list are next to each other, so that without them it is strictly increasing. -/
theorem eraseReps_increasing (first : Nat) (rest : List Nat) (sorted : (first :: rest).Pairwise (· ≤ ·)) :
    (first :: rest).eraseReps.Pairwise (· < ·) ∧
      ∀ position, position ∈ (first :: rest).eraseReps ↔ position ∈ first :: rest := by
  induction rest generalizing first with
  | nil => simp [List.eraseReps, List.eraseRepsBy, List.eraseRepsBy.loop]
  | cons second rest ih =>
    obtain ⟨least, restSorted⟩ := List.pairwise_cons.mp sorted
    obtain ⟨below, tailSorted⟩ := List.pairwise_cons.mp restSorted
    rw [eraseReps_cons_cons]
    by_cases same : first = second
    · subst same
      have shorter := ih first (List.pairwise_cons.mpr ⟨below, tailSorted⟩)
      simpa using shorter
    · obtain ⟨increasing, members⟩ := ih second restSorted
      rw [if_neg (by simpa using same)]
      refine ⟨List.pairwise_cons.mpr ⟨?_, increasing⟩, fun position => by simp [members]⟩
      intro position member
      have le := least second List.mem_cons_self
      rcases List.mem_cons.mp ((members position).mp member) with rfl | inRest
      · omega
      · have := below position inRest
        omega

instance : Std.MaxEqOr Offset where
  max_eq_or one other := by
    change (if one ≤ other then other else one) = one ∨ (if one ≤ other then other else one) = other
    split <;> simp

/-! ## Jumps -/

namespace Listing

variable {listing : Listing} {store : Store} {position first stop after target last : Nat}

section Search

variable {inFront : Nat → Bool} {base size total point : Nat}

theorem narrow_bounds (cut : ∀ place < total, inFront place = true ↔ place < point) (nonempty : 0 < size)
    (inside : base + size ≤ total) (reached : base ≤ point) (ends : point ≤ base + size) :
    narrow inFront base size < total ∧ narrow inFront base size ≤ point ∧ point ≤ narrow inFront base size + 1 := by
  fun_induction narrow inFront base size with
  | case1 base size single => omega
  | case2 base size several half continues =>
    have middle := cut (base + half) (by omega)
    apply continues
    · omega
    · split <;> omega
    · split
      · exact Nat.le_of_lt (middle.mp ‹_›)
      · exact reached
    · split
      · omega
      · have behind : ¬base + half < point := fun front => ‹¬_› (middle.mpr front)
        omega

theorem partitionPoint_eq (cut : ∀ place < size, inFront place = true ↔ place < point) (inside : point ≤ size) :
    partitionPoint inFront size = point := by
  unfold partitionPoint
  split
  · omega
  · have range : 0 + size ≤ size := by omega
    obtain ⟨known, notBehind, notFront⟩ := narrow_bounds cut (by omega) range (Nat.zero_le _) (by omega)
    have here := cut _ known
    dsimp only
    split
    · have := here.mp ‹_›
      omega
    · have : ¬narrow inFront 0 size < point := fun front => ‹¬_› (here.mpr front)
      omega

/-- On statements in the order of their starts, halving finds what a scan from the front finds. -/
theorem positionOf_eq_findIdx (listing : Listing) (offset : Offset) (ordered : listing.starts.Pairwise (· ≤ ·)) :
    listing.positionOf offset = listing.starts.findIdx (offset ≤ ·) := by
  refine partitionPoint_eq (fun place inside => ?_) List.findIdx_le_length
  simp only [List.getElem?_eq_getElem inside, Option.any_some, decide_eq_true_eq]
  constructor
  · intro early
    refine List.lt_findIdx_of_not inside fun earlier notAfter => ?_
    rw [decide_eq_true_eq, UInt32.not_le]
    rcases Nat.eq_or_lt_of_le notAfter with same | less
    · subst same
      exact early
    · have inOrder := List.pairwise_iff_getElem.mp ordered earlier place (by omega) inside less
      exact UInt32.lt_of_le_of_lt inOrder early
  · intro early
    have notYet := List.not_of_lt_findIdx early
    rwa [decide_eq_false_iff_not, UInt32.not_le] at notYet

end Search

theorem mem_positions : position ∈ positions first stop ↔ first ≤ position ∧ position < stop := by
  simp only [positions, List.mem_range'_1]
  omega

theorem position_unique {id : NodeId} {other : Nat} (distinct : listing.statements.toList.Nodup)
    (located : listing.statements[position]? = some id) (locatedOther : listing.statements[other]? = some id) :
    position = other := by
  rw [← Array.getElem?_toList] at located locatedOther
  have inside : position < listing.statements.toList.length := (List.getElem?_eq_some_iff.mp located).1
  exact (List.getElem?_inj inside distinct).mp (located.trans locatedOther.symm)

theorem kindAt?_eq_some {kind : Kind} :
    listing.kindAt? store position = some kind ↔
      ∃ id, listing.statements[position]? = some id ∧ store.kind? id = some kind := by
  simp [kindAt?, Option.bind_eq_some_iff]

theorem targetAt?_eq_some :
    listing.targetAt? store position = some target ↔
      ∃ kind offset, listing.kindAt? store position = some kind ∧ kind.target? = some offset ∧
        listing.positionOf offset = target := by
  simp only [targetAt?, Option.map_eq_some_iff, Option.bind_eq_some_iff]
  constructor
  · rintro ⟨offset, ⟨kind, found, leads⟩, rfl⟩
    exact ⟨kind, offset, found, leads, rfl⟩
  · rintro ⟨kind, offset, found, leads, rfl⟩
    exact ⟨offset, ⟨kind, found, leads⟩, rfl⟩

theorem isBranchAt_iff :
    listing.isBranchAt store position = true ↔
      ∃ test offset, listing.kindAt? store position = some (.branch test offset) := by
  unfold isBranchAt
  cases found : listing.kindAt? store position with
  | none => simp
  | some kind => cases kind <;> simp [Kind.isBranch]

theorem gotoTarget?_eq_some :
    listing.gotoTarget? store position = some target ↔
      ∃ offset, listing.kindAt? store position = some (.goto offset) ∧ listing.positionOf offset = target := by
  unfold gotoTarget? isGotoAt targetAt?
  cases found : listing.kindAt? store position with
  | none => simp
  | some kind => cases kind <;> simp [Kind.isGoto, Kind.target?]

theorem gotoTarget?_of_not_branch (leads : listing.targetAt? store position = some target)
    (noBranch : listing.isBranchAt store position = false) : listing.gotoTarget? store position = some target := by
  obtain ⟨kind, offset, found, aims, leads⟩ := targetAt?_eq_some.mp leads
  cases kind with
  | goto aim =>
    cases aims
    exact gotoTarget?_eq_some.mpr ⟨offset, found, leads⟩
  | branch test aim =>
    rw [isBranchAt_iff.mpr ⟨test, aim, found⟩] at noBranch
    cases noBranch
  | _ => cases aims

theorem backEdge?_eq_some {header source : Nat} (found : listing.backEdge? store header stop = some source) :
    header ≤ source ∧ source < stop ∧ listing.targetAt? store source = some header := by
  unfold backEdge? at found
  have member := List.mem_of_find?_eq_some found
  have jumps := List.find?_some found
  rw [List.mem_reverse, mem_positions] at member
  exact ⟨member.1, member.2, by simpa using jumps⟩

theorem backEdge?_of_ite {header source : Nat} {inLoop : Bool}
    (found : (if inLoop then none else listing.backEdge? store header stop) = some source) :
    header ≤ source ∧ source < stop ∧ listing.targetAt? store source = some header := by
  split at found
  · cases found
  · exact backEdge?_eq_some found

theorem bottomTest?_eq_some {test : Nat} (found : listing.bottomTest? store position stop = some test) :
    listing.targetAt? store position = some test ∧ position < test ∧ test < stop ∧
      listing.isBranchAt store test = true ∧ listing.targetAt? store test = some (position + 1) := by
  unfold bottomTest? at found
  rw [Option.filter_eq_some_iff] at found
  simpa [and_assoc] using found

theorem elseEnd?_eq_some (found : listing.elseEnd? store position target stop = some last) :
    position + 1 < target ∧ listing.gotoTarget? store (target - 1) = some last ∧ target < last ∧ last ≤ stop := by
  unfold elseEnd? at found
  split at found
  next long =>
    rw [Option.filter_eq_some_iff] at found
    exact ⟨long, found.1, by simpa using found.2⟩
  next => cases found

theorem withoutJump_cases (listing : Listing) (store : Store) (first stop after : Nat) :
    listing.withoutJump store first stop after = stop ∨
      first + 1 < stop ∧ listing.withoutJump store first stop after = stop - 1 ∧
        listing.gotoTarget? store (stop - 1) = some after := by
  unfold withoutJump
  split
  next strip =>
    simp only [Bool.and_eq_true, decide_eq_true_eq, beq_iff_eq] at strip
    exact .inr ⟨strip.1, rfl, strip.2⟩
  next => exact .inl rfl

theorem withoutJump_le (listing : Listing) (store : Store) (first stop after : Nat) :
    listing.withoutJump store first stop after ≤ stop := by
  rcases withoutJump_cases listing store first stop after with same | ⟨_, less, _⟩ <;> omega

theorem le_withoutJump (listing : Listing) (store : Store) (after : Nat) (nonempty : first < stop) :
    first < listing.withoutJump store first stop after := by
  rcases withoutJump_cases listing store first stop after with same | ⟨long, less, _⟩ <;> omega

end Listing

namespace Jumps

theorem exit?_eq_some {jumps : Jumps} {target : Nat} {kind : Kind} (found : jumps.exit? target = some kind) :
    kind = .breakOut ∧ jumps.breakTo = some target ∨ kind = .continueLoop ∧ target ∈ jumps.continueTo := by
  unfold exit? at found
  split at found
  next leaves => exact .inl ⟨(Option.some_inj.mp found).symm, leaves⟩
  next =>
    split at found
    next again => exact .inr ⟨(Option.some_inj.mp found).symm, by simpa using again⟩
    next => cases found

end Jumps

namespace Region

variable {listing : Listing} {store : Store} {position first stop last default : Nat} {cases : List (Int32 × Nat)}

theorem countedParts?_eq_some {condition start : NodeId} {update : Nat} {out : List NodeId}
    (found : countedParts? listing store first stop condition out = some (start, update)) :
    first ≤ update ∧ update + 1 = stop ∧ out.getLast? = some start ∧
      ∃ type slot value, store.kind? start = some (.write (.slot type slot) value) := by
  unfold countedParts? at found
  simp only [Option.bind_eq_bind, Option.bind_eq_some_iff] at found
  obtain ⟨begin, isLast, found⟩ := found
  split at found
  next type slot value written =>
    split at found
    next => cases found
    next nonempty =>
      simp only [ne_eq, ite_not] at found
      split at found
      · split at found
        · simp only [Option.some_inj, Prod.mk.injEq] at found
          obtain ⟨rfl, rfl⟩ := found
          exact ⟨by omega, by omega, isLast, type, slot, value, written⟩
        · cases found
      · cases found
  next => cases found

/-! ## Switches -/

theorem armStarts_increasing (position stop default : Nat) (cases : List (Int32 × Nat)) :
    (armStarts position stop default cases).Pairwise (· < ·) ∧
      ∀ start, start ∈ armStarts position stop default cases ↔
        start ∈ (cases.map (·.2) ++ [default]).filter fun start => position < start && start ≤ stop := by
  unfold armStarts
  simp only
  generalize (cases.map (·.2) ++ [default]).filter (fun start => decide (position < start) && decide (start ≤ stop)) = starts
  have sorted : (starts.mergeSort fun one other => decide (one ≤ other)).Pairwise (· ≤ ·) :=
    mergeSort_ordered (fun start => start) starts
  have members (start : Nat) : start ∈ starts.mergeSort (fun one other => decide (one ≤ other)) ↔ start ∈ starts :=
    List.mem_mergeSort
  revert sorted members
  cases starts.mergeSort (fun one other => decide (one ≤ other)) with
  | nil =>
    intro _ members
    exact ⟨.nil, members⟩
  | cons first rest =>
    intro sorted members
    obtain ⟨increasing, same⟩ := eraseReps_increasing first rest sorted
    exact ⟨increasing, fun start => (same start).trans (members start)⟩

theorem mem_armStarts {start : Nat} : start ∈ armStarts position stop default cases ↔
    (start = default ∨ ∃ value, (value, start) ∈ cases) ∧ position < start ∧ start ≤ stop := by
  rw [(armStarts_increasing _ _ _ _).2]
  simp only [List.mem_filter, List.mem_append, List.mem_map, List.mem_singleton, Prod.exists, exists_eq_right,
    Bool.and_eq_true, decide_eq_true_eq]
  exact and_congr_left fun _ => or_comm

/-- A switch that is entered right behind it has its first arm there. -/
theorem head?_armStarts (inside : position < stop) (enters : position + 1 = default ∨ ∃ value, (value, position + 1) ∈ cases) :
    (armStarts position stop default cases).head? = some (position + 1) := by
  have starts : position + 1 ∈ armStarts position stop default cases := mem_armStarts.mpr ⟨enters, Nat.lt_succ_self _, inside⟩
  have above (start : Nat) (member : start ∈ armStarts position stop default cases) := (mem_armStarts.mp member).2.1
  have increasing := (armStarts_increasing position stop default cases).1
  revert starts above increasing
  cases armStarts position stop default cases with
  | nil => simp
  | cons start rest =>
    intro starts above increasing
    have behind := above start List.mem_cons_self
    rcases List.mem_cons.mp starts with same | later
    · rw [same, List.head?_cons]
    · have := (List.pairwise_cons.mp increasing).1 _ later
      omega

theorem switchEnd_bounds (listing : Listing) (store : Store) (position default : Nat) (cases : List (Int32 × Nat))
    (lastInside : last ≤ stop) :
    last ≤ switchEnd listing store position stop default cases last ∧
      switchEnd listing store position stop default cases last ≤ stop := by
  unfold switchEnd
  simp only
  split
  next target least =>
    have member := List.min?_mem least
    simpa using (List.mem_filter.mp member).2
  next => split <;> omega

theorem armEnd_bounds {start ends : Nat} {rest : List Nat} (increasing : (start :: rest).Pairwise (· < ·)) (inside : start ≤ ends) :
    start ≤ rest.head?.elim ends (min ends) ∧ rest.head?.elim ends (min ends) ≤ ends ∧
      ∀ other ∈ rest, rest.head?.elim ends (min ends) ≤ other := by
  obtain ⟨least, restIncreasing⟩ := List.pairwise_cons.mp increasing
  cases rest with
  | nil => exact ⟨inside, Nat.le_refl _, by simp⟩
  | cons next later =>
    have behind := least next List.mem_cons_self
    refine ⟨Nat.le_min.mpr ⟨inside, Nat.le_of_lt behind⟩, Nat.min_le_left _ _, fun other member => ?_⟩
    refine Nat.le_trans (Nat.min_le_right _ _) ?_
    rcases List.mem_cons.mp member with rfl | member
    · exact Nat.le_refl _
    · exact Nat.le_of_lt ((List.pairwise_cons.mp restIncreasing).1 other member)

/-! ## Protected blocks -/

theorem protectedEnd?_eq_some {handlers : List Handler} {offset : Offset}
    (found : protectedEnd? listing handlers position stop = some offset) :
    position < listing.positionOf offset ∧ listing.positionOf offset ≤ stop ∧
      ∃ handler ∈ handlers, handler.stop = offset ∧ listing.positionOf handler.start = position := by
  unfold protectedEnd? at found
  have member := List.max?_mem found
  obtain ⟨handler, kept, rfl⟩ := List.mem_map.mp member
  obtain ⟨given, starts⟩ := List.mem_filter.mp kept
  simp only [Bool.and_eq_true, beq_iff_eq, decide_eq_true_eq] at starts
  exact ⟨starts.1.2, starts.2, handler, given, rfl, starts.1.1⟩

theorem checkHandlers_ok {bodyEnd : Nat} {handlers : List (Nat × Handler)}
    (checked : checkHandlers bodyEnd stop handlers = .ok ()) :
    ∀ found ∈ handlers, bodyEnd ≤ found.1 ∧ found.1 < stop := by
  induction handlers with
  | nil => simp
  | cons head rest ih =>
    unfold checkHandlers at checked
    split at checked
    · cases checked
    · split at checked
      · cases checked
      · intro found member
        rcases List.mem_cons.mp member with rfl | inRest
        · omega
        · exact ih checked found inRest

theorem tryEnd_bounds (listing : Listing) (store : Store) (bodyEnd : Nat) {others : List Nat}
    (lastInside : others.getLast?.getD first < stop) :
    others.getLast?.getD first < tryEnd listing store bodyEnd stop first others ∧
      tryEnd listing store bodyEnd stop first others ≤ stop := by
  unfold tryEnd
  simp only
  generalize (if bodyEnd < first then listing.gotoTarget? store (first - 1) else none).or
    (handlerExit? listing store others) = exit
  cases kept : exit.filter fun after => decide (others.getLast?.getD first < after) && decide (after ≤ stop) with
  | none => exact ⟨lastInside, Nat.le_refl _⟩
  | some after => simpa using (Option.filter_eq_some_iff.mp kept).2

theorem lastHandler_bounds {bodyEnd : Nat} {head : Handler} {others : List (Nat × Handler)}
    (inside : ∀ found ∈ (first, head) :: others, bodyEnd ≤ found.1 ∧ found.1 < stop) :
    bodyEnd ≤ (others.map (·.1)).getLast?.getD first ∧ (others.map (·.1)).getLast?.getD first < stop := by
  cases isLast : (others.map (·.1)).getLast? with
  | none => exact inside _ List.mem_cons_self
  | some last =>
    obtain ⟨found, member, rfl⟩ := List.mem_map.mp (List.mem_of_getLast? isLast)
    exact inside found (List.mem_cons_of_mem _ member)

theorem exceptionSlot_position (listing : Listing) (store : Store) (start : Nat) :
    start ≤ (exceptionSlot listing store start).2 ∧ (exceptionSlot listing store start).2 ≤ start + 1 := by
  unfold exceptionSlot
  simp only
  repeat' split
  all_goals simp

theorem firstOfRuns_increasing (last : Option Nat) (handlers : List (Nat × Handler))
    (sorted : handlers.Pairwise fun one other => one.1 ≤ other.1)
    (above : ∀ entry ∈ last, ∀ found ∈ handlers, entry ≤ found.1) :
    (firstOfRuns last handlers).Pairwise (fun one other => one.1 < other.1) ∧
      ∀ entry ∈ last, ∀ found ∈ firstOfRuns last handlers, entry < found.1 := by
  induction handlers generalizing last with
  | nil => simp [firstOfRuns]
  | cons head rest ih =>
    obtain ⟨headLeast, restSorted⟩ := List.pairwise_cons.mp sorted
    unfold firstOfRuns
    split
    next =>
      exact ih last restSorted fun entry same found member => above entry same found (List.mem_cons_of_mem _ member)
    next different =>
      have later := ih (some head.1) restSorted (by simpa using headLeast)
      refine ⟨List.pairwise_cons.mpr ⟨fun found member => later.2 head.1 rfl found member, later.1⟩, ?_⟩
      intro entry same found member
      have le : entry ≤ head.1 := above entry same head List.mem_cons_self
      have ne : entry ≠ head.1 := fun equal => different (by rw [same, equal])
      rcases List.mem_cons.mp member with rfl | inRest
      · omega
      · have := later.2 head.1 rfl found inRest
        omega

end Region

end ClassLift
