import ClassLift.Proofs.Structure.Construction

namespace ClassLift

namespace Region

def Loop.continueAt (loop : Loop) : Nat :=
  match loop.shape with
  | .whileDo condition | .doWhile condition => condition
  | .counted _ update => update
  | .forever => loop.first

/-- A jump that is taken for a `continue` but leads elsewhere. -/
def Loop.Mistakes (loop : Loop) (target : Nat) : Prop :=
  match loop.shape with
  | .counted condition _ => target = condition
  | .doWhile _ => target = loop.first
  | .whileDo _ | .forever => False

/-- An exit in place of a jump to `target` goes the same way, unless the loop mistakes it. -/
def Lands (context : Context) (_ target : Nat) : Exit → Prop
  | .leave => context.resume = some target
  | .again => ∃ loop, context.loop = some loop ∧ (target = loop.continueAt ↔ ¬ loop.Mistakes target)

theorem Tested.condition_ne {listing : Listing} {store : Store} {position condition update : Nat}
    (tested : Tested listing store position condition (update + 1)) (nonempty : position < update) : update ≠ condition := by
  cases tested <;> omega

theorem Placed.continueAt_iff {listing : Listing} {store : Store} {header position target : Nat} {loop : Loop}
    (placed : Placed listing store header loop) (above : loop.first ≤ position) (below : position < loop.stop)
    (accepted : target ∈ loop.accepts) : target = loop.continueAt ↔ ¬ loop.Mistakes target := by
  cases placed with
  | whileDo condition source tested =>
    have only : target = condition := List.mem_singleton.mp accepted
    exact ⟨fun _ mistaken => mistaken, fun _ => only⟩
  | counted condition update tested nonempty =>
    have apart := tested.condition_ne nonempty
    have either : target = condition ∨ target = update := by simpa [Loop.accepts] using accepted
    change target = update ↔ ¬ target = condition
    omega
  | doWhile source ordered branches back =>
    -- The exit stands in the body, so that the header is not the condition.
    have either : target = source ∨ target = header := by simpa [Loop.accepts] using accepted
    change target = source ↔ ¬ target = header
    simp only at above below
    omega
  | forever source ordered back =>
    have only : target = header := List.mem_singleton.mp accepted
    exact ⟨fun _ mistaken => mistaken, fun _ => only⟩

theorem lands_of_exit? {listing : Listing} {store : Store} {context : Context} {position target : Nat} {exit : Exit}
    (within : context.Within listing store position (position + 1))
    (exits : context.jumps.exit? target = some exit.kind) : Lands context position target exit := by
  rcases Jumps.exit?_eq_some exits with ⟨isExit, leaves⟩ | ⟨isExit, again⟩
  · cases exit with
    | leave => exact leaves
    | again => cases isExit
  · cases exit with
    | leave => cases isExit
    | again =>
      obtain ⟨loop, resume⟩ := context
      cases loop with
      | none => cases again
      | some loop =>
        obtain ⟨⟨header, placed⟩, above, below⟩ := within loop rfl
        exact ⟨loop, rfl, placed.continueAt_iff above below again⟩

/-- Whatever the list, every exit that is built lands where the jump did, but for the jumps that a loop mistakes. -/
theorem build_exits_land (store final : Store) (statements body : List NodeId) (handlers : List Handler) (maxLocals : Slot)
    (valid : ∀ id ∈ statements, id < store.size)
    (built : build store statements handlers maxLocals = (.ok body, final)) :
    Becomes (.ofStatements store statements maxLocals) store final handlers Lands {} 0 statements.length
      statements.length body :=
  build_becomes valid (fun _ _ _ _ within exits => lands_of_exit? within exits) built

/-! A `do` loop with a branch to its start, and a counted loop with a branch to its condition. -/

def restartingLoop : Store :=
  ⟨#[⟨0, none, .bump 2 1⟩, ⟨3, none, .read (.slot .int 0)⟩, ⟨4, none, .branch (.zero .eq 1) 0⟩, ⟨7, none, .bump 2 5⟩,
    ⟨10, none, .read (.slot .int 1)⟩, ⟨11, none, .branch (.zero .eq 4) 0⟩, ⟨14, none, .ret none⟩]⟩

def skippingLoop : Store :=
  ⟨#[⟨0, none, .literal (.int 0)⟩, ⟨1, none, .write (.slot .int 2) 0⟩, ⟨2, none, .goto 20⟩, ⟨5, none, .read (.slot .int 1)⟩,
    ⟨6, none, .branch (.zero .eq 3) 20⟩, ⟨9, none, .bump 3 7⟩, ⟨12, none, .bump 2 1⟩, ⟨20, none, .read (.slot .int 2)⟩,
    ⟨21, none, .read (.slot .int 0)⟩, ⟨22, none, .branch (.pair .lt 7 8) 5⟩, ⟨25, none, .ret none⟩]⟩

theorem build_restartingLoop :
    build restartingLoop [0, 2, 3, 5, 6] [] 4 = (.ok [9, 6], ⟨restartingLoop.nodes ++
      #[⟨4, none, .continueLoop⟩, ⟨4, none, .ifElse 2 [7] []⟩, ⟨11, none, .loop (.doWhile 5) [0, 8, 3]⟩]⟩) := by
  with_unfolding_all rfl

theorem restartingLoop_lands :
    Becomes (.ofStatements restartingLoop [0, 2, 3, 5, 6] 4) restartingLoop
      ⟨restartingLoop.nodes ++
        #[⟨4, none, .continueLoop⟩, ⟨4, none, .ifElse 2 [7] []⟩, ⟨11, none, .loop (.doWhile 5) [0, 8, 3]⟩]⟩
      [] Lands {} 0 5 5 [9, 6] :=
  build_exits_land restartingLoop _ [0, 2, 3, 5, 6] [9, 6] [] 4 (by decide) build_restartingLoop

/-- Both branches become a `continue`, though the first did not lead to the condition 5 of its loop, and the second not to the
update 6 of its loop. -/
theorem build_continue_misled :
    (build restartingLoop [0, 2, 3, 5, 6] [] 4 = (.ok [9, 6], ⟨restartingLoop.nodes ++
        #[⟨4, none, .continueLoop⟩, ⟨4, none, .ifElse 2 [7] []⟩, ⟨11, none, .loop (.doWhile 5) [0, 8, 3]⟩]⟩) ∧
      (Listing.ofStatements restartingLoop [0, 2, 3, 5, 6] 4).targetAt? restartingLoop 1 = some 0 ∧
      [0, 2, 3, 5, 6].idxOf 5 = 3) ∧
    (build skippingLoop [1, 2, 4, 5, 6, 9, 10] [] 4 = (.ok [13, 10], ⟨skippingLoop.nodes ++
        #[⟨6, none, .continueLoop⟩, ⟨6, none, .ifElse 4 [11] []⟩, ⟨22, none, .loop (.counted 1 9 6) [12, 5]⟩]⟩) ∧
      (Listing.ofStatements skippingLoop [1, 2, 4, 5, 6, 9, 10] 4).targetAt? skippingLoop 2 = some 5 ∧
      [1, 2, 4, 5, 6, 9, 10].idxOf 6 = 4) := by
  refine ⟨⟨build_restartingLoop, ?_, by decide⟩, ?_, ?_, by decide⟩
  · with_unfolding_all rfl
  · with_unfolding_all rfl
  · with_unfolding_all rfl

end Region

end ClassLift
