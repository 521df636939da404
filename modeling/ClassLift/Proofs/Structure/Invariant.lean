import ClassLift.Proofs.Body.Reach
import ClassLift.Proofs.Structure.Checked
import ClassLift.Proofs.Structure.Rework

namespace ClassLift

open Region (State)

/-! ## Checked actions -/

namespace Checked

variable {α β : Type}

/-- From this state the checked action does what the plain one does. What is returned and left behind satisfies `post`, and
the errors satisfy `blames`. -/
structure Agrees (blames : StructureError → Prop) (checked : Build α) (plain : Region.Build α) (state : State)
    (post : α → State → Prop) : Prop where
  same : checked state = .ok (plain state)
  returns : ∀ value last, plain state = (.ok value, last) → post value last
  fails : ∀ error last, plain state = (.error error, last) → blames error

namespace Agrees

variable {blames : StructureError → Prop} {checked : Build α} {plain : Region.Build α} {nextChecked : α → Build β}
  {nextPlain : α → Region.Build β} {state : State} {middle : α → State → Prop} {post : β → State → Prop}

theorem pure {value : β} (holds : post value state) : Agrees blames (Pure.pure value) (Pure.pure value) state post := by
  refine ⟨rfl, fun other last ran => ?_, fun error last ran => ?_⟩
  · obtain ⟨rfl, rfl⟩ := pure_ok.mp ran
    exact holds
  · cases ran

theorem bind (first : Agrees blames checked plain state middle)
    (rest : ∀ value last, middle value last → Agrees blames (nextChecked value) (nextPlain value) last post) :
    Agrees blames (checked >>= nextChecked) (plain >>= nextPlain) state post := by
  have opened : (checked >>= nextChecked) state =
      checked state >>= fun outcome => ExceptT.bindCont nextChecked outcome.1 outcome.2 := rfl
  cases ran : plain state with
  | mk result last =>
    have sameRun := first.same.trans (congrArg Except.ok ran)
    cases result with
    | ok value =>
      have after := rest value last (first.returns value last ran)
      have runsPlain : (plain >>= nextPlain) state = nextPlain value last := by rw [run_bind, ran]
      refine ⟨?_, ?_, ?_⟩
      · rw [opened, sameRun, runsPlain]
        exact after.same
      · rw [runsPlain]
        exact after.returns
      · rw [runsPlain]
        exact after.fails
    | error error =>
      have runsPlain : (plain >>= nextPlain) state = (.error error, last) := by rw [run_bind, ran]
      refine ⟨?_, ?_, ?_⟩
      · rw [opened, sameRun, runsPlain]
        rfl
      · rw [runsPlain]
        intro value final same
        cases same
      · rw [runsPlain]
        intro other final same
        cases same
        exact first.fails error last ran

theorem get_bind {nextChecked : State → Build β} {nextPlain : State → Region.Build β}
    (rest : Agrees blames (nextChecked state) (nextPlain state) state post) :
    Agrees blames (get >>= nextChecked) (get >>= nextPlain) state post :=
  ⟨rest.same, rest.returns, rest.fails⟩

theorem pure_bind {value : α} {plain : Region.Build β} (rest : Agrees blames (nextChecked value) plain state post) :
    Agrees blames (Pure.pure value >>= nextChecked) plain state post :=
  ⟨rest.same, rest.returns, rest.fails⟩

theorem perform {action : Region.Build β} (returns : ∀ value last, action state = (.ok value, last) → post value last)
    (fails : ∀ error last, action state = (.error error, last) → blames error) :
    Agrees blames (Checked.perform action) action state post :=
  ⟨rfl, returns, fails⟩

end Agrees

end Checked

/-! ## States in range -/

def Store.Holds (store : Store) (ids : List NodeId) : Prop := ∀ id ∈ ids, id < store.size

namespace Store.Holds

variable {store larger : Store} {ids others : List NodeId}

theorem mono (holds : store.Holds ids) (size_le : store.size ≤ larger.size) : larger.Holds ids :=
  fun id member => Nat.lt_of_lt_of_le (holds id member) size_le

theorem subset (holds : store.Holds ids) (fewer : ∀ id ∈ others, id ∈ ids) : store.Holds others :=
  fun id member => holds id (fewer id member)

theorem append (holds : store.Holds ids) (holdsOthers : store.Holds others) : store.Holds (ids ++ others) :=
  fun id member => (List.mem_append.mp member).elim (holds id) (holdsOthers id)

theorem single {id : NodeId} (inside : id < store.size) : store.Holds [id] := by
  intro other member
  rwa [List.mem_singleton.mp member]

end Store.Holds

/-- No node is below itself or compared with itself on the way. The statements are in the order of their starts, or else no
switch of the list is below a branch of it. -/
structure Listing.Founded (listing : Listing) (store : Store) : Prop where
  acyclic : store.Acyclic
  nested : ∀ id, ¬Relation.TransGen store.Child id id
  apart : listing.starts.Pairwise (· ≤ ·) ∨ ∀ branch ∈ listing.statements, ∀ switch ∈ listing.statements,
    ∀ test target key default cases, store.kind? branch = some (.branch test target) →
      store.kind? switch = some (.switch key default cases) → ¬store.Reaches branch switch

namespace Checked

structure Given (deep : Bool) (listing : Listing) (store : Store) : Prop where
  inRange : listing.InRange store
  starts : listing.starts = listing.statements.toList.map store.startOffset
  founded : deep = true → listing.Founded store

def Apart (listing : Listing) (store : Store) (id : NodeId) (position : Nat) : Prop :=
  ∀ later branch test target, position ≤ later → listing.statements[later]? = some branch →
    store.kind? branch = some (.branch test target) → ¬store.Reaches branch id

theorem startOffset_le_of_reaches {store : Store} {root id : NodeId} (known : root < store.size) (inside : id < store.size)
    (reached : store.Reaches root id) : store.startOffset root ≤ store.startOffset id := by
  obtain ⟨⟨first, below, isStart⟩, _⟩ := Store.startOffset_spec inside
  obtain ⟨onward, located⟩ := Store.mem_preorder_iff_reaches.mp below
  exact (Store.startOffset_spec known).2 first (Store.mem_preorder_iff_reaches.mpr ⟨reached.trans onward, located⟩) _ isStart

theorem Given.apart {deep : Bool} {listing : Listing} {store : Store} {position : Nat} {switch key : NodeId} {default : Offset}
    {cases : List (Int32 × Offset)} {target : Offset} (given : Given deep listing store) (isDeep : deep = true)
    (located : listing.statements[position]? = some switch) (found : store.kind? switch = some (.switch key default cases))
    (ahead : position < listing.positionOf target) : Apart listing store switch (listing.positionOf target) := by
  have founded := given.founded isDeep
  intro later branch test aim behind locatedBranch isBranch below
  rcases founded.apart with ordered | apart
  · rw [listing.positionOf_eq_findIdx target ordered] at ahead behind
    have startAt (place : Nat) (id : NodeId) (located : listing.statements[place]? = some id) :
        listing.starts[place]? = some (store.startOffset id) := by
      rw [given.starts, List.getElem?_map, Array.getElem?_toList, located]
      rfl
    have early : store.startOffset switch < target := by
      obtain ⟨inside, isStart⟩ := List.getElem?_eq_some_iff.mp (startAt position switch located)
      have notYet := List.not_of_lt_findIdx ahead
      rw [isStart, decide_eq_false_iff_not, UInt32.not_le] at notYet
      exact notYet
    have late : target ≤ store.startOffset branch := by
      obtain ⟨inside, isStart⟩ := List.getElem?_eq_some_iff.mp (startAt later branch locatedBranch)
      have firstInside := Nat.lt_of_le_of_lt behind inside
      have reached := of_decide_eq_true (List.findIdx_getElem (w := firstInside))
      rcases Nat.eq_or_lt_of_le behind with same | less
      · subst same
        rwa [isStart] at reached
      · have inOrder := List.pairwise_iff_getElem.mp ordered _ _ firstInside inside less
        rw [isStart] at inOrder
        exact UInt32.le_trans reached inOrder
    have least := startOffset_le_of_reaches (given.inRange.statement later branch locatedBranch)
      (given.inRange.statement position switch located) below
    exact UInt32.lt_irrefl _ (UInt32.lt_of_lt_of_le early (UInt32.le_trans late least))
  · exact apart branch (Array.mem_of_getElem? locatedBranch) switch (Array.mem_of_getElem? located) test aim key default cases
      isBranch found below

/-- What becomes of `base` on the way to a position: all ids stay in range, only listed jumps change, the nodes that are added
are not compared, and a switch that has its arms is not below the branches from the position on. -/
structure Sound (deep : Bool) (listing : Listing) (base : State) (position : Nat) (state : State) : Prop where
  given : Given deep listing base.store
  named : ∀ parent child, state.store.Names parent child → child < state.store.size
  reworked : base.store.Reworked (listing.Covers 0 listing.size) state.store
  added : ∀ id kind, base.store.size ≤ id → state.store.kind? id = some kind → kind.isComparable = false
  handlers : ∀ handler ∈ state.handlers, handler ∈ base.handlers
  settled : deep = true → ∀ id key default cases, base.store.kind? id = some (.switch key default cases) →
    state.store.kind? id = some (.switch key default cases) ∨ Apart listing base.store id position

namespace Sound

variable {deep : Bool} {listing : Listing} {base state : State} {position later : Nat} {id origin : NodeId} {kind : Kind}

theorem refl (given : Given deep listing base.store) : Sound deep listing base position base := by
  refine ⟨given, given.inRange.named, .refl _, fun id kind outside found => ?_, fun _ member => member, ?_⟩
  · exact absurd (Store.lt_size_of_kind? found) (Nat.not_lt.mpr outside)
  · exact fun _ id key default cases found => .inl found

theorem advance (sound : Sound deep listing base position state) (le : position ≤ later) :
    Sound deep listing base later state := by
  refine { sound with settled := fun isDeep id key default cases found => ?_ }
  refine (sound.settled isDeep id key default cases found).imp_right fun apart => ?_
  exact fun last branch test target behind => apart last branch test target (Nat.le_trans le behind)

theorem covers (located : listing.statements[position]? = some id) : listing.Covers 0 listing.size id :=
  ⟨position, Nat.zero_le _, (Array.getElem?_eq_some_iff.mp located).1, located⟩

theorem inRange (sound : Sound deep listing base position state) : listing.InRange state.store := by
  refine ⟨fun place id located => ?_, sound.named⟩
  exact Nat.lt_of_lt_of_le (sound.given.inRange.statement place id located) sound.reworked.size_le

variable {place : Nat}

theorem listed (sound : Sound deep listing base position state) (located : listing.statements[place]? = some id) :
    id < state.store.size :=
  sound.inRange.statement place id located

theorem replace (sound : Sound deep listing base position state) (located : listing.statements[place]? = some id)
    (change : ∀ earlier, base.store.kind? id = some earlier → earlier.Reworked kind)
    (names : state.store.Holds (kind.children ++ kind.links))
    (settles : deep = true → ∀ key default cases, base.store.kind? id = some (.switch key default cases) →
      kind = .switch key default cases ∨ Apart listing base.store id position) :
    Sound deep listing base position { state with store := state.store.replace id kind } := by
  refine ⟨sound.given, ?_, sound.reworked.replace (covers located) change, ?_, sound.handlers, ?_⟩
  · rintro parent child ⟨found, isKind, member⟩
    rw [Store.size_replace]
    by_cases same : parent = id
    · rw [same, Store.kind?_replace_self (sound.listed located), Option.some_inj] at isKind
      exact names child (isKind ▸ member)
    · rw [Store.kind?_replace_of_ne same] at isKind
      exact sound.named parent child ⟨found, isKind, member⟩
  · intro other found outside isKind
    have apart : other ≠ id :=
      Ne.symm (Nat.ne_of_lt (Nat.lt_of_lt_of_le (sound.given.inRange.statement place id located) outside))
    rw [Store.kind?_replace_of_ne apart] at isKind
    exact sound.added other found outside isKind
  · intro isDeep other key default cases found
    by_cases same : other = id
    · subst same
      rw [Store.kind?_replace_self (sound.listed located), Option.some_inj]
      exact settles isDeep key default cases found
    · rw [Store.kind?_replace_of_ne same]
      exact sound.settled isDeep other key default cases found

theorem negate (sound : Sound deep listing base position state) (located : listing.statements[place]? = some id) :
    Sound deep listing base position { state with store := state.store.negate id } := by
  obtain ⟨kind, found, _⟩ := node_ok (sound.listed located)
  rw [Store.negate_eq_replace found]
  refine sound.replace located (fun earlier foundEarlier => ?_) (fun child member => ?_) ?_
  · obtain ⟨changed, foundChanged, reworked, _⟩ := sound.reworked.kind? foundEarlier
    rw [found, Option.some_inj] at foundChanged
    exact (foundChanged ▸ reworked).trans (.negateTest kind)
  · refine sound.named id child ⟨kind, found, ?_⟩
    cases kind with
    | branch test target => cases test <;> exact member
    | _ => exact member
  · intro isDeep key default cases wasSwitch
    refine (sound.settled isDeep id key default cases wasSwitch).imp_left fun isSwitch => ?_
    rw [found, Option.some_inj] at isSwitch
    subst isSwitch
    rfl

theorem allocate (sound : Sound deep listing base position state) (names : state.store.Holds (kind.children ++ kind.links))
    (structured : kind.isComparable = false) :
    Sound deep listing base position { state with store := (state.store.allocate origin kind).2 } := by
  have old {other : NodeId} (inside : other < state.store.size) :
      (state.store.allocate origin kind).2.kind? other = state.store.kind? other := by
    rw [Store.kind?, Store.node?_allocate_of_lt inside]
    rfl
  refine ⟨sound.given, ?_, sound.reworked.trans (.allocate _ origin kind), ?_, sound.handlers, ?_⟩
  · rintro parent child ⟨found, isKind, member⟩
    refine Nat.lt_of_lt_of_le ?_ Store.size_le_allocate
    by_cases inside : parent < state.store.size
    · exact sound.named parent child ⟨found, old inside ▸ isKind, member⟩
    · rw [Store.kind?_allocate_of_le (Nat.not_lt.mp inside) isKind] at member
      exact names child member
  · intro other found outside isKind
    by_cases inside : other < state.store.size
    · exact sound.added other found outside (old inside ▸ isKind)
    · rw [Store.kind?_allocate_of_le (Nat.not_lt.mp inside) isKind]
      exact structured
  · intro isDeep other key default cases found
    rw [old (Nat.lt_of_lt_of_le (Store.lt_size_of_kind? found) sound.reworked.size_le)]
    exact sound.settled isDeep other key default cases found

/-! ### Traversals -/

variable (sound : Sound deep listing base position state)

include sound

end Sound

end Checked

end ClassLift
