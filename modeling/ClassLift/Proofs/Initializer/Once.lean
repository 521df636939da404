import ClassLift.Proofs.Body.Tree
import ClassLift.Proofs.Initializer.Lifting
import ClassLift.Structure.Listing

/-!
# How often a lifted write runs

An initial value in a declaration is computed once and unconditionally. The writes that are lifted are found in the flat list,
without a look at handlers and jumps: `lift_once_iff` says what has to hold of the rest of the body for the writes to run once.
No handler may cover them, and no jump from behind them may lead back to them or to something before them.
-/

namespace ClassLift

def Kind.targets : Kind → List Offset
  | .switch _ default cases => default :: cases.map (·.2)
  | kind => kind.target?.toList

namespace Code

variable {code : Code} {first stop index source target : Nat}

def listing (code : Code) : Listing := .ofStatements code.store code.statements code.maxLocals

def Jumps (code : Code) (source target : Nat) : Prop :=
  ∃ kind, code.listing.kindAt? code.store source = some kind ∧ ∃ offset ∈ kind.targets, code.listing.positionOf offset = target

def Covers (code : Code) (handler : Handler) (index : Nat) : Prop :=
  handler ∈ code.handlers ∧ ∃ root, code.statements[index]? = some root ∧ ∃ id ∈ code.store.preorder root,
    ∃ offset, code.store.offset? id = some offset ∧ handler.start ≤ offset ∧ offset < handler.stop

def Repeats (code : Code) (index : Nat) : Prop := ∃ source target, code.Jumps source target ∧ target ≤ index ∧ index ≤ source

/-- Nothing interrupts the statements between two positions, and no jump from behind leads back to them. -/
structure Straight (code : Code) (first stop : Nat) : Prop where
  uncovered : ∀ index, first ≤ index → index < stop → ∀ handler, ¬ code.Covers handler index
  onward : first < stop → ∀ source target, code.Jumps source target → stop ≤ source → stop ≤ target

def Writes (code : Code) (first stop : Nat) : Prop :=
  ∀ index, first ≤ index → index < stop → ∃ place value, code.listing.kindAt? code.store index = some (.write place value)

theorem Writes.not_jumps (writes : code.Writes first stop) (jumps : code.Jumps source target) (late : first ≤ source) :
    stop ≤ source := by
  by_contra inside
  obtain ⟨place, value, found⟩ := writes source late (by omega)
  obtain ⟨kind, same, offset, member, -⟩ := jumps
  cases found.symm.trans same
  cases member

theorem Writes.straight_iff (writes : code.Writes first stop) :
    (∀ index, first ≤ index → index < stop → (∀ handler, ¬ code.Covers handler index) ∧ ¬ code.Repeats index) ↔
      code.Straight first stop := by
  constructor
  · intro once
    refine ⟨fun index late early => (once index late early).1, fun some source target jumps behind => ?_⟩
    by_contra back
    exact (once (stop - 1) (by omega) (by omega)).2 ⟨source, target, jumps, by omega, by omega⟩
  · rintro straight index late early
    refine ⟨straight.uncovered index late early, ?_⟩
    rintro ⟨source, target, jumps, before, behind⟩
    have outside := writes.not_jumps jumps (by omega)
    have := straight.onward (by omega) source target jumps outside
    omega

/-! ## Runs -/

/-- Control can go from the statement at one position to that at another: on to the next, by a jump or to a handler. -/
inductive Leads (code : Code) : Nat → Nat → Prop
  | next {index : Nat} {kind : Kind} (found : code.listing.kindAt? code.store index = some kind)
      (continues : kind.isDivergent = false) : Leads code index (index + 1)
  | jump {source target : Nat} (jumps : code.Jumps source target) : Leads code source target
  | raise {index : Nat} {handler : Handler} (covers : code.Covers handler index) :
      Leads code index (code.listing.positionOf handler.entry)

def HandlesBehind (code : Code) (stop : Nat) : Prop :=
  ∀ handler index, code.Covers handler index → stop ≤ index → stop ≤ code.listing.positionOf handler.entry

theorem Straight.leads (straight : code.Straight first stop) (writes : code.Writes first stop)
    (behind : code.HandlesBehind stop) (some : first < stop) (leads : code.Leads source target) (late : first ≤ source) :
    (source < stop → target = source + 1) ∧ (stop ≤ source → stop ≤ target) := by
  cases leads with
  | next => exact ⟨fun _ => rfl, fun _ => by omega⟩
  | jump jumps =>
    have outside := writes.not_jumps jumps late
    exact ⟨fun _ => by omega, straight.onward some source target jumps⟩
  | raise covers => exact ⟨fun early => absurd covers (straight.uncovered source late early _), behind _ source covers⟩

theorem Straight.bound (straight : code.Straight first stop) (writes : code.Writes first stop)
    (behind : code.HandlesBehind stop) (some : first < stop) {later : List Nat} (run : (index :: later).IsChain code.Leads)
    (late : first ≤ index) : ∀ other ∈ later, min (index + 1) stop ≤ other := by
  -- The bound only grows along the run, so that what comes after `next` is behind `index` as well.
  induction later generalizing index with
  | nil => exact nofun
  | cons next rest continues =>
    obtain ⟨leads, run⟩ := List.isChain_cons_cons.mp run
    obtain ⟨inside, outside⟩ := straight.leads writes behind some leads late
    have step : min (index + 1) stop ≤ next := by
      by_cases within : index < stop
      · have := inside within
        omega
      · have := outside (by omega)
        omega
    intro other member
    rcases List.mem_cons.mp member with rfl | member
    · exact step
    · have := continues run (by omega) other member
      omega

theorem Straight.once (straight : code.Straight first stop) (writes : code.Writes first stop)
    (behind : code.HandlesBehind stop) {later : List Nat} (run : (index :: later).IsChain code.Leads)
    (late : first ≤ index) (early : index < stop) :
    (∀ next ∈ later.head?, next = index + 1) ∧ ∀ other ∈ later, index < other := by
  constructor
  · cases later with
    | nil => exact nofun
    | cons _ _ =>
      rintro next ⟨⟩
      obtain ⟨leads, -⟩ := List.isChain_cons_cons.mp run
      exact (straight.leads writes behind (by omega) leads late).1 early
  · intro other member
    have := straight.bound writes behind (by omega) run late other member
    omega

end Code

namespace ClassFile

theorem Takes.isWrites {file after : ClassFile} {index position count : Nat} {code : Code}
    (takes : file.Takes after index code position count) : code.Writes position (position + count) := by
  intro taken late early
  obtain ⟨id, place, value, located, found⟩ := takes.writes (taken - position) (by omega)
  rw [Nat.add_sub_cancel' late] at located
  refine ⟨place, value, ?_⟩
  simp [Code.listing, Listing.kindAt?, Listing.ofStatements, located, found]

/-- From each body lifting takes a stretch of writes, with those of the values that fields gain. They are outside of all handlers
and of all jumps back exactly if no handler covers the stretch and no jump from behind leads back to it or over it. Then they
run one after another, and none of them runs again. -/
theorem lift_once_iff (file after : ClassFile) (index : Nat) (code : Code)
    (ran : file.liftStaticInitializers = .ok after ∨ file.liftInstanceInitializers = .ok after)
    (body : file.code? index = some code) :
    ∃ position count, file.Takes after index code position count ∧
      ((∀ taken, position ≤ taken → taken < position + count →
          (∀ handler, ¬ code.Covers handler taken) ∧ ¬ code.Repeats taken) ↔ code.Straight position (position + count)) ∧
      (code.Straight position (position + count) → code.HandlesBehind (position + count) →
        ∀ taken later, (taken :: later).IsChain code.Leads → position ≤ taken → taken < position + count →
          (∀ next ∈ later.head?, next = taken + 1) ∧ ∀ other ∈ later, taken < other) := by
  obtain ⟨position, count, takes⟩ := ran.elim (liftStaticInitializers_takes · body) (liftInstanceInitializers_takes · body)
  refine ⟨position, count, takes, takes.isWrites.straight_iff, fun straight behind taken later run late early => ?_⟩
  exact straight.once takes.isWrites behind run late early

/-! A class with a field `x` that is set to `f()` in `<clinit>` and then compared with zero. -/

def comparedPool : Pool :=
  ⟨#[none, some (.utf8 "a/Main"), some (.classInfo 1), some (.utf8 "x"), some (.utf8 "I"), some (.nameAndType 3 4),
    some (.fieldRef 2 5), some (.utf8 "<clinit>"), some (.utf8 "()V"), some (.utf8 "f"), some (.utf8 "()I"),
    some (.nameAndType 9 10), some (.methodRef 2 11)]⟩

def comparedCode (handlers : List Handler) (target : Offset) : Code where
  store := ⟨#[⟨0, none, .call .static 12 none []⟩, ⟨3, none, .write (.static 6) 0⟩, ⟨6, none, .read (.static 6)⟩,
    ⟨9, none, .branch (.zero .eq 2) target⟩, ⟨12, none, .ret none⟩]⟩
  statements := [1, 3, 4]
  handlers := handlers

def compared (handlers : List Handler) (target : Offset) : ClassFile where
  thisIndex := 2
  pool := comparedPool
  fields := #[{ access := ⟨8⟩, nameIndex := 3, descriptorIndex := 4 }]
  methods := #[{ access := ⟨8⟩, nameIndex := 7, descriptorIndex := 8, code := some (comparedCode handlers target) }]

def comparedLifted (handlers : List Handler) (target : Offset) : ClassFile where
  thisIndex := 2
  pool := comparedPool
  fields := #[{ access := ⟨8⟩, nameIndex := 3, descriptorIndex := 4, initializer := some ⟨0, 0⟩ }]
  methods := #[{ access := ⟨8⟩, nameIndex := 7, descriptorIndex := 8
                 code := some { comparedCode handlers target with statements := [3, 4] } }]

theorem compared_initialWrites (handlers : List Handler) (target : Offset) :
    (compared handlers target).initialWrites "a/Main" (comparedCode handlers target).store staticTarget? acceptsStatic [] [1, 3, 4] =
      .ok [⟨0, 0⟩] := by
  have own : (compared handlers target).ownField? "a/Main" 6 = .ok (some 0) := by with_unfolding_all rfl
  have free : (comparedCode handlers target).store.dependsOnLocals 0 = false := by with_unfolding_all rfl
  have accepted : (compared handlers target).fields[0]?.any acceptsStatic = true := by
    change acceptsStatic { access := ⟨8⟩, nameIndex := 3, descriptorIndex := 4 } = true
    decide
  refine except_bind_ok.mpr ⟨_, own, ?_⟩
  dsimp only
  rw [accepted, free]
  rfl

theorem lift_compared (handlers : List Handler) (target : Offset) :
    (compared handlers target).liftStaticInitializers = .ok (comparedLifted handlers target) := by
  have found : (compared handlers target).staticInitializer? = some 0 := by with_unfolding_all rfl
  have body : (compared handlers target).code? 0 = some (comparedCode handlers target) := rfl
  have named : (compared handlers target).name = .ok "a/Main" := rfl
  simp only [liftStaticInitializers, found, body]
  exact except_bind_ok.mpr ⟨_, named, except_bind_ok.mpr ⟨_, compared_initialWrites handlers target, rfl⟩⟩

theorem compared_straight : (comparedCode [] 12).Straight 0 1 where
  uncovered _ _ _ _ covers := nomatch covers.1
  onward := by
    rintro - source target ⟨kind, found, offset, member, rfl⟩ behind
    match source with
    | 1 =>
      cases found
      cases List.mem_singleton.mp member
      decide +kernel
    | 2 =>
      cases found
      cases member
    | _ + 3 => cases found

/-- A comparison that leads on does not make the write run again. -/
theorem compared_once : (compared [] 12).liftStaticInitializers = .ok (comparedLifted [] 12) ∧
    ¬ (comparedCode [] 12).Repeats 0 ∧
    ∀ later, (0 :: later).IsChain (comparedCode [] 12).Leads → ∀ other ∈ later, 0 < other := by
  obtain ⟨position, count, takes, once, runs⟩ :=
    lift_once_iff (compared [] 12) _ 0 (comparedCode [] 12) (.inl (lift_compared [] 12)) rfl
  have rest : some [3, 4] = some ([1, 3, 4].take position ++ [1, 3, 4].drop (position + count)) :=
    congrArg (Option.map Code.statements) takes.rest
  obtain ⟨rfl, rfl⟩ : position = 0 ∧ count = 1 := by
    match position, count with
    | 0, 1 => exact ⟨rfl, rfl⟩
    | 0, 0 => cases rest
    | 0, 2 => cases rest
    | 0, _ + 3 => simp at rest
    | _ + 1, _ => cases rest
  refine ⟨lift_compared [] 12, ((once.mpr compared_straight) 0 (by decide) (by decide)).2, fun later run => ?_⟩
  exact (runs compared_straight (fun _ _ covers => nomatch covers.1) 0 later run (by decide) (by decide)).2

/-- A write in a protected range is taken, and so is one that a jump leads back to. -/
theorem lift_takes_repeated :
    (compared [⟨0, 6, 12, 0⟩] 12).liftStaticInitializers = .ok (comparedLifted [⟨0, 6, 12, 0⟩] 12) ∧
      (comparedCode [⟨0, 6, 12, 0⟩] 12).Covers ⟨0, 6, 12, 0⟩ 0 ∧
      (compared [] 0).liftStaticInitializers = .ok (comparedLifted [] 0) ∧ (comparedCode [] 0).Repeats 0 ∧
      [0, 1, 0].IsChain (comparedCode [] 0).Leads := by
  have back : (comparedCode [] 0).Jumps 1 0 := ⟨_, rfl, 0, by decide, by decide +kernel⟩
  refine ⟨lift_compared _ _, ⟨by simp [comparedCode], 1, rfl, 1, by decide, 3, rfl, by decide, by decide⟩, lift_compared _ _,
    ⟨1, 0, back, Nat.le_refl _, by decide⟩, ?_⟩
  exact .cons_cons (.next rfl rfl) (.cons_cons (.jump back) (.singleton _))

end ClassFile

end ClassLift
