import Mathlib.Order.Defs.Unbundled

/-!
# Actions that may fail

The passes of the library are actions on a state that may fail and keep the state they had reached. Four ways of reasoning
about them are shared by all proofs:

* `Preserves` follows a preorder on the states through an action, whether it fails or not;
* `Yields` says something about every result, whatever the state was;
* `Returns` says that there is a result, from one state;
* `bind_ok` and its companions open a run that succeeded into the runs of its parts.
-/

namespace ClassLift

variable {ε σ α β : Type}

/-- The states before and after the action are related, also when it fails. -/
def Preserves (related : σ → σ → Prop) (action : ExceptT ε (StateM σ) α) : Prop :=
  ∀ state, related state (action state).2

/-- What the action returns satisfies `post`, if it returns. -/
def Yields (post : α → Prop) (action : ExceptT ε (StateM σ) α) : Prop :=
  ∀ state value last, action state = (.ok value, last) → post value

/-- From this state the action returns, and what it returns and leaves behind satisfies `post`. -/
def Returns (action : ExceptT ε (StateM σ) α) (state : σ) (post : α → σ → Prop) : Prop :=
  ∃ value last, action state = (.ok value, last) ∧ post value last

section Run

variable {action : ExceptT ε (StateM σ) α} {next : α → ExceptT ε (StateM σ) β} {state last : σ}

theorem run_bind (action : ExceptT ε (StateM σ) α) (next : α → ExceptT ε (StateM σ) β) (state : σ) :
    (action >>= next) state =
      match action state with
      | (.ok value, middle) => next value middle
      | (.error error, middle) => (.error error, middle) := by
  change (ExceptT.bindCont next (action state).1) (action state).2 = _
  cases action state with
  | mk result middle => cases result <;> rfl

theorem run_get_bind (next : σ → ExceptT ε (StateM σ) β) (state : σ) : (get >>= next) state = next state state :=
  rfl

theorem bind_ok {result : β} :
    (action >>= next) state = (.ok result, last) ↔
      ∃ value middle, action state = (.ok value, middle) ∧ next value middle = (.ok result, last) := by
  rw [run_bind]
  constructor
  · intro ran
    cases first : action state with
    | mk outcome middle =>
      rw [first] at ran
      cases outcome with
      | error error => cases ran
      | ok value => exact ⟨value, middle, rfl, ran⟩
  · rintro ⟨value, middle, first, second⟩
    simp [first, second]

theorem bind_error {error : ε} :
    (action >>= next) state = (.error error, last) ↔
      action state = (.error error, last) ∨
        ∃ value middle, action state = (.ok value, middle) ∧ next value middle = (.error error, last) := by
  rw [run_bind]
  cases first : action state with
  | mk outcome middle =>
    cases outcome with
    | error found =>
      constructor
      · intro failed
        cases failed
        exact .inl rfl
      · rintro (failed | ⟨_, _, same, _⟩)
        · cases failed
          rfl
        · cases same
    | ok value =>
      refine ⟨fun ran => .inr ⟨value, middle, rfl, ran⟩, ?_⟩
      rintro (failed | ⟨_, _, same, ran⟩)
      · cases failed
      · cases same
        exact ran

/-- A walk that fails does so at one element, after the elements before it. -/
theorem foldlM_error {step : β → α → ExceptT ε (StateM σ) β} {elements : List α} {value : β} {error : ε}
    (ran : elements.foldlM step value state = (.error error, last)) :
    ∃ before element after reached middle, elements = before ++ element :: after ∧
      before.foldlM step value state = (.ok reached, middle) ∧ step reached element middle = (.error error, last) := by
  induction elements generalizing value state with
  | nil => cases ran
  | cons element rest continues =>
    rw [List.foldlM_cons] at ran
    rcases bind_error.mp ran with failed | ⟨next, middle, stepped, ran⟩
    · exact ⟨[], element, rest, value, state, rfl, rfl, failed⟩
    · obtain ⟨before, stop, after, reached, later, rfl, walked, failed⟩ := continues ran
      refine ⟨element :: before, stop, after, reached, later, rfl, ?_, failed⟩
      rw [List.foldlM_cons]
      exact bind_ok.mpr ⟨next, middle, stepped, walked⟩

theorem foldlM_keeps {step : β → α → ExceptT ε (StateM σ) β} {holds : β → σ → Prop} {elements : List α} {value result : β}
    (steps : ∀ {value element state next last}, holds value state → step value element state = (.ok next, last) → holds next last)
    (start : holds value state) (ran : elements.foldlM step value state = (.ok result, last)) : holds result last := by
  induction elements generalizing value state with
  | nil =>
    cases ran
    exact start
  | cons element rest continues =>
    rw [List.foldlM_cons] at ran
    obtain ⟨next, middle, stepped, ran⟩ := bind_ok.mp ran
    exact continues (steps start stepped) ran

theorem pure_ok {value result : α} :
    (pure value : ExceptT ε (StateM σ) α) state = (.ok result, last) ↔ value = result ∧ state = last := by
  change ((.ok value, state) : Except ε α × σ) = _ ↔ _
  simp

theorem pure_pair_ok {value result : α} {other rest : β} :
    (pure (value, other) : ExceptT ε (StateM σ) (α × β)) state = (.ok (result, rest), last) ↔
      (value = result ∧ other = rest) ∧ state = last := by
  rw [pure_ok, Prod.mk.injEq]

theorem modifyGet_ok {change : σ → α × σ} {result : α} :
    (modifyGet change : ExceptT ε (StateM σ) α) state = (.ok result, last) ↔ change state = (result, last) := by
  change ((.ok (change state).1, (change state).2) : Except ε α × σ) = _ ↔ _
  simp [Prod.ext_iff]

theorem modify_ok {change : σ → σ} {result : PUnit} :
    (modify change : ExceptT ε (StateM σ) PUnit) state = (.ok result, last) ↔ change state = last := by
  change ((.ok PUnit.unit, change state) : Except ε PUnit × σ) = _ ↔ _
  simp

theorem throw_ok {error : ε} {result : α} :
    (throw error : ExceptT ε (StateM σ) α) state = (.ok result, last) ↔ False := by
  change ((.error error, state) : Except ε α × σ) = _ ↔ _
  simp

end Run

section Result

variable {first : Except ε α}

theorem except_bind_ok {next : α → Except ε β} {result : β} :
    first >>= next = .ok result ↔ ∃ value, first = .ok value ∧ next value = .ok result := by
  cases first with
  | error error => simp [bind, Except.bind]
  | ok value => simp [bind, Except.bind]

theorem exists_map_ok {change : α → β} : (∃ result, change <$> first = .ok result) ↔ ∃ value, first = .ok value := by
  cases first with
  | error error => simp [Functor.map, Except.map]
  | ok value => simp [Functor.map, Except.map]

theorem mapError_ok {δ : Type} {change : ε → δ} {value : α} : first.mapError change = .ok value ↔ first = .ok value := by
  cases first with
  | error error => exact ⟨nofun, nofun⟩
  | ok value =>
    change (.ok value : Except δ α) = _ ↔ _
    simp

end Result

section Preserves

variable {related : σ → σ → Prop} {action : ExceptT ε (StateM σ) α} {next : α → ExceptT ε (StateM σ) β}

theorem Preserves.of_run (preserves : Preserves related action) {outcome : Except ε α} {state last : σ}
    (ran : action state = (outcome, last)) : related state last := by
  have held := preserves state
  rwa [ran] at held

theorem preserves_pure [Std.Refl related] (value : α) : Preserves related (pure value : ExceptT ε (StateM σ) α) :=
  fun state => Std.Refl.refl state

theorem preserves_throw [Std.Refl related] (error : ε) : Preserves related (throw error : ExceptT ε (StateM σ) α) :=
  fun state => Std.Refl.refl state

theorem preserves_of_unchanged [Std.Refl related] (unchanged : ∀ state, (action state).2 = state) :
    Preserves related action :=
  fun state => (unchanged state).symm ▸ Std.Refl.refl state

theorem preserves_modify {change : σ → σ} (step : ∀ state, related state (change state)) :
    Preserves related (modify change : ExceptT ε (StateM σ) PUnit) :=
  step

theorem preserves_modifyGet {change : σ → α × σ} (step : ∀ state, related state (change state).2) :
    Preserves related (modifyGet change : ExceptT ε (StateM σ) α) :=
  step

theorem related_bind [IsTrans σ related] {state : σ} (first : related state (action state).2)
    (rest : ∀ value middle, action state = (.ok value, middle) → related middle (next value middle).2) :
    related state ((action >>= next) state).2 := by
  rw [run_bind]
  cases ran : action state with
  | mk outcome middle =>
    rw [ran] at first
    cases outcome with
    | error error => exact first
    | ok value => exact IsTrans.trans _ _ _ first (rest value middle ran)

theorem related_ite_bind [IsTrans σ related] {condition : Prop} [Decidable condition] {other : ExceptT ε (StateM σ) α}
    {state : σ} (first : related state ((if condition then action else other) state).2)
    (rest : ∀ value middle, (if condition then action else other) state = (.ok value, middle) →
      related middle (next value middle).2) :
    related state ((if condition then action >>= next else other >>= next) state).2 := by
  by_cases holds : condition
  · simp only [if_pos holds] at first rest ⊢
    exact related_bind first rest
  · simp only [if_neg holds] at first rest ⊢
    exact related_bind first rest

theorem related_read_bind [Std.Refl related] {state : σ} (unchanged : (action state).2 = state)
    (rest : ∀ value, related state (next value state).2) : related state ((action >>= next) state).2 := by
  rw [run_bind]
  cases ran : action state with
  | mk outcome middle =>
    rw [ran] at unchanged
    cases unchanged
    cases outcome with
    | error error => exact Std.Refl.refl _
    | ok value => exact rest value

theorem preserves_bind [IsTrans σ related] (first : Preserves related action)
    (rest : ∀ value, Preserves related (next value)) : Preserves related (action >>= next) :=
  fun state => related_bind (first state) fun value middle _ => rest value middle

theorem preserves_get_bind {next : σ → ExceptT ε (StateM σ) β} (rest : ∀ state, related state (next state state).2) :
    Preserves related (get >>= next) :=
  rest

theorem Preserves.get_bind {next : σ → ExceptT ε (StateM σ) β} (rest : ∀ state, Preserves related (next state)) :
    Preserves related (get >>= next) :=
  fun state => rest state state

theorem preserves_foldlM [Std.Refl related] [IsTrans σ related] {step : β → α → ExceptT ε (StateM σ) β}
    (steps : ∀ value element, Preserves related (step value element)) (elements : List α) (value : β) :
    Preserves related (elements.foldlM step value) := by
  induction elements generalizing value with
  | nil => exact preserves_pure value
  | cons element rest continues =>
    rw [List.foldlM_cons]
    exact preserves_bind (steps value element) continues

end Preserves

section Yields

variable {post : β → Prop} {action : ExceptT ε (StateM σ) α} {next : α → ExceptT ε (StateM σ) β}

theorem yields_pure {value : β} (holds : post value) : Yields post (pure value : ExceptT ε (StateM σ) β) := by
  intro state result last ran
  obtain ⟨rfl, _⟩ := pure_ok.mp ran
  exact holds

theorem yields_bind (rest : ∀ value, Yields post (next value)) : Yields post (action >>= next) := by
  intro state result last ran
  obtain ⟨value, middle, _, final⟩ := bind_ok.mp ran
  exact rest value middle result last final

theorem Yields.bind {found : α → Prop} (first : Yields found action) (rest : ∀ value, found value → Yields post (next value)) :
    Yields post (action >>= next) := by
  intro state result last ran
  obtain ⟨value, middle, early, final⟩ := bind_ok.mp ran
  exact rest value (first state value middle early) middle result last final

theorem yields_throw_bind (error : ε) : Yields post (throw error >>= next : ExceptT ε (StateM σ) β) := by
  intro state result last ran
  obtain ⟨_, _, thrown, _⟩ := bind_ok.mp ran
  exact (throw_ok.mp thrown).elim

theorem Preserves.bind_of_yields {related : σ → σ → Prop} [IsTrans σ related] {found : α → Prop}
    (first : Preserves related action) (yields : Yields found action)
    (rest : ∀ value, found value → Preserves related (next value)) : Preserves related (action >>= next) :=
  fun state => related_bind (first state) fun value middle ran => rest value (yields state value middle ran) middle

end Yields

section Returns

variable {action : ExceptT ε (StateM σ) α} {next : α → ExceptT ε (StateM σ) β} {state : σ} {found : α → σ → Prop}
variable {post : β → σ → Prop}

theorem returns_pure {value : β} (holds : post value state) : Returns (pure value : ExceptT ε (StateM σ) β) state post :=
  ⟨value, state, rfl, holds⟩

theorem Returns.bind (first : Returns action state found)
    (rest : ∀ value middle, found value middle → Returns (next value) middle post) : Returns (action >>= next) state post := by
  obtain ⟨value, middle, ran, holds⟩ := first
  obtain ⟨result, last, continued, done⟩ := rest value middle holds
  exact ⟨result, last, bind_ok.mpr ⟨value, middle, ran, continued⟩, done⟩

theorem returns_get_bind {next : σ → ExceptT ε (StateM σ) β} (rest : Returns (next state) state post) :
    Returns (get >>= next) state post :=
  rest

theorem returns_modify_bind {change : σ → σ} {next : PUnit → ExceptT ε (StateM σ) β}
    (rest : Returns (next .unit) (change state) post) : Returns (modify change >>= next) state post :=
  rest

theorem Returns.of_run {more : α → σ → Prop} (returns : Returns action state found)
    (implies : ∀ value last, action state = (.ok value, last) → found value last → more value last) :
    Returns action state more := by
  obtain ⟨value, last, ran, holds⟩ := returns
  exact ⟨value, last, ran, implies value last ran holds⟩

end Returns

end ClassLift
