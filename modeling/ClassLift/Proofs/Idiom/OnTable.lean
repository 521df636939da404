import ClassLift.Idiom.Draft
import ClassLift.Proofs.Action
import ClassLift.Proofs.Pool.History

namespace ClassLift

namespace OnTable

variable {α β : Type} {table last : ClassTable} {home : ClassId} {value result : α}

theorem get_bind_ok {next : ClassTable → OnTable α} :
    (get >>= next) table = (.ok result, last) ↔ next table table = (.ok result, last) :=
  .rfl

theorem pool_bind_ok {next : Pool → OnTable α} :
    (pool home >>= next) table = (.ok result, last) ↔
      next ((table.get? home).elim {} ClassFile.pool) table = (.ok result, last) :=
  .rfl

theorem failure_bind_ok {action : Except Failure β} {next : β → OnTable α} :
    ((liftM action : OnTable β) >>= next) table = (.ok result, last) ↔
      ∃ value, action = .ok value ∧ next value table = (.ok result, last) := by
  cases action with
  | error failure =>
    refine ⟨fun ran => ?_, fun ⟨_, failed, _⟩ => by cases failed⟩
    change ((.error failure, table) : Except Failure α × ClassTable) = _ at ran
    cases ran
  | ok value =>
    refine ⟨fun ran => ⟨value, rfl, ran⟩, ?_⟩
    rintro ⟨_, same, ran⟩
    cases same
    exact ran

theorem read_bind_ok {action : Except PoolError β} {next : β → OnTable α} :
    ((liftM action : OnTable β) >>= next) table = (.ok result, last) ↔
      ∃ value, action = .ok value ∧ next value table = (.ok result, last) := by
  have lifted : (liftM action : OnTable β) = liftM (liftM action : Except Failure β) := rfl
  have succeeds (value : β) : (liftM action : Except Failure β) = .ok value ↔ action = .ok value := by
    cases action with
    | error error => exact ⟨nofun, nofun⟩
    | ok found => exact (Except.ok.injEq ..).to_iff.trans (Except.ok.injEq ..).symm.to_iff
  rw [lifted, failure_bind_ok]
  simp only [succeeds]

theorem get_bind_error {next : ClassTable → OnTable α} {failure : Failure} :
    (get >>= next) table = (.error failure, last) ↔ next table table = (.error failure, last) :=
  .rfl

theorem pool_bind_error {next : Pool → OnTable α} {failure : Failure} :
    (pool home >>= next) table = (.error failure, last) ↔
      next ((table.get? home).elim {} ClassFile.pool) table = (.error failure, last) :=
  .rfl

theorem failure_bind_error {action : Except Failure β} {next : β → OnTable α} {failure : Failure}
    (ran : ((liftM action : OnTable β) >>= next) table = (.error failure, last)) :
    action = .error failure ∨ ∃ value, action = .ok value ∧ next value table = (.error failure, last) := by
  cases action with
  | error other =>
    change ((.error other, table) : Except Failure α × ClassTable) = _ at ran
    cases ran
    exact .inl rfl
  | ok value => exact .inr ⟨value, rfl, ran⟩

theorem read_bind_error {action : Except PoolError β} {next : β → OnTable α} {failure : Failure}
    (ran : ((liftM action : OnTable β) >>= next) table = (.error failure, last)) :
    (∃ error, action = .error error) ∨ ∃ value, action = .ok value ∧ next value table = (.error failure, last) := by
  cases action with
  | error error => exact .inl ⟨error, rfl⟩
  | ok value => exact .inr ⟨value, rfl, ran⟩

theorem interning_error (symbol : Pool.Symbol) {failure : Failure}
    (ran : interning home symbol.intern table = (.error failure, last)) : failure = .method (.pool .overflow) := by
  unfold interning at ran
  cases outcome : symbol.intern ((table.get? home).elim {} ClassFile.pool) with
  | mk result grown =>
    rw [outcome] at ran
    cases result with
    | ok index => cases ran
    | error error =>
      cases ran
      rw [Pool.perform_overflowsOnly (.intern symbol) _ error grown outcome]

theorem return_ok (ran : (pure value : OnTable α) table = (.ok result, last)) : result = value ∧ last = table := by
  obtain ⟨rfl, rfl⟩ := pure_ok.mp ran
  exact ⟨rfl, rfl⟩

theorem map_ok {action : OnTable β} {next : β → α} (ran : (do return next (← action)) table = (.ok result, last)) :
    ∃ value, action table = (.ok value, last) ∧ result = next value := by
  obtain ⟨value, middle, first, rest⟩ := bind_ok.mp ran
  obtain ⟨rfl, rfl⟩ := pure_ok.mp rest
  exact ⟨value, first, rfl⟩

theorem map_error {action : OnTable β} {next : β → α} {failure : Failure}
    (ran : (do return next (← action)) table = (.error failure, last)) : action table = (.error failure, last) := by
  rcases bind_error.mp ran with failed | ⟨value, middle, _, returned⟩
  · exact failed
  · cases returned

end OnTable

end ClassLift
