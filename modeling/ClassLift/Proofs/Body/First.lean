import ClassLift.Body.Pattern

namespace ClassLift

variable {α : Type} {decides : NodeId → α → Prop} {statement : NodeId} {statements : List NodeId} {position other : Nat}
  {verdict answer : α}

inductive FirstAt (decides : NodeId → α → Prop) : List NodeId → Nat → α → Prop
  | here {statement : NodeId} {rest : List NodeId} {verdict : α} (decided : decides statement verdict) :
      FirstAt decides (statement :: rest) 0 verdict
  | later {statement : NodeId} {rest : List NodeId} {position : Nat} {verdict : α}
      (silent : ∀ answer, ¬ decides statement answer) (first : FirstAt decides rest position verdict) :
      FirstAt decides (statement :: rest) (position + 1) verdict

namespace FirstAt

theorem unique (first : FirstAt decides statements position verdict) (second : FirstAt decides statements other answer)
    (functional : ∀ statement one two, decides statement one → decides statement two → one = two) :
    position = other ∧ verdict = answer := by
  induction first generalizing other with
  | here decided =>
    cases second with
    | here again => exact ⟨rfl, functional _ _ _ decided again⟩
    | later silent _ => exact absurd decided (silent _)
  | later silent _ continues =>
    cases second with
    | here decided => exact absurd decided (silent _)
    | later _ last =>
      obtain ⟨rfl, same⟩ := continues last
      exact ⟨rfl, same⟩

end FirstAt

/-! ## Calls of constructors -/

structure Constructs (pool : Pool) (store : Store) (statement : NodeId) (owner : String) : Prop where
  call : ∃ method arguments called, store.specialOnThis? statement = some (method, arguments) ∧
    pool.member method = .ok called ∧ called.name = "<init>" ∧ called.owner = owner

theorem Constructs.unique {pool : Pool} {store : Store} {owner again : String} (first : Constructs pool store statement owner)
    (second : Constructs pool store statement again) : owner = again := by
  obtain ⟨method, arguments, called, calls, read, _, rfl⟩ := first
  obtain ⟨method', arguments', called', recalls, reread, _, rfl⟩ := second
  rw [calls] at recalls
  cases recalls
  rw [read] at reread
  cases reread
  rfl

end ClassLift
