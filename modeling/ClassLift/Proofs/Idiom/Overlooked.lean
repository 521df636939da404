import ClassLift.Proofs.Idiom.Planting

namespace ClassLift

namespace Store

variable {store : Store} {id source statement : NodeId} {statements : List NodeId}

theorem isDupLoadOf_iff : store.isDupLoadOf id source = true ↔ store.kind? id = some (.dupLoad source) := by
  unfold isDupLoadOf
  cases store.kind? id with
  | none => simp
  | some kind => cases kind <;> simp [Kind.isDupLoadOf]

theorem mem_dupLoads : (statement, id) ∈ store.dupLoads source statements ↔
    statement ∈ statements ∧ id ∈ store.preorder statement ∧ store.kind? id = some (.dupLoad source) := by
  simp only [dupLoads, List.mem_flatMap, List.mem_map, List.mem_filter, isDupLoadOf_iff, Prod.mk.injEq]
  constructor
  · rintro ⟨_, member, _, ⟨inside, found⟩, rfl, rfl⟩
    exact ⟨member, inside, found⟩
  · rintro ⟨member, inside, found⟩
    exact ⟨statement, member, id, ⟨inside, found⟩, rfl, rfl⟩

end Store

namespace Draft

/-- A constructor is called right after the allocation of its object, and an argument repeats that object. -/
inductive SelfArgument (draft : Draft) : NodeId → Prop
  | intro {early late arguments : List NodeId} {source next value object argument : NodeId} {type method : PoolIndex}
      (statements : draft.statements = early ++ source :: next :: late)
      (held : draft.store.kind? source = some (.dupStore value))
      (allocated : draft.store.kind? value = some (.allocate type))
      (call : draft.store.kind? next = some (.call .special method (some object) arguments))
      (called : draft.store.kind? object = some (.dupLoad source))
      (among : argument ∈ arguments) (loads : draft.Loads argument source) : SelfArgument draft source

/-- The value held by the statement is also repeated where a fold does not look for it. -/
inductive Overlooked (draft : Draft) : NodeId → Prop
  | construction {source : NodeId} (own : draft.SelfArgument source) : Overlooked draft source
  /-- The value is written to a place of which it is a part. -/
  | assignment {early late : List NodeId} {source put value stored operand : NodeId} {place : Place}
      (statements : draft.statements = early ++ source :: put :: late)
      (held : draft.store.kind? source = some (.dupStore value))
      (write : draft.store.kind? put = some (.write place stored))
      (written : draft.store.kind? stored = some (.dupLoad source))
      (among : operand ∈ place.operands) (loads : draft.Loads operand source) : Overlooked draft source
  /-- An element of an array is made from the array. -/
  | element {early writes late : List NodeId} {source array write object index value : NodeId} {type : ValueType}
      (statements : draft.statements = early ++ source :: (writes ++ late))
      (held : draft.store.kind? source = some (.dupStore array)) (among : write ∈ writes)
      (written : draft.store.kind? write = some (.write (.element type object index) value))
      (stored : draft.store.kind? object = some (.dupLoad source)) (loads : draft.Loads value source) :
      Overlooked draft source
  /-- The class that was looked up for a cache is also used without the cache. -/
  | lookup {early late arguments : List NodeId} {branch source put pending jump use call statement : NodeId}
      {method : PoolIndex} {object : Option NodeId}
      (statements : draft.statements = early ++ branch :: source :: put :: pending :: jump :: use :: late)
      (held : draft.store.kind? source = some (.dupStore call))
      (called : draft.store.kind? call = some (.call .static method object arguments))
      (among : statement ∈ use :: late) (loads : draft.Loads statement source) : Overlooked draft source
  /-- The second value of a conditional stands at the offset of the statement itself. -/
  | conditional {early late : List NodeId} {branch pending jump source value ifTrue : NodeId} {second : Offset}
      (statements : draft.statements = early ++ branch :: pending :: jump :: source :: late)
      (first : draft.store.kind? pending = some (.pendingConditional ifTrue second))
      (held : draft.store.kind? source = some (.dupStore value))
      (offset : draft.store.offset? source = some second) : Overlooked draft source

variable {draft : Draft} {early late : List NodeId} {statement source : NodeId}

theorem Ordered.mem_behind (ordered : draft.Ordered) (split : draft.statements = early ++ source :: late)
    (member : statement ∈ draft.statements) (loads : draft.Loads statement source) : statement ∈ late := by
  refine mem_right_of_not_earlier (split ▸ member) fun notEarlier => ?_
  exact ordered statement member source (split ▸ notEarlier) loads

/-- What a fold does to the form of a draft: the only loads that it can leave out of order or without a holder are those it
overlooked. -/
structure Sound (before after : Draft) : Prop where
  stems : before.Closed → Stems before after
  forest : before.Forest → after.Forest
  ordered : before.Forest → before.Ordered → ∀ statement ∈ after.statements, ∀ source,
    source = statement ∨ [statement, source].Sublist after.statements → after.Loads statement source →
      source = statement ∧ before.SelfArgument source
  tied : before.Forest → before.Ordered → before.Tied → ∀ statement ∈ after.statements, ∀ source,
    after.Loads statement source →
      (source ∈ after.statements ∧ ∃ value, after.store.kind? source = some (.dupStore value)) ∨ before.Overlooked source

theorem Sound.of_keeps {before after : Draft} (stems : Stems before after) (keeps : Keeps before after) :
    Sound before after where
  stems _ := stems
  forest := keeps.forest
  ordered forest ordered statement member source notEarlier loads :=
    absurd loads (keeps.ordered forest ordered statement member source notEarlier)
  tied forest ordered tied statement member source loads :=
    .inl (keeps.tied forest ordered tied statement member source loads)

theorem Sound.refl (draft : Draft) : Sound draft draft := .of_keeps (.refl draft) (.refl draft)

theorem Sound.of_extends {before after : Store} {statements : List NodeId} (extended : before.Extends after) :
    Sound ⟨before, statements⟩ ⟨after, statements⟩ := by
  have keeps : Keeps ⟨before, statements⟩ ⟨after, statements⟩ := .of_extends extended
  refine ⟨Stems.of_extends extended, keeps.forest, fun forest ordered statement member source notEarlier loads => ?_,
    fun forest ordered tied statement member source loads => .inl (keeps.tied forest ordered tied statement member source loads)⟩
  exact absurd loads (keeps.ordered forest ordered statement member source notEarlier)

end Draft

end ClassLift
