import ClassLift.Proofs.Idiom.Overlooked

/-!
# Sweeps over a known list

`Draft.Passes` follows a sweep through a block of statements from the last to the first; passes over neighbouring blocks
compose. What a step does at a held value depends on where the value is repeated: `Store.loads` lists the repeats below a
statement. `Store.Settled` says that repeats of some held values have been replaced by expressions that repeat nothing
themselves, which leaves the repeats of all other values where they were.
-/

namespace ClassLift

/-! ## Passes over a block -/

namespace Draft

variable {m : Type → Type} [Monad m]

/-- From the last statement of a block to its first: the statements after the block turn from `after` into `left`, and those
before it stay. -/
inductive Passes (step : Store → Spot → m (Store × Cursor)) :
    List NodeId → List NodeId → Store → List NodeId → Store → List NodeId → Prop
  | nil {before after : List NodeId} {store : Store} : Passes step before [] store after store after
  | cons {before block after rest left : List NodeId} {current : NodeId} {store middle last : Store}
      (later : Passes step (before ++ [current]) block store after middle rest)
      (stepped : step middle ⟨before.reverse, current, rest⟩ = pure (last, ⟨before.reverse, left⟩)) :
      Passes step before (current :: block) store after last left

namespace Passes

variable {step : Store → Spot → m (Store × Cursor)} {before one two block after rest left : List NodeId} {current : NodeId}
  {store middle last : Store}

theorem append (later : Passes step (before ++ one) two store after middle rest)
    (earlier : Passes step before one middle rest last left) : Passes step before (one ++ two) store after last left := by
  induction earlier with
  | nil => simpa using later
  | cons _ stepped continues => exact .cons (continues (by simpa using later)) stepped

theorem single (stepped : step store ⟨before.reverse, current, after⟩ = pure (last, ⟨before.reverse, left⟩)) :
    Passes step before [current] store after last left :=
  .cons .nil stepped

theorem sweepWithin [LawfulMonad m] (passes : Passes step before block store after last left) (bound : Nat) :
    Draft.sweepWithin step (bound + block.length) store ⟨(before ++ block).reverse, after⟩ =
      Draft.sweepWithin step bound last ⟨before.reverse, left⟩ := by
  induction passes generalizing bound with
  | nil => simp
  | @cons before block after rest left current store middle last _ stepped continues =>
    have onward := continues (bound + 1)
    rw [List.append_assoc, List.singleton_append] at onward
    rw [List.length_cons, show bound + (block.length + 1) = bound + 1 + block.length by omega, onward, List.reverse_append,
      List.reverse_singleton, List.singleton_append, Draft.sweepWithin, stepped, pure_bind]

theorem sweep [LawfulMonad m] (passes : Passes step [] block store [] last left) :
    Draft.sweep ⟨store, block⟩ step = pure ⟨last, left⟩ := by
  have whole := passes.sweepWithin 0
  rw [Nat.zero_add] at whole
  exact whole

end Passes

end Draft

namespace Store

variable {store other : Store} {sources : NodeId → Prop} {root id source : NodeId} {kind : Kind}

/-! ## Repeats below a node -/

def loads (store : Store) (source root : NodeId) : List NodeId := (store.preorder root).filter (store.isDupLoadOf · source)

/-- Nothing below the root repeats a value held by one of the sources, and every node below it is known. -/
def Avoids (store : Store) (sources : NodeId → Prop) (root : NodeId) : Prop :=
  ∀ id, store.Reaches root id → ∃ kind, store.kind? id = some kind ∧ ∀ source, sources source → kind ≠ .dupLoad source

def DupFree (store : Store) (root : NodeId) : Prop := store.Avoids (fun _ => True) root

theorem map_snd_dupLoads (store : Store) (source : NodeId) (statements : List NodeId) :
    (store.dupLoads source statements).map Prod.snd = statements.flatMap (store.loads source) := by
  simp only [dupLoads, List.map_flatMap, List.map_map, Function.comp_def, List.map_id']
  rfl

theorem Avoids.of_children (found : store.kind? root = some kind) (noLoad : ∀ source, sources source → kind ≠ .dupLoad source)
    (children : ∀ child ∈ kind.children, store.Avoids sources child) : store.Avoids sources root := by
  intro id reached
  rcases Relation.ReflTransGen.cases_head reached with rfl | ⟨child, ⟨own, foundOwn, member⟩, onward⟩
  · exact ⟨kind, found, noLoad⟩
  · cases found.symm.trans foundOwn
    exact children child member id onward

theorem Avoids.mono {fewer : NodeId → Prop} (avoids : store.Avoids sources root)
    (subset : ∀ source, fewer source → sources source) : store.Avoids fewer root := by
  intro id reached
  obtain ⟨kind, found, noLoad⟩ := avoids id reached
  exact ⟨kind, found, fun source among => noLoad source (subset source among)⟩

theorem DupFree.avoids (free : store.DupFree root) : store.Avoids sources root := Avoids.mono free fun _ _ => trivial

theorem Avoids.congr (avoids : store.Avoids sources root)
    (same : ∀ id, store.Reaches root id → other.kind? id = store.kind? id) : other.Avoids sources root := by
  have within (id : NodeId) (reached : other.Reaches root id) : store.Reaches root id := by
    induction reached with
    | refl => exact .refl root
    | tail _ step continues =>
      obtain ⟨kind, found, member⟩ := step
      exact continues.tail ((same _ continues).symm.trans found) member
  intro id reached
  obtain ⟨kind, found, noLoad⟩ := avoids id (within id reached)
  exact ⟨kind, (same id (within id reached)).trans found, noLoad⟩

theorem isDupLoadOf_of_load {held : NodeId} (load : store.kind? id = some (.dupLoad held)) :
    store.isDupLoadOf id source = (held == source) := by
  rw [isDupLoadOf, load]
  rfl

theorem Avoids.not_load {held : NodeId} (avoids : store.Avoids sources root)
    (load : store.kind? root = some (.dupLoad held)) : ¬sources held := by
  obtain ⟨kind, found, noLoad⟩ := avoids root (.refl root)
  exact fun among => noLoad held among (Option.some_inj.mp (found.symm.trans load))

theorem Avoids.isDupLoadOf (avoids : store.Avoids sources root) (among : sources source) :
    store.isDupLoadOf root source = false := by
  rw [Bool.eq_false_iff, ne_eq, isDupLoadOf_iff]
  exact fun load => avoids.not_load load among

theorem Avoids.filter_preorderWithin (avoids : store.Avoids sources root) (among : sources source) (depth : Nat) :
    (store.preorderWithin depth root).filter (store.isDupLoadOf · source) = [] := by
  rw [List.filter_eq_nil_iff]
  intro id inside
  have below : store.Avoids sources id := fun other reached =>
    avoids other ((reaches_of_mem_preorderWithin inside).1.trans reached)
  simp [below.isDupLoadOf among]

theorem Avoids.loads (avoids : store.Avoids sources root) (among : sources source) : store.loads source root = [] :=
  avoids.filter_preorderWithin among store.size

theorem filter_preorderWithin_succ (found : store.kind? root = some kind) (noLoad : kind ≠ .dupLoad source) (depth : Nat) :
    (store.preorderWithin (depth + 1) root).filter (store.isDupLoadOf · source) =
      kind.children.flatMap fun child => (store.preorderWithin depth child).filter (store.isDupLoadOf · source) := by
  have own : store.isDupLoadOf root source = false := by
    rw [Bool.eq_false_iff, ne_eq, isDupLoadOf_iff, found]
    exact fun same => noLoad (Option.some_inj.mp same)
  rw [preorderWithin, found]
  simp [own, List.filter_flatMap]

theorem filter_preorderWithin_load {held : NodeId} (found : store.kind? id = some (.dupLoad held)) (depth : Nat) :
    (store.preorderWithin (depth + 1) id).filter (store.isDupLoadOf · source) = [id].filter (store.isDupLoadOf · source) := by
  rw [preorderWithin, found]
  rfl

theorem loads_of_children (found : store.kind? root = some kind) (noLoad : kind ≠ .dupLoad source)
    (flat : ∀ child ∈ kind.children, (∃ held, store.kind? child = some (.dupLoad held)) ∨ store.Avoids (· = source) child) :
    store.loads source root = kind.children.filter (store.isDupLoadOf · source) := by
  have inside := lt_size_of_kind? found
  obtain ⟨depth, size⟩ := Nat.exists_eq_add_one_of_ne_zero (Nat.ne_zero_of_lt inside)
  have only {id : NodeId} (known : id < store.size) (zero : depth = 0) : id = 0 := by
    rw [size, zero] at known
    exact Nat.lt_one_iff.mp known
  have below (child : NodeId) (member : child ∈ kind.children) :
      (store.preorderWithin depth child).filter (store.isDupLoadOf · source) = [child].filter (store.isDupLoadOf · source) := by
    rcases flat child member with ⟨held, load⟩ | avoids
    · -- A repeat is another node than the statement, so the walk is deep enough for it.
      have apart : child ≠ root := by
        rintro rfl
        cases found.symm.trans load
        cases member
      obtain ⟨less, rfl⟩ := Nat.exists_eq_add_one_of_ne_zero fun zero =>
        apart ((only (lt_size_of_kind? load) zero).trans (only inside zero).symm)
      exact filter_preorderWithin_load load less
    · rw [avoids.filter_preorderWithin rfl, List.filter_singleton, avoids.isDupLoadOf rfl]
      rfl
  rw [loads, preorder, size, filter_preorderWithin_succ found noLoad, List.flatMap_congr below]
  induction kind.children with
  | nil => rfl
  | cons child rest continues => rw [List.flatMap_cons, continues, ← List.filter_append, List.singleton_append]

/-! ## Replacing repeats -/

theorem loads_replace {use held : NodeId} (load : store.kind? use = some (.dupLoad held)) (apart : source ≠ held)
    (noLoad : kind ≠ .dupLoad source) (free : ∀ child ∈ kind.children, store.DupFree child) (root : NodeId) :
    (store.replace use kind).loads source root = store.loads source root := by
  have made : (store.replace use kind).kind? use = some kind := kind?_replace_self (lt_size_of_kind? load)
  have freeAfter (child : NodeId) (member : child ∈ kind.children) : (store.replace use kind).DupFree child := by
    refine (free child member).congr fun id reached => kind?_replace_of_ne ?_
    rintro rfl
    obtain ⟨own, found, noLoad⟩ := free child member id reached
    exact noLoad held trivial (Option.some_inj.mp (found.symm.trans load))
  have within (depth : Nat) (root : NodeId) :
      ((store.replace use kind).preorderWithin depth root).filter ((store.replace use kind).isDupLoadOf · source) =
        (store.preorderWithin depth root).filter (store.isDupLoadOf · source) := by
    induction depth generalizing root with
    | zero => rfl
    | succ depth continues =>
      by_cases here : root = use
      · subst here
        rw [filter_preorderWithin_succ made noLoad, filter_preorderWithin_load load, List.flatMap_eq_nil_iff.mpr]
        · simp [isDupLoadOf_of_load load, Ne.symm apart]
        · exact fun child member => (freeAfter child member).filter_preorderWithin trivial depth
      · have same : (store.replace use kind).kind? root = store.kind? root := kind?_replace_of_ne here
        cases found : store.kind? root with
        | none => simp [preorderWithin, same, found]
        | some own =>
          by_cases isLoad : own = .dupLoad source
          · subst isLoad
            rw [filter_preorderWithin_load (same.trans found), filter_preorderWithin_load found]
            simp only [List.filter_singleton, isDupLoadOf, same]
          · rw [filter_preorderWithin_succ (same.trans found) isLoad, filter_preorderWithin_succ found isLoad]
            exact List.flatMap_congr fun child _ => continues child
  rw [loads, loads, preorder, preorder, size_replace, within]

/-- Repeats of the values held by the sources have been replaced by expressions that repeat nothing. -/
structure Settled (sources : List NodeId) (before after : Store) : Prop where
  node? : ∀ id, (∀ source ∈ sources, before.kind? id ≠ some (.dupLoad source)) → after.node? id = before.node? id
  loads : ∀ source ∉ sources, ∀ root, after.loads source root = before.loads source root

namespace Settled

variable {before middle after : Store} {early late sources : List NodeId}

theorem refl (store : Store) : Settled [] store store := ⟨fun _ _ => rfl, fun _ _ _ => rfl⟩

theorem kind? (settled : Settled sources before after) (kept : ∀ source ∈ sources, before.kind? id ≠ some (.dupLoad source)) :
    after.kind? id = before.kind? id := by
  rw [Store.kind?, Store.kind?, settled.node? id kept]

theorem kind?_of_ne (settled : Settled sources before after) (found : before.kind? id = some kind)
    (noLoad : ∀ source, kind ≠ .dupLoad source) : after.kind? id = some kind :=
  (settled.kind? fun source _ same => noLoad source (Option.some_inj.mp (found.symm.trans same))).trans found

theorem kind?_of_load (settled : Settled sources before after) (load : before.kind? id = some (.dupLoad source))
    (other : source ∉ sources) : after.kind? id = some (.dupLoad source) := by
  refine (settled.kind? fun named among same => ?_).trans load
  cases load.symm.trans same
  exact other among

theorem mono (settled : Settled early before after) (subset : early ⊆ late) : Settled late before after :=
  ⟨fun id kept => settled.node? id fun source among => kept source (subset among),
    fun source other => settled.loads source fun among => other (subset among)⟩

theorem trans (first : Settled early before middle) (second : Settled late middle after) :
    Settled (early ++ late) before after where
  node? id kept := by
    have same := first.node? id fun source among => kept source (List.mem_append_left _ among)
    refine (second.node? id fun source among => ?_).trans same
    rw [Store.kind?, same]
    exact kept source (List.mem_append_right _ among)
  loads source other root := by
    rw [List.mem_append, not_or] at other
    rw [second.loads source other.2, first.loads source other.1]

theorem dupFree (settled : Settled sources before after) (free : before.DupFree root) : after.DupFree root := by
  refine free.congr fun id reached => ?_
  obtain ⟨kind, found, noLoad⟩ := free id reached
  exact (settled.kind?_of_ne found fun source => noLoad source trivial).trans found.symm

theorem replace {use held : NodeId} (load : before.kind? use = some (.dupLoad held)) (noLoad : ∀ source, kind ≠ .dupLoad source)
    (free : ∀ child ∈ kind.children, before.DupFree child) : Settled [held] before (before.replace use kind) where
  node? id kept := by
    rw [node?_replace, if_neg]
    rintro rfl
    exact kept held (List.mem_singleton_self held) load
  loads source other root := loads_replace load (by simpa using other) (noLoad source) free root

end Settled

end Store

end ClassLift
