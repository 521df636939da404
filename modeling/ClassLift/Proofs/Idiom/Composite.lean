import ClassLift.Proofs.Idiom.Sweep

/-!
# Recovering nested expressions

A composite is a tree of expressions as it was written. It is compiled to statements that make its nodes one after another,
each held for the statements that fill it and for its one use. `Recovers` says of such code that a sweep removes all of it and
leaves the tree at the use. The parts of a node are recovered one after another, from the last to the first
(`Assembly.passes`), and then the node itself (`Scaffold.recovers`). An idiom only has to show what its step does at the
statement that holds the node.
-/

namespace ClassLift

/-- A tree of expressions: those that are already there, and those that have to be put together from parts. -/
inductive Composite (α : Type) where
  | expression (root : NodeId)
  | build (label : α) (parts : List (Composite α))

namespace Composite

open Draft Store

variable {α : Type} {m : Type → Type} [Monad m]

inductive Stands (store : Store) (made : α → List NodeId → Kind) : Composite α → NodeId → Prop
  | expression (root : NodeId) : Stands store made (.expression root) root
  | build {label : α} {id : NodeId} {parts : List (Composite α × NodeId)}
      (found : store.kind? id = some (made label (parts.map Prod.snd)))
      (inner : ∀ part ∈ parts, Stands store made part.1 part.2) : Stands store made (.build label (parts.map Prod.fst)) id

theorem Stands.settled {made : α → List NodeId → Kind} {tree : Composite α} {id : NodeId} {sources : List NodeId}
    {before after : Store} (stands : Stands before made tree id)
    (noLoad : ∀ label parts source, made label parts ≠ .dupLoad source) (settled : Settled sources before after) :
    Stands after made tree id := by
  induction stands with
  | expression root => exact .expression root
  | build found _ inner => exact .build (settled.kind?_of_ne found (noLoad _ _)) inner

/-- A tree with the statements that compute its value and the node that stands for the value. -/
structure Fragment (α : Type) where
  tree : Composite α
  use : NodeId
  code : List NodeId

/-- The value is an expression or is held by the code, and the code repeats no values but its own. -/
structure Computes (store : Store) (code : List NodeId) (use : NodeId) : Prop where
  used : store.DupFree use ∨ ∃ held ∈ code, store.kind? use = some (.dupLoad held)
  closed : ∀ statement ∈ code, ∀ source ∉ code, store.loads source statement = []

theorem Computes.isDupLoadOf {store : Store} {code : List NodeId} {use source : NodeId} (computes : Computes store code use)
    (other : source ∉ code) : store.isDupLoadOf use source = false := by
  rcases computes.used with free | ⟨held, among, load⟩
  · exact free.isDupLoadOf trivial
  · rw [isDupLoadOf_of_load load, beq_eq_false_iff_ne]
    rintro rfl
    exact other among

/-- A sweep over the code leaves the tree at its use and nothing of the code. The store may have been changed before at
repeats of other values. -/
def Recovers (step : Store → Spot → m (Store × Cursor)) (made : α → List NodeId → Kind) (store : Store) (part : Fragment α) :
    Prop :=
  ∀ (before after sources : List NodeId) (now : Store), Settled sources store now → (∀ source ∈ part.code, source ∉ sources) →
    (∀ statement ∈ before, ∀ source ∈ part.code, store.loads source statement = []) →
    (∀ source ∈ part.code, after.flatMap (store.loads source) = [part.use].filter (store.isDupLoadOf · source)) →
    ∃ last, Passes step before part.code now after last after ∧ Settled part.code now last ∧
      Stands last made part.tree part.use ∧ last.DupFree part.use

section Parts

variable {step : Store → Spot → m (Store × Cursor)} {made : α → List NodeId → Kind} {store now : Store}
  {before after sources : List NodeId}

theorem passes_kept {block : List NodeId} (keeps : ∀ statement ∈ block, ∀ before after,
      step now ⟨before, statement, after⟩ = pure (now, ⟨before, statement :: after⟩)) :
    Passes step before block now after now (block ++ after) := by
  induction block generalizing before with
  | nil => exact .nil
  | cons statement rest continues =>
    exact .cons (continues fun other member => keeps other (.tail _ member)) (keeps statement List.mem_cons_self _ _)

/-- Parts of a node, each with the statements that follow its code, such that a sweep can recover them one after another. -/
structure Assembly (step : Store → Spot → m (Store × Cursor)) (made : α → List NodeId → Kind) (store : Store)
    (parts : List (Fragment α × List NodeId)) (after : List NodeId) : Prop where
  recovers : ∀ part ∈ parts, Recovers step made store part.1
  computes : ∀ part ∈ parts, Computes store part.1.code part.1.use
  keeps : ∀ part ∈ parts, ∀ statement ∈ part.2, ∀ sources now, Settled sources store now → ∀ before after,
    step now ⟨before, statement, after⟩ = pure (now, ⟨before, statement :: after⟩)
  own : ∀ part ∈ parts, ∀ statement ∈ part.2, ∀ source ∈ parts.flatMap (·.1.code), source ∉ part.1.code →
    store.loads source statement = []
  distinct : (parts.flatMap (·.1.code)).Nodup
  used : ∀ source ∈ parts.flatMap (·.1.code), (parts.flatMap Prod.snd ++ after).flatMap (store.loads source) =
    (parts.map (·.1.use)).filter (store.isDupLoadOf · source)

namespace Assembly

variable {part : Fragment α × List NodeId} {parts rest : List (Fragment α × List NodeId)} {source : NodeId}

theorem apart (assembly : Assembly step made store (part :: rest) after) (own : source ∈ part.1.code) :
    source ∉ rest.flatMap (·.1.code) :=
  fun later => (List.nodup_append'.mp assembly.distinct).2.2 own later

theorem tail (assembly : Assembly step made store (part :: rest) after) : Assembly step made store rest after where
  recovers other member := assembly.recovers other (.tail _ member)
  computes other member := assembly.computes other (.tail _ member)
  keeps other member := assembly.keeps other (.tail _ member)
  own other member statement inside source among := assembly.own other (.tail _ member) statement inside source
    (List.mem_append_right _ among)
  distinct := (List.nodup_append'.mp assembly.distinct).2.1
  used source among := by
    have other : source ∉ part.1.code := fun own => assembly.apart own among
    have whole := assembly.used source (List.mem_append_right _ among)
    have none : part.2.flatMap (store.loads source) = [] := List.flatMap_eq_nil_iff.mpr fun statement inside =>
      assembly.own part List.mem_cons_self statement inside source (List.mem_append_right _ among) other
    rw [List.flatMap_cons, List.append_assoc, List.flatMap_append, none, List.nil_append, List.map_cons, List.filter_cons,
      (assembly.computes part List.mem_cons_self).isDupLoadOf other] at whole
    exact whole

theorem used_head (assembly : Assembly step made store (part :: rest) after) (own : source ∈ part.1.code) :
    (part.2 ++ (rest.flatMap Prod.snd ++ after)).flatMap (store.loads source) =
      [part.1.use].filter (store.isDupLoadOf · source) := by
  have whole := assembly.used source (List.mem_append_left _ own)
  have none : (rest.map (·.1.use)).filter (store.isDupLoadOf · source) = [] := by
    rw [List.filter_eq_nil_iff]
    intro use among
    obtain ⟨other, member, rfl⟩ := List.mem_map.mp among
    have outside : source ∉ other.1.code := fun inside => assembly.apart own (List.mem_flatMap.mpr ⟨other, member, inside⟩)
    simp [(assembly.computes other (.tail _ member)).isDupLoadOf outside]
  rw [List.flatMap_cons, List.append_assoc, List.map_cons, ← List.singleton_append, List.filter_append, none,
    List.append_nil] at whole
  exact whole

theorem passes (before : List NodeId) (assembly : Assembly step made store parts after)
    (noLoad : ∀ label parts source, made label parts ≠ .dupLoad source) (settled : Settled sources store now)
    (fresh : ∀ source ∈ parts.flatMap (·.1.code), source ∉ sources)
    (unseen : ∀ statement ∈ before, ∀ source ∈ parts.flatMap (·.1.code), store.loads source statement = []) :
    ∃ last, Passes step before (parts.flatMap fun part => part.1.code ++ part.2) now after last
        (parts.flatMap Prod.snd ++ after) ∧
      Settled (parts.flatMap (·.1.code)) now last ∧
      ∀ part ∈ parts, Stands last made part.1.tree part.1.use ∧ last.DupFree part.1.use := by
  induction parts generalizing before now sources with
  | nil => exact ⟨now, .nil, .refl now, nofun⟩
  | cons part rest continues =>
    have first : part ∈ part :: rest := List.mem_cons_self
    have unseenRest : ∀ statement ∈ before ++ (part.1.code ++ part.2), ∀ source ∈ rest.flatMap (·.1.code),
        store.loads source statement = [] := by
      intro statement inside source among
      have other : source ∉ part.1.code := fun own => assembly.apart own among
      have among : source ∈ (part :: rest).flatMap (·.1.code) := List.mem_append_right _ among
      simp only [List.mem_append] at inside
      rcases inside with inside | inside | inside
      · exact unseen statement inside source among
      · exact (assembly.computes part first).closed statement inside source other
      · exact assembly.own part first statement inside source among other
    obtain ⟨middle, passesRest, settledRest, standRest⟩ := continues _ assembly.tail settled
      (fun source among => fresh source (List.mem_append_right _ among)) unseenRest
    have passesTail : Passes step (before ++ part.1.code) part.2 middle (rest.flatMap Prod.snd ++ after) middle
        (part.2 ++ (rest.flatMap Prod.snd ++ after)) :=
      passes_kept fun statement inside => assembly.keeps part first statement inside _ middle (settled.trans settledRest)
    obtain ⟨last, passesPart, settledPart, stands, free⟩ := assembly.recovers part first before
      (part.2 ++ (rest.flatMap Prod.snd ++ after)) _ middle (settled.trans settledRest)
      (fun source own => by
        rw [List.mem_append, not_or]
        exact ⟨fresh source (List.mem_append_left _ own), assembly.apart own⟩)
      (fun statement inside source own => unseen statement inside source (List.mem_append_left _ own))
      (fun source => assembly.used_head)
    refine ⟨last, ?_, (settledRest.trans settledPart).mono ?_, ?_⟩
    · rw [List.flatMap_cons, List.flatMap_cons, List.append_assoc part.2]
      exact passesRest.append (passesTail.append passesPart)
    · intro source among
      rw [List.flatMap_cons]
      exact List.mem_append.mpr (List.mem_append.mp among).symm
    · intro other member
      rcases List.mem_cons.mp member with rfl | member
      · exact ⟨stands, free⟩
      · obtain ⟨standsOther, freeOther⟩ := standRest other member
        exact ⟨standsOther.settled noLoad settledPart, settledPart.dupFree freeOther⟩

end Assembly

theorem flatMap_loads_settled {held use : NodeId} (settled : Settled sources store now) (other : held ∉ sources)
    (load : store.kind? use = some (.dupLoad held)) (unseen : ∀ statement ∈ before ++ [held], store.loads held statement = [])
    (used : after.flatMap (store.loads held) = [use].filter (store.isDupLoadOf · held)) :
    (before ++ held :: after).flatMap (now.loads held) = [use] := by
  rw [List.flatMap_congr fun statement _ => settled.loads held other statement, List.append_cons, List.flatMap_append,
    List.flatMap_eq_nil_iff.mpr unseen, List.nil_append, used, List.filter_singleton, isDupLoadOf_of_load load,
    beq_self_eq_true]
  rfl

theorem Stands.replace {store : Store} {use held : NodeId} (made : α → List NodeId → Kind) (label : α)
    (parts : List (Fragment α)) (load : store.kind? use = some (.dupLoad held))
    (noLoad : ∀ label parts source, made label parts ≠ .dupLoad source)
    (free : ∀ child ∈ (made label (parts.map Fragment.use)).children, store.DupFree child)
    (inner : ∀ part ∈ parts, Stands store made part.tree part.use) :
    Settled [held] store (store.replace use (made label (parts.map Fragment.use))) ∧
      Stands (store.replace use (made label (parts.map Fragment.use))) made (.build label (parts.map Fragment.tree)) use ∧
      (store.replace use (made label (parts.map Fragment.use))).DupFree use := by
  have settled : Settled [held] store (store.replace use (made label (parts.map Fragment.use))) :=
    .replace load (noLoad _ _) free
  have found : (store.replace use (made label (parts.map Fragment.use))).kind? use = some (made label (parts.map Fragment.use)) :=
    kind?_replace_self (lt_size_of_kind? load)
  refine ⟨settled, ?_, .of_children found (fun source _ => noLoad _ _ source) fun child member => ?_⟩
  · have build : Stands (store.replace use (made label (parts.map Fragment.use))) made
        (.build label ((parts.map fun part => (part.tree, part.use)).map Prod.fst)) use := by
      refine .build (by rw [found, List.map_map]; rfl) fun pair member => ?_
      obtain ⟨part, among, rfl⟩ := List.mem_map.mp member
      exact (inner part among).settled noLoad settled
    rw [List.map_map] at build
    exact build
  · exact settled.dupFree (free child member)

/-- A node that is held while its parts are put together: the statement that holds it, its parts, and the statements after
them that complete it. -/
structure Scaffold (step : Store → Spot → m (Store × Cursor)) (made : α → List NodeId → Kind) (store : Store) (label : α)
    (held use : NodeId) (parts : List (Fragment α × List NodeId)) (tail : List NodeId) : Prop where
  repeats : store.kind? use = some (.dupLoad held)
  free : store.DupFree held
  distinct : (held :: parts.flatMap (·.1.code)).Nodup
  assembly : ∀ after, (∀ source ∈ parts.flatMap (·.1.code), after.flatMap (store.loads source) = []) →
    Assembly step made store parts (tail ++ after)
  keeps : ∀ statement ∈ tail, ∀ sources now, Settled sources store now → held ∉ sources → ∀ before after,
    step now ⟨before, statement, after⟩ = pure (now, ⟨before, statement :: after⟩)
  children : ∀ sources now, Settled sources store now → (∀ part ∈ parts, now.DupFree part.1.use) →
    ∀ child ∈ (made label (parts.map (·.1.use))).children, now.DupFree child
  built : ∀ sources now, Settled sources store now → held ∉ sources → ∀ before after,
    (before ++ held :: after).flatMap (now.loads held) = [use] →
      step now ⟨before.reverse, held, parts.flatMap Prod.snd ++ (tail ++ after)⟩ =
        pure (now.replace use (made label (parts.map (·.1.use))), ⟨before.reverse, after⟩)

theorem Scaffold.recovers {label : α} {held use : NodeId} {parts : List (Fragment α × List NodeId)} {tail : List NodeId}
    (scaffold : Scaffold step made store label held use parts tail)
    (noLoad : ∀ label parts source, made label parts ≠ .dupLoad source) :
    Recovers step made store ⟨.build label (parts.map (·.1.tree)), use,
      held :: (parts.flatMap (fun part => part.1.code ++ part.2) ++ tail)⟩ := by
  intro before after sources now settled fresh unseen used
  obtain ⟨outside, _⟩ := List.nodup_cons.mp scaffold.distinct
  have codes : held :: parts.flatMap (·.1.code) ⊆ held :: (parts.flatMap (fun part => part.1.code ++ part.2) ++ tail) := by
    refine List.cons_subset_cons held fun source among => ?_
    obtain ⟨part, member, inside⟩ := List.mem_flatMap.mp among
    exact List.mem_append_left _ (List.mem_flatMap.mpr ⟨part, member, List.mem_append_left _ inside⟩)
  have unused (source : NodeId) (among : source ∈ parts.flatMap (·.1.code)) : after.flatMap (store.loads source) = [] := by
    have apart : held ≠ source := fun same => outside (same ▸ among)
    rw [used source (codes (.tail _ among)), List.filter_singleton, isDupLoadOf_of_load scaffold.repeats,
      beq_eq_false_iff_ne.mpr apart]
    rfl
  have unseenHere (statement : NodeId) (inside : statement ∈ before ++ [held]) (source : NodeId)
      (among : source ∈ held :: parts.flatMap (·.1.code)) : store.loads source statement = [] := by
    rcases List.mem_append.mp inside with inside | inside
    · exact unseen statement inside source (codes among)
    · exact List.mem_singleton.mp inside ▸ scaffold.free.loads trivial
  have heldFresh : held ∉ sources := fresh held List.mem_cons_self
  have passesTail : Passes step (before ++ [held] ++ parts.flatMap fun part => part.1.code ++ part.2) tail now after now
      (tail ++ after) :=
    passes_kept fun statement inside => scaffold.keeps statement inside sources now settled heldFresh
  obtain ⟨middle, passesParts, settledParts, stand⟩ := (scaffold.assembly after unused).passes (before ++ [held]) noLoad settled
    (fun source among => fresh source (codes (.tail _ among)))
    (fun statement inside source among => unseenHere statement inside source (.tail _ among))
  -- The node itself is still held in `middle`, and its use is all that is left of it outside of its own code.
  have whole := settled.trans settledParts
  have stillHeld : held ∉ sources ++ parts.flatMap (·.1.code) := by
    rw [List.mem_append, not_or]
    exact ⟨heldFresh, outside⟩
  have only : (before ++ held :: after).flatMap (middle.loads held) = [use] :=
    flatMap_loads_settled whole stillHeld scaffold.repeats
      (fun statement inside => unseenHere statement inside held List.mem_cons_self) (used held List.mem_cons_self)
  have children := scaffold.children _ middle whole fun part member => (stand part member).2
  obtain ⟨settledUse, stands, free⟩ := Stands.replace made label (parts.map Prod.fst)
    (whole.kind?_of_load scaffold.repeats stillHeld) noLoad (by rw [List.map_map]; exact children)
    (List.forall_mem_map.mpr fun part member => (stand part member).1)
  rw [List.map_map] at settledUse stands free
  rw [List.map_map] at stands
  refine ⟨_, .cons (passesTail.append passesParts) (scaffold.built _ middle whole stillHeld before after only),
    (settledParts.trans settledUse).mono fun source among => codes ?_, stands, free⟩
  exact List.mem_cons.mpr (by simpa using (List.mem_append.mp among).symm)

end Parts

/-- `use` is the only node below the statement that repeats a value held in the code. -/
def OnlyUse (store : Store) (code : List NodeId) (statement use : NodeId) : Prop :=
  (store.preorder statement).filter (fun id => code.any (store.isDupLoadOf id)) = [use]

theorem OnlyUse.loads {store : Store} {code : List NodeId} {statement use source : NodeId}
    (only : OnlyUse store code statement use) (among : source ∈ code) :
    store.loads source statement = [use].filter (store.isDupLoadOf · source) := by
  rw [← only, List.filter_filter, Store.loads]
  refine List.filter_congr fun id _ => ?_
  cases isLoad : store.isDupLoadOf id source with
  | false => rfl
  | true => rw [Bool.true_and, eq_comm, List.any_eq_true]; exact ⟨source, among, isLoad⟩

theorem Recovers.sweep [LawfulMonad m] {step : Store → Spot → m (Store × Cursor)} {made : α → List NodeId → Kind}
    {store : Store} {part : Fragment α} {statement : NodeId} (recovers : Recovers step made store part)
    (only : OnlyUse store part.code statement part.use)
    (kept : ∀ before, step store ⟨before, statement, []⟩ = pure (store, ⟨before, [statement]⟩)) :
    ∃ last, Draft.sweep ⟨store, part.code ++ [statement]⟩ step = pure ⟨last, [statement]⟩ ∧ Settled part.code store last ∧
      Stands last made part.tree part.use := by
  obtain ⟨last, passes, settled, stands, _⟩ := recovers [] [statement] [] store (.refl store) (fun _ _ => List.not_mem_nil)
    nofun fun source among => by rw [List.flatMap_singleton, only.loads among]
  exact ⟨last, ((Passes.single (kept _)).append passes).sweep, settled, stands⟩

end Composite

end ClassLift
