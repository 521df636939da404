import ClassLift.Proofs.Body.Tree
import ClassLift.Structure.Declaration

namespace ClassLift

namespace Declaration

def Declares (store : Store) (id : NodeId) (slot : Slot) : Prop := ∃ value, store.kind? id = some (.declare slot value)

/-- The places of a statement where a variable can be declared: the statement itself, the initialization of a counted loop and
the places of the statements in its blocks. -/
inductive Within (store : Store) : NodeId → NodeId → Prop
  | itself (statement : NodeId) : Within store statement statement
  | start {statement start condition update : NodeId} {body : List NodeId}
      (found : store.kind? statement = some (.loop (.counted start condition update) body)) : Within store statement start
  | nested {statement inner id : NodeId} {kind : Kind} {block : List NodeId} (found : store.kind? statement = some kind)
      (among : block ∈ kind.bodies) (member : inner ∈ block) (within : Within store inner id) : Within store statement id

inductive Block (store : Store) (body : List NodeId) : List NodeId → Prop
  | whole : Block store body body
  | nested {list block : List NodeId} {statement : NodeId} {kind : Kind} (outer : Block store body list)
      (member : statement ∈ list) (found : store.kind? statement = some kind) (among : block ∈ kind.bodies) :
      Block store body block

inductive Sees (store : Store) (body : List NodeId) (id : NodeId) (slot : Slot) : Prop
  | earlier {before after : List NodeId} {declaration statement : NodeId}
      (listed : Block store body (before ++ statement :: after)) (member : declaration ∈ before)
      (declares : Declares store declaration slot) (within : Within store statement id) : Sees store body id slot
  | start {list block : List NodeId} {loop start condition update statement : NodeId} (listed : Block store body list)
      (member : loop ∈ list) (found : store.kind? loop = some (.loop (.counted start condition update) block))
      (declares : Declares store start slot) (inside : statement ∈ block) (within : Within store statement id) :
      Sees store body id slot
  | handler {list block cleanup : List NodeId} {catches : List CatchClause} {clause : CatchClause} {guard statement : NodeId}
      (listed : Block store body list) (member : guard ∈ list) (found : store.kind? guard = some (.tryCatch block catches cleanup))
      (among : clause ∈ catches) (same : clause.slot = slot) (inside : statement ∈ clause.body)
      (within : Within store statement id) : Sees store body id slot

/-! ## Scopes -/

def declaredBy : Kind → List Slot
  | .declare slot _ => [slot]
  | _ => []

def declaredAt (store : Store) (id : NodeId) : List Slot := (store.kind? id).elim [] declaredBy

/-- The blocks of a statement, each with the variables visible at its beginning. -/
def scopes (store : Store) (visible : List Slot) : Kind → List (List Slot × List NodeId)
  | .loop (.counted start _ _) body => [(declaredAt store start ++ visible, body)]
  | .tryCatch body catches cleanup =>
      (visible, body) :: catches.map (fun clause => (clause.slot :: visible, clause.body)) ++ [(visible, cleanup)]
  | kind => kind.bodies.map (visible, ·)

/-- A write to a variable that is not a parameter needs a declaration of it, and a declaration must not repeat one. -/
structure Fits (first : Slot) (visible : List Slot) (kind : Kind) : Prop where
  written : ∀ type slot value, kind = .write (.slot type slot) value → first ≤ slot → slot ∈ visible
  declared : ∀ slot value, kind = .declare slot value → slot ∉ visible

/-- Every place of the statements fits the variables visible there. -/
inductive Scoped (store : Store) (first : Slot) : List Slot → List NodeId → Prop
  | nil {visible : List Slot} : Scoped store first visible []
  | cons {visible : List Slot} {id : NodeId} {kind : Kind} {rest : List NodeId} (found : store.kind? id = some kind)
      (fits : Fits first visible kind)
      (starts : ∀ start condition update body, kind = .loop (.counted start condition update) body →
        ∃ initial, store.kind? start = some initial ∧ Fits first visible initial)
      (blocks : ∀ block ∈ scopes store visible kind, Scoped store first block.1 block.2)
      (onward : Scoped store first (declaredBy kind ++ visible) rest) : Scoped store first visible (id :: rest)

section Scopes

variable {store other : Store} {first : Slot} {visible : List Slot} {body list before after : List NodeId}
  {id statement : NodeId} {slot : Slot} {kind : Kind}

theorem mem_declaredBy : slot ∈ declaredBy kind ↔ ∃ value, kind = .declare slot value := by
  cases kind <;> simp [declaredBy, eq_comm]

theorem mem_declaredAt : slot ∈ declaredAt store id ↔ Declares store id slot := by
  unfold declaredAt Declares
  cases store.kind? id with
  | none => simp
  | some kind => simpa using mem_declaredBy

theorem scopes_snd (store : Store) (visible : List Slot) (kind : Kind) :
    (scopes store visible kind).map Prod.snd = kind.bodies := by
  unfold scopes
  split
  · rfl
  · simp [Kind.bodies, Function.comp_def]
  · simp [Function.comp_def]

theorem subset_of_mem_scopes {scope : List Slot × List NodeId} (member : scope ∈ scopes store visible kind) :
    visible ⊆ scope.1 := by
  unfold scopes at member
  split at member
  · obtain rfl := List.mem_singleton.mp member
    exact List.subset_append_right _ _
  · simp only [List.cons_append, List.mem_cons, List.mem_append, List.mem_map, List.not_mem_nil, or_false] at member
    rcases member with rfl | ⟨clause, _, rfl⟩ | rfl
    · exact List.Subset.refl _
    · exact List.subset_cons_self _ _
    · exact List.Subset.refl _
  · obtain ⟨_, _, rfl⟩ := List.mem_map.mp member
    exact List.Subset.refl _

theorem scopes_congr (same : ∀ operand ∈ kind.operands, other.kind? operand = store.kind? operand) :
    scopes other visible kind = scopes store visible kind := by
  unfold scopes
  split
  · rw [declaredAt, declaredAt, same _ (by simp [Kind.operands, LoopForm.operands])]
  · rfl
  · rfl

theorem Within.reaches (within : Within store statement id) : store.Reaches statement id := by
  induction within with
  | itself statement => exact .refl statement
  | start found => exact .tail (.refl _) found (by simp [Kind.children, Kind.operands, LoopForm.operands])
  | nested found among member _ continues =>
    refine (Store.Reaches.tail (.refl _) found ?_).trans continues
    exact List.mem_append_right _ (List.mem_flatten.mpr ⟨_, among, member⟩)

theorem Within.of_blocks (within : Within store statement id)
    (same : ∀ id kind, kind.bodies ≠ [] → store.kind? id = some kind → other.kind? id = some kind) :
    Within other statement id := by
  induction within with
  | itself statement => exact .itself statement
  | start found => exact .start (same _ _ (by simp [Kind.bodies]) found)
  | nested found among member _ continues => exact .nested (same _ _ (List.ne_nil_of_mem among) found) among member continues

theorem Scoped.congr (valid : Scoped store first visible list)
    (same : ∀ statement ∈ list, ∀ id, store.Reaches statement id → other.kind? id = store.kind? id) :
    Scoped other first visible list := by
  induction valid with
  | nil => exact .nil
  | @cons visible id kind rest found fits starts _ _ inner onward =>
    have own : other.kind? id = store.kind? id := same id List.mem_cons_self id (.refl id)
    have below (child : NodeId) (member : child ∈ kind.children) (node : NodeId) (reached : store.Reaches child node) :
        other.kind? node = store.kind? node :=
      same id List.mem_cons_self node ((Store.Reaches.tail (.refl id) found member).trans reached)
    have operand (operand : NodeId) (member : operand ∈ kind.operands) : other.kind? operand = store.kind? operand :=
      below operand (List.mem_append_left _ member) operand (.refl operand)
    refine .cons (own.trans found) fits ?_ ?_ (onward fun statement member => same statement (.tail _ member))
    · rintro start condition update body rfl
      obtain ⟨initial, foundStart, fitsStart⟩ := starts start condition update body rfl
      exact ⟨initial, (operand start (by simp [Kind.operands, LoopForm.operands])).trans foundStart, fitsStart⟩
    · rw [scopes_congr operand]
      intro block member
      refine inner block member fun statement among => below statement (List.mem_append_right _ ?_)
      have listed : block.2 ∈ kind.bodies := scopes_snd store visible kind ▸ List.mem_map.mpr ⟨block, member, rfl⟩
      exact List.mem_flatten.mpr ⟨block.2, listed, among⟩

theorem Scoped.append {rest : List NodeId} (valid : Scoped store first visible [id])
    (onward : Scoped store first (declaredAt store id ++ visible) rest) : Scoped store first visible (id :: rest) := by
  cases valid with
  | cons found fits starts blocks _ =>
    rw [declaredAt, found, Option.elim_some] at onward
    exact .cons found fits starts blocks onward

theorem Scoped.behind (valid : Scoped store first visible (before ++ after)) :
    ∃ more, Scoped store first more after ∧ ∀ slot, slot ∈ more ↔ slot ∈ visible ∨ ∃ id ∈ before, Declares store id slot := by
  induction before generalizing visible with
  | nil => exact ⟨visible, valid, by simp⟩
  | cons id rest continues =>
    cases valid with
    | @cons _ _ kind _ found _ _ _ onward =>
      obtain ⟨more, valid, visibleBehind⟩ := continues onward
      have own (slot : Slot) : slot ∈ declaredBy kind ↔ Declares store id slot := by
        rw [← mem_declaredAt, declaredAt, found, Option.elim_some]
      refine ⟨more, valid, fun slot => ?_⟩
      rw [visibleBehind, List.mem_append, own]
      simp only [List.mem_cons, exists_eq_or_imp]
      tauto

theorem Scoped.at_mem (valid : Scoped store first visible list) (member : statement ∈ list) :
    ∃ before after kind more, list = before ++ statement :: after ∧ store.kind? statement = some kind ∧
      (∀ slot, slot ∈ more ↔ slot ∈ visible ∨ ∃ id ∈ before, Declares store id slot) ∧ Fits first more kind ∧
      (∀ start condition update body, kind = .loop (.counted start condition update) body →
        ∃ initial, store.kind? start = some initial ∧ Fits first more initial) ∧
      ∀ scope ∈ scopes store more kind, Scoped store first scope.1 scope.2 := by
  obtain ⟨before, after, rfl⟩ := List.append_of_mem member
  obtain ⟨more, valid, visibleThere⟩ := valid.behind
  cases valid with
  | cons found fits starts blocks _ => exact ⟨before, after, _, more, rfl, found, visibleThere, fits, starts, blocks⟩

theorem Scoped.block (valid : Scoped store first visible body) (listed : Block store body list) :
    ∃ more, Scoped store first more list := by
  induction listed with
  | whole => exact ⟨visible, valid⟩
  | @nested _ block statement kind _ member foundKind among continues =>
    obtain ⟨_, outer⟩ := continues
    obtain ⟨_, _, _, more, _, found, _, _, _, blocks⟩ := outer.at_mem member
    cases found.symm.trans foundKind
    rw [← scopes_snd store more kind] at among
    obtain ⟨scope, listed, rfl⟩ := List.mem_map.mp among
    exact ⟨scope.1, blocks scope listed⟩

theorem Scoped.fits_within (valid : Scoped store first visible list) (member : statement ∈ list)
    (within : Within store statement id) :
    ∃ kind more, store.kind? id = some kind ∧ Fits first more kind ∧ visible ⊆ more := by
  induction within generalizing visible list with
  | itself statement =>
    obtain ⟨_, _, kind, more, _, found, visibleThere, fits, _, _⟩ := valid.at_mem member
    exact ⟨kind, more, found, fits, fun slot seen => (visibleThere slot).mpr (.inl seen)⟩
  | start foundLoop =>
    obtain ⟨_, _, _, more, _, found, visibleThere, _, starts, _⟩ := valid.at_mem member
    cases found.symm.trans foundLoop
    obtain ⟨initial, foundStart, fits⟩ := starts _ _ _ _ rfl
    exact ⟨initial, more, foundStart, fits, fun slot seen => (visibleThere slot).mpr (.inl seen)⟩
  | @nested statement inner id kind block foundKind among memberInner _ continues =>
    obtain ⟨_, _, _, more, _, found, visibleThere, _, _, blocks⟩ := valid.at_mem member
    cases found.symm.trans foundKind
    rw [← scopes_snd store more kind] at among
    obtain ⟨scope, listed, rfl⟩ := List.mem_map.mp among
    obtain ⟨own, most, foundPlace, fits, subset⟩ := continues (blocks scope listed) memberInner
    refine ⟨own, most, foundPlace, fits, fun slot seen => subset (subset_of_mem_scopes listed ?_)⟩
    exact (visibleThere slot).mpr (.inl seen)

theorem Scoped.not_sees (valid : Scoped store first visible body) (declares : Declares store id slot) :
    ¬Sees store body id slot := by
  have contradicts {list : List NodeId} {visible : List Slot} {statement : NodeId} (valid : Scoped store first visible list)
      (member : statement ∈ list) (within : Within store statement id) (seen : slot ∈ visible) : False := by
    obtain ⟨kind, more, found, fits, subset⟩ := valid.fits_within member within
    obtain ⟨value, declared⟩ := declares
    exact fits.declared slot value (Option.some_inj.mp (found.symm.trans declared)) (subset seen)
  intro sees
  cases sees with
  | earlier listed member declared within =>
    obtain ⟨_, outer⟩ := valid.block listed
    obtain ⟨more, there, visibleThere⟩ := outer.behind
    exact contradicts there List.mem_cons_self within ((visibleThere slot).mpr (.inr ⟨_, member, declared⟩))
  | start listed member foundLoop declared inside within =>
    obtain ⟨_, outer⟩ := valid.block listed
    obtain ⟨_, _, _, more, _, found, _, _, _, blocks⟩ := outer.at_mem member
    cases found.symm.trans foundLoop
    exact contradicts (blocks _ (List.mem_singleton_self _)) inside within
      (List.mem_append_left _ (mem_declaredAt.mpr declared))
  | @handler _ _ _ _ clause _ _ listed member foundGuard among same inside within =>
    obtain ⟨_, outer⟩ := valid.block listed
    obtain ⟨_, _, _, more, _, found, _, _, _, blocks⟩ := outer.at_mem member
    cases found.symm.trans foundGuard
    have scope := blocks (clause.slot :: more, clause.body) (by
      simpa [scopes] using ⟨clause, among, rfl, rfl⟩)
    exact contradicts scope inside within (same ▸ List.mem_cons_self)

theorem Scoped.seen_at_mem (valid : Scoped store first visible list) (listed : Block store body list)
    (known : ∀ slot ∈ visible, ∀ statement ∈ list, ∀ id, Within store statement id → Sees store body id slot)
    (member : statement ∈ list) :
    ∃ kind more, store.kind? statement = some kind ∧
      (∀ slot ∈ more, ∀ id, Within store statement id → Sees store body id slot) ∧ Fits first more kind ∧
      (∀ start condition update body, kind = .loop (.counted start condition update) body →
        ∃ initial, store.kind? start = some initial ∧ Fits first more initial) ∧
      ∀ scope ∈ scopes store more kind, Scoped store first scope.1 scope.2 := by
  obtain ⟨before, after, kind, more, rfl, found, visibleThere, rest⟩ := valid.at_mem member
  refine ⟨kind, more, found, fun slot seen id within => ?_, rest⟩
  rcases (visibleThere slot).mp seen with seen | ⟨declaration, earlier, declares⟩
  · exact known slot seen statement member id within
  · exact .earlier listed earlier declares within

theorem mem_scope {scope : List Slot × List NodeId} (member : scope ∈ scopes store visible kind) (seen : slot ∈ scope.1) :
    slot ∈ visible ∨
      (∃ start condition update, kind = .loop (.counted start condition update) scope.2 ∧ Declares store start slot) ∨
      ∃ block catches cleanup clause, kind = .tryCatch block catches cleanup ∧ clause ∈ catches ∧ clause.slot = slot ∧
        clause.body = scope.2 := by
  unfold scopes at member
  split at member
  · obtain rfl := List.mem_singleton.mp member
    rcases List.mem_append.mp seen with declared | seen
    · exact .inr (.inl ⟨_, _, _, rfl, mem_declaredAt.mp declared⟩)
    · exact .inl seen
  · simp only [List.cons_append, List.mem_cons, List.mem_append, List.mem_map, List.not_mem_nil, or_false] at member
    rcases member with rfl | ⟨clause, among, rfl⟩ | rfl
    · exact .inl seen
    · rcases List.mem_cons.mp seen with rfl | seen
      · exact .inr (.inr ⟨_, _, _, clause, rfl, among, rfl, rfl⟩)
      · exact .inl seen
    · exact .inl seen
  · obtain ⟨_, _, rfl⟩ := List.mem_map.mp member
    exact .inl seen

theorem Scoped.sees_within (valid : Scoped store first visible list) (listed : Block store body list)
    (known : ∀ slot ∈ visible, ∀ statement ∈ list, ∀ id, Within store statement id → Sees store body id slot)
    (member : statement ∈ list) (within : Within store statement id) :
    ∃ kind more, store.kind? id = some kind ∧ Fits first more kind ∧ ∀ slot ∈ more, Sees store body id slot := by
  induction within generalizing visible list with
  | itself statement =>
    obtain ⟨kind, more, found, seen, fits, _, _⟩ := valid.seen_at_mem listed known member
    exact ⟨kind, more, found, fits, fun slot among => seen slot among statement (.itself statement)⟩
  | start foundLoop =>
    obtain ⟨_, more, found, seen, _, starts, _⟩ := valid.seen_at_mem listed known member
    cases found.symm.trans foundLoop
    obtain ⟨initial, foundStart, fits⟩ := starts _ _ _ _ rfl
    exact ⟨initial, more, foundStart, fits, fun slot among => seen slot among _ (.start foundLoop)⟩
  | @nested statement inner id kind block foundKind among memberInner _ continues =>
    obtain ⟨_, more, found, seen, _, _, blocks⟩ := valid.seen_at_mem listed known member
    cases found.symm.trans foundKind
    have inScopes := among
    rw [← scopes_snd store more kind] at inScopes
    obtain ⟨scope, isScope, rfl⟩ := List.mem_map.mp inScopes
    refine continues (blocks scope isScope) (.nested listed member foundKind among) ?_ memberInner
    intro slot visibleInside nested inside id within
    rcases mem_scope isScope visibleInside with
      around | ⟨start, condition, update, rfl, declares⟩ | ⟨_, _, _, clause, rfl, listedClause, same, isBody⟩
    · exact seen slot around id (.nested foundKind among inside within)
    · exact .start listed member foundKind declares inside within
    · exact .handler listed member foundKind listedClause same (isBody ▸ inside) within

end Scopes

end Declaration

end ClassLift
