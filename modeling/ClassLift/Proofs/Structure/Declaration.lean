import ClassLift.Proofs.Structure.Visibility

namespace ClassLift

namespace Declaration

/-- Some writes to local variables at the given places have become declarations. -/
def Rewrites (first : Slot) (places : NodeId → Prop) (before after : Store) : Prop :=
  ∀ id, after.node? id = before.node? id ∨ places id ∧ ∃ type slot value, first ≤ slot ∧
    before.kind? id = some (.write (.slot type slot) value) ∧
    after.node? id = (before.node? id).map fun node => { node with kind := .declare slot (some value) }

namespace Rewrites

variable {first : Slot} {places others : NodeId → Prop} {before middle after : Store} {id root : NodeId} {kind : Kind}
  {roots : List NodeId}

theorem refl (store : Store) : Rewrites first places store store := fun _ => .inl rfl

theorem mono (rewrites : Rewrites first places before after) (wider : ∀ id, places id → others id) :
    Rewrites first others before after :=
  fun id => (rewrites id).imp_right fun ⟨here, rest⟩ => ⟨wider id here, rest⟩

theorem trans (early : Rewrites first places before middle) (late : Rewrites first places middle after) :
    Rewrites first places before after := by
  intro id
  rcases early id with same | ⟨here, type, slot, value, bound, found, changed⟩
  · rcases late id with sameLater | ⟨here, type, slot, value, bound, found, changed⟩
    · exact .inl (sameLater.trans same)
    · refine .inr ⟨here, type, slot, value, bound, ?_, ?_⟩
      · simpa only [Store.kind?, same] using found
      · rw [changed, same]
  · -- A declaration is no write, so it is not changed again.
    obtain ⟨node, located, _⟩ := Store.kind?_eq_some.mp found
    rw [located, Option.map_some] at changed
    rcases late id with sameLater | ⟨_, _, _, _, _, foundLater, _⟩
    · exact .inr ⟨here, type, slot, value, bound, found, by rw [sameLater, changed, located, Option.map_some]⟩
    · cases (Store.kind?_of_node? changed).symm.trans foundLater

theorem kind? (rewrites : Rewrites first places before after) (elsewhere : ¬places id) :
    after.kind? id = before.kind? id := by
  rcases rewrites id with same | ⟨here, _⟩
  · simp only [Store.kind?, same]
  · exact absurd here elsewhere

theorem kind?_iff (rewrites : Rewrites first places before after) (blocks : kind.bodies ≠ []) :
    after.kind? id = some kind ↔ before.kind? id = some kind := by
  rcases rewrites id with same | ⟨_, type, slot, value, _, found, changed⟩
  · simp only [Store.kind?, same]
  · obtain ⟨node, located, _⟩ := Store.kind?_eq_some.mp found
    rw [located, Option.map_some] at changed
    rw [found, Store.kind?_of_node? changed]
    constructor
    all_goals
      intro same
      cases same
      cases blocks rfl

theorem children (rewrites : Rewrites first places before after) (id : NodeId) :
    (after.kind? id).map Kind.children = (before.kind? id).map Kind.children := by
  rcases rewrites id with same | ⟨_, type, slot, value, _, found, changed⟩
  · simp only [Store.kind?, same]
  · obtain ⟨node, located, _⟩ := Store.kind?_eq_some.mp found
    rw [located, Option.map_some] at changed
    rw [found, Store.kind?_of_node? changed]
    rfl

theorem size (rewrites : Rewrites first places before after) : after.size = before.size := by
  have same (id : NodeId) : (after.node? id).isSome = (before.node? id).isSome := by
    rcases rewrites id with same | ⟨_, _, _, _, _, _, changed⟩
    · rw [same]
    · rw [changed, Option.isSome_map]
  have inside (store : Store) (id : NodeId) : (store.node? id).isSome ↔ id < store.size := by
    simp [Store.node?, Store.size]
  have iff (id : NodeId) : id < after.size ↔ id < before.size := by rw [← inside, ← inside, same]
  refine Nat.le_antisymm (Nat.not_lt.mp fun less => ?_) (Nat.not_lt.mp fun less => ?_)
  · exact Nat.lt_irrefl _ ((iff before.size).mp less)
  · exact Nat.lt_irrefl _ ((iff after.size).mpr less)

theorem preorder (rewrites : Rewrites first places before after) (root : NodeId) : after.preorder root = before.preorder root := by
  have within (depth : Nat) (root : NodeId) : after.preorderWithin depth root = before.preorderWithin depth root := by
    induction depth generalizing root with
    | zero => rfl
    | succ depth continues =>
      have children := rewrites.children root
      unfold Store.preorderWithin
      cases found : before.kind? root with
      | none =>
        rw [found, Option.map_none, Option.map_eq_none_iff] at children
        rw [children]
      | some kind =>
        rw [found, Option.map_some, Option.map_eq_some_iff] at children
        obtain ⟨changed, foundChanged, same⟩ := children
        rw [foundChanged]
        simp only [same, funext continues]
  rw [Store.preorder, Store.preorder, rewrites.size, within]

theorem lists (rewrites : Rewrites first places before after) {order : List NodeId} (listed : before.Lists roots order) :
    after.Lists roots order := by
  induction listed with
  | nil => exact .nil
  | @cons root _ _ _ _ found _ _ inner others =>
    have children := rewrites.children root
    rw [found, Option.map_some, Option.map_eq_some_iff] at children
    obtain ⟨changed, foundChanged, same⟩ := children
    exact .cons foundChanged (same ▸ inner) others

theorem trees (rewrites : Rewrites first places before after) (trees : before.Trees roots) : after.Trees roots := by
  have same : roots.flatMap after.preorder = roots.flatMap before.preorder := by rw [funext rewrites.preorder]
  exact ⟨same ▸ rewrites.lists trees.listed, same ▸ trees.distinct⟩

theorem within (rewrites : Rewrites first places before after) : Within after root id ↔ Within before root id :=
  ⟨fun within => within.of_blocks fun _ _ blocks => (rewrites.kind?_iff blocks).mp,
    fun within => within.of_blocks fun _ _ blocks => (rewrites.kind?_iff blocks).mpr⟩

end Rewrites

def Undeclared (store : Store) (roots : List NodeId) : Prop :=
  ∀ id ∈ roots.flatMap store.preorder, ∀ slot, ¬Declares store id slot

section Apart

variable {first : Slot} {before after : Store} {changed kept roots more : List NodeId} {root id : NodeId}

theorem Rewrites.kind?_of_apart (rewrites : Rewrites first (fun id => ∃ root ∈ changed, Within before root id) before after)
    (changedTrees : before.Trees changed) (keptTrees : before.Trees kept)
    (apart : ∀ id ∈ changed.flatMap before.preorder, id ∉ kept.flatMap before.preorder) (member : root ∈ kept)
    (reached : before.Reaches root id) : after.kind? id = before.kind? id := by
  refine rewrites.kind? ?_
  rintro ⟨other, memberOther, within⟩
  have inChanged := (changedTrees.of_mem memberOther).mem_preorder_iff.mpr within.reaches
  have inKept := (keptTrees.of_mem member).mem_preorder_iff.mpr reached
  exact apart id (Store.Trees.mem_flatMap_of memberOther inChanged) (Store.Trees.mem_flatMap_of member inKept)

theorem Undeclared.append_inv (undeclared : Undeclared before (roots ++ more)) :
    Undeclared before roots ∧ Undeclared before more := by
  constructor
  all_goals
    intro id inside
    exact undeclared id (by simp only [List.flatMap_append, List.mem_append]; tauto)

theorem Undeclared.rewritten (undeclared : Undeclared before kept)
    (rewrites : Rewrites first (fun id => ∃ root ∈ changed, Within before root id) before after)
    (changedTrees : before.Trees changed) (keptTrees : before.Trees kept)
    (apart : ∀ id ∈ changed.flatMap before.preorder, id ∉ kept.flatMap before.preorder) : Undeclared after kept := by
  intro id inside slot
  rw [funext rewrites.preorder] at inside
  obtain ⟨root, member, below⟩ := List.mem_flatMap.mp inside
  have same := rewrites.kind?_of_apart changedTrees keptTrees apart member (Store.reaches_of_mem_preorder below)
  rw [Declares, same]
  exact undeclared id inside slot

end Apart

/-! ## One place -/

section Place

variable {first : Slot} {store : Store} {visible : List Slot} {id : NodeId} {kind : Kind}

theorem declare?_none (found : store.kind? id = some kind) (undeclared : ∀ slot, ¬Declares store id slot)
    (fails : declare? first store visible id = none) : Fits first visible kind ∧ declaredBy kind = [] := by
  have noDeclaration (slot : Slot) (value : Option NodeId) : kind ≠ .declare slot value :=
    fun same => undeclared slot ⟨value, same ▸ found⟩
  refine ⟨⟨?_, fun slot value same => absurd same (noDeclaration slot value)⟩, ?_⟩
  · rintro type slot value rfl bound
    simp only [declare?, found] at fails
    split at fails
    case isTrue skipped =>
      rw [Bool.or_eq_true, decide_eq_true_eq, List.contains_iff_mem] at skipped
      exact skipped.resolve_left (UInt16.not_lt.mpr bound)
    case isFalse => cases fails
  · cases kind with
    | declare slot value => exact absurd rfl (noDeclaration slot value)
    | _ => rfl

theorem declare?_some {changed : Store} {more : List Slot}
    (succeeds : declare? first store visible id = some (changed, more)) :
    ∃ slot value, changed.kind? id = some (.declare slot (some value)) ∧ Fits first visible (.declare slot (some value)) ∧
      more = slot :: visible ∧ Rewrites first (· = id) store changed := by
  unfold declare? at succeeds
  split at succeeds
  case h_2 => cases succeeds
  case h_1 type slot value found =>
    split at succeeds
    case isTrue => cases succeeds
    case isFalse passed =>
      cases succeeds
      simp only [Bool.or_eq_true, decide_eq_true_eq, List.contains_iff_mem, not_or] at passed
      refine ⟨slot, value, Store.kind?_replace_self (Store.lt_size_of_kind? found), ⟨nofun, ?_⟩, rfl, fun other => ?_⟩
      · rintro other content same
        cases same
        exact passed.2
      · rw [Store.node?_replace]
        split
        case isTrue here => exact .inr ⟨here, type, slot, value, UInt16.not_lt.mp passed.1, here ▸ found, here ▸ rfl⟩
        case isFalse => exact .inl rfl

theorem declare?_spec (first : Slot) (visible : List Slot) (found : store.kind? id = some kind)
    (undeclared : ∀ slot, ¬Declares store id slot) :
    let result := (declare? first store visible id).getD (store, visible)
    ∃ made, result.1.kind? id = some made ∧ Fits first visible made ∧ result.2 = declaredBy made ++ visible ∧
      Rewrites first (· = id) store result.1 := by
  cases outcome : declare? first store visible id with
  | none =>
    obtain ⟨fits, none⟩ := declare?_none found undeclared outcome
    exact ⟨kind, found, fits, by rw [none]; rfl, .refl store⟩
  | some result =>
    obtain ⟨slot, value, made, fits, more, rewrites⟩ := declare?_some outcome
    exact ⟨_, made, fits, more, rewrites⟩

end Place

/-! ## Blocks -/

def opened (first : Slot) (store : Store) (visible : List Slot) : Kind → Store
  | .loop (.counted start _ _) _ => ((declare? first store visible start).getD (store, visible)).1
  | _ => store

section Opened

variable {first : Slot} {store : Store} {visible : List Slot} {id : NodeId} {kind : Kind}

theorem opened_spec (first : Slot) (visible : List Slot) (found : store.kind? id = some kind)
    (known : ∀ operand ∈ kind.operands, (∃ made, store.kind? operand = some made) ∧ ∀ slot, ¬Declares store operand slot) :
    Rewrites first (fun place => (∃ operand ∈ kind.operands, Within store operand place) ∧ Within store id place) store
        (opened first store visible kind) ∧
      ∀ start condition update body, kind = .loop (.counted start condition update) body →
        ∃ initial, (opened first store visible kind).kind? start = some initial ∧ Fits first visible initial := by
  unfold opened
  split
  case h_1 start condition update body =>
    have operand : start ∈ (Kind.loop (.counted start condition update) body).operands := by
      simp [Kind.operands, LoopForm.operands]
    obtain ⟨⟨initial, foundStart⟩, undeclared⟩ := known start operand
    obtain ⟨made, foundMade, fits, _, rewrites⟩ := declare?_spec first visible foundStart undeclared
    refine ⟨rewrites.mono ?_, fun _ _ _ _ same => ?_⟩
    · rintro place rfl
      exact ⟨⟨place, operand, .itself place⟩, .start found⟩
    · cases same
      exact ⟨made, foundMade, fits⟩
  case h_2 noCount =>
    exact ⟨.refl store, fun start condition update body same => absurd same (noCount start condition update body)⟩

theorem nested_eq (block : Store → List Slot → List NodeId → Store)
    (known : ∀ operand ∈ kind.operands, (∃ made, store.kind? operand = some made) ∧ ∀ slot, ¬Declares store operand slot) :
    nested first block store visible kind =
      (scopes (opened first store visible kind) visible kind).foldl (fun store scope => block store scope.1 scope.2)
        (opened first store visible kind) := by
  unfold nested opened scopes
  split
  case h_1 start condition update body =>
    obtain ⟨⟨initial, foundStart⟩, undeclared⟩ := known start (by simp [Kind.operands, LoopForm.operands])
    obtain ⟨made, foundMade, _, more, _⟩ := declare?_spec first visible foundStart undeclared
    simp only [List.foldl_cons, List.foldl_nil, declaredAt, foundMade, Option.elim_some]
    rw [← more]
  case h_2 => simp [List.foldl_append, List.foldl_map]
  case h_3 => simp [List.foldl_map]

end Opened

section Blocks

variable {first : Slot} {depth : Nat} {block : Store → List Slot → List NodeId → Store}
  (declares : ∀ (store : Store) (visible : List Slot) (body : List NodeId), store.Trees body → Undeclared store body →
    (body.flatMap store.preorder).length ≤ depth →
      Rewrites first (fun id => ∃ statement ∈ body, Within store statement id) store (block store visible body) ∧
        Scoped (block store visible body) first visible body)
include declares

theorem foldl_blocks (scopes : List (List Slot × List NodeId)) (store : Store) (trees : store.Trees (scopes.flatMap Prod.snd))
    (undeclared : Undeclared store (scopes.flatMap Prod.snd))
    (short : ((scopes.flatMap Prod.snd).flatMap store.preorder).length ≤ depth) :
    let after := scopes.foldl (fun store scope => block store scope.1 scope.2) store
    Rewrites first (fun id => ∃ statement ∈ scopes.flatMap Prod.snd, Within store statement id) store after ∧
      ∀ scope ∈ scopes, Scoped after first scope.1 scope.2 := by
  induction scopes generalizing store with
  | nil => exact ⟨.refl store, nofun⟩
  | cons scope rest continues =>
    obtain ⟨ownTrees, restTrees, apart⟩ := trees.append_inv
    obtain ⟨ownUndeclared, restUndeclared⟩ := undeclared.append_inv
    simp only [List.flatMap_cons, List.flatMap_append, List.length_append] at short
    obtain ⟨rewrites, valid⟩ := declares store scope.1 scope.2 ownTrees ownUndeclared (by omega)
    rw [List.foldl_cons]
    generalize block store scope.1 scope.2 = middle at rewrites valid ⊢
    obtain ⟨later, validRest⟩ := continues middle (rewrites.trees restTrees)
      (restUndeclared.rewritten rewrites ownTrees restTrees apart) (by rw [funext rewrites.preorder]; omega)
    refine ⟨?_, ?_⟩
    · refine (rewrites.mono ?_).trans (later.mono ?_)
      · exact fun id ⟨statement, member, within⟩ => ⟨statement, List.mem_append_left _ member, within⟩
      · exact fun id ⟨statement, member, within⟩ => ⟨statement, List.mem_append_right _ member, rewrites.within.mp within⟩
    · intro other member
      rcases List.mem_cons.mp member with rfl | member
      · refine valid.congr fun statement inside id reached => ?_
        refine later.kind?_of_apart (rewrites.trees restTrees) (rewrites.trees ownTrees) ?_ inside reached
        rw [funext rewrites.preorder]
        exact fun id inRest inOwn => apart id inOwn inRest
      · exact validRest other member

theorem nested_spec {store : Store} (visible : List Slot) {id : NodeId} {kind : Kind} (found : store.kind? id = some kind)
    (tree : store.Trees [id]) (undeclared : Undeclared store [id]) (short : (store.preorder id).length ≤ depth + 1) :
    let after := nested first block store visible kind
    Rewrites first (Within store id) store after ∧ after.kind? id = some kind ∧
      (∀ start condition update body, kind = .loop (.counted start condition update) body →
        ∃ initial, after.kind? start = some initial ∧ Fits first visible initial) ∧
      ∀ scope ∈ scopes after visible kind, Scoped after first scope.1 scope.2 := by
  obtain ⟨order, children, _⟩ := tree.children found
  obtain ⟨operands, bodies, apart⟩ := children.append_inv
  have undeclaredChildren : Undeclared store kind.children := fun node inside =>
    undeclared node (by rw [List.flatMap_singleton, order]; exact List.mem_cons_of_mem id inside)
  obtain ⟨undeclaredOperands, undeclaredBodies⟩ := undeclaredChildren.append_inv
  have shortBodies : (kind.bodies.flatten.flatMap store.preorder).length ≤ depth := by
    rw [order, Kind.children, List.flatMap_append, List.length_cons, List.length_append] at short
    omega
  have below {child place : NodeId} (member : child ∈ kind.children) (within : Within store child place) : place ≠ id :=
    (tree.mem_preorder_of_child found member ((children.of_mem member).mem_preorder_iff.mpr within.reaches)).2
  have known (operand : NodeId) (member : operand ∈ kind.operands) :
      (∃ made, store.kind? operand = some made) ∧ ∀ slot, ¬Declares store operand slot := by
    have inside := Store.Trees.mem_flatMap_of member (operands.of_mem member).mem_preorder_self
    exact ⟨operands.listed.kind? inside, undeclaredOperands operand inside⟩
  obtain ⟨opens, starts⟩ := opened_spec first visible found known
  rw [nested_eq block known]
  generalize opened first store visible kind = middle at opens starts ⊢
  have sameBodies : (scopes middle visible kind).flatMap Prod.snd = kind.bodies.flatten := by
    rw [List.flatMap_def, scopes_snd]
  -- The loop variable stands among the operands, apart from the blocks.
  have undeclaredMiddle := undeclaredBodies.rewritten (opens.mono fun _ => And.left) operands bodies apart
  obtain ⟨goes, valid⟩ := foldl_blocks declares (scopes middle visible kind) middle (sameBodies ▸ opens.trees bodies)
    (sameBodies ▸ undeclaredMiddle) (by rw [sameBodies, funext opens.preorder]; exact shortBodies)
  rw [sameBodies] at goes
  generalize (scopes middle visible kind).foldl (fun store scope => block store scope.1 scope.2) middle = after at goes valid ⊢
  have settled (operand : NodeId) (member : operand ∈ kind.operands) : after.kind? operand = middle.kind? operand := by
    refine goes.kind?_of_apart (opens.trees bodies) (opens.trees operands) ?_ member (.refl operand)
    rw [funext opens.preorder]
    exact fun node inBodies inOperands => apart node inOperands inBodies
  have whole : Rewrites first (fun place => place ≠ id ∧ Within store id place) store after := by
    refine (opens.mono ?_).trans (goes.mono ?_)
    · rintro place ⟨⟨operand, member, inOperand⟩, within⟩
      exact ⟨below (List.mem_append_left _ member) inOperand, within⟩
    · rintro place ⟨statement, member, within⟩
      have within := opens.within.mp within
      obtain ⟨list, among, inside⟩ := List.mem_flatten.mp member
      exact ⟨below (List.mem_append_right _ member) within, .nested found among inside within⟩
  refine ⟨whole.mono fun place here => here.2, (whole.kind? fun here => here.1 rfl).trans found, ?_, ?_⟩
  · rintro start condition update body rfl
    obtain ⟨initial, foundStart, fits⟩ := starts start condition update body rfl
    exact ⟨initial, (settled start (by simp [Kind.operands, LoopForm.operands])).trans foundStart, fits⟩
  · rw [scopes_congr settled]
    exact valid

theorem statement_spec {store : Store} (visible : List Slot) {id : NodeId} (tree : store.Trees [id])
    (undeclared : Undeclared store [id]) (short : (store.preorder id).length ≤ depth + 1) :
    let result := statement first block store visible id
    Rewrites first (Within store id) store result.1 ∧ result.2 = declaredAt result.1 id ++ visible ∧
      Scoped result.1 first visible [id] := by
  have here : id ∈ [id].flatMap store.preorder := by simpa using tree.mem_preorder_self
  obtain ⟨kind, found⟩ := tree.listed.kind? here
  unfold statement
  cases outcome : declare? first store visible id with
  | some result =>
    obtain ⟨slot, value, made, fits, more, rewrites⟩ := declare?_some outcome
    refine ⟨rewrites.mono ?_, ?_, .cons made fits nofun nofun .nil⟩
    · rintro place rfl
      exact .itself place
    · rw [declaredAt, made]
      exact more
  | none =>
    obtain ⟨fits, none⟩ := declare?_none found (undeclared id here) outcome
    obtain ⟨rewrites, kept, starts, valid⟩ := nested_spec declares visible found tree undeclared short
    rw [found]
    refine ⟨rewrites, ?_, .cons kept fits starts valid .nil⟩
    rw [declaredAt, Option.elim_some, kept, Option.elim_some, none, List.nil_append]

theorem foldl_statements (body : List NodeId) (store : Store) (visible : List Slot) (trees : store.Trees body)
    (undeclared : Undeclared store body) (short : (body.flatMap store.preorder).length ≤ depth + 1) :
    let after := (body.foldl (fun state id => statement first block state.1 state.2 id) (store, visible)).1
    Rewrites first (fun id => ∃ statement ∈ body, Within store statement id) store after ∧ Scoped after first visible body := by
  induction body generalizing store visible with
  | nil => exact ⟨.refl store, .nil⟩
  | cons id rest continues =>
    obtain ⟨ownTree, restTrees, apart⟩ : store.Trees [id] ∧ store.Trees rest ∧
        ∀ node ∈ [id].flatMap store.preorder, node ∉ rest.flatMap store.preorder := Store.Trees.append_inv trees
    obtain ⟨ownUndeclared, restUndeclared⟩ : Undeclared store [id] ∧ Undeclared store rest := undeclared.append_inv
    rw [List.flatMap_cons, List.length_append] at short
    obtain ⟨rewrites, more, valid⟩ := statement_spec declares visible ownTree ownUndeclared (by omega)
    rw [List.foldl_cons]
    generalize statement first block store visible id = result at rewrites more valid ⊢
    obtain ⟨middle, visibleNext⟩ := result
    have rewrites : Rewrites first (fun place => ∃ statement ∈ [id], Within store statement place) store middle :=
      rewrites.mono fun place within => ⟨id, List.mem_singleton_self id, within⟩
    obtain ⟨later, validRest⟩ := continues middle visibleNext (rewrites.trees restTrees)
      (restUndeclared.rewritten rewrites ownTree restTrees apart) (by rw [funext rewrites.preorder]; omega)
    generalize (rest.foldl (fun state id => statement first block state.1 state.2 id) (middle, visibleNext)).1 = after
      at later validRest ⊢
    have kept {statement node : NodeId} (member : statement ∈ [id]) (reached : middle.Reaches statement node) :
        after.kind? node = middle.kind? node := by
      refine later.kind?_of_apart (rewrites.trees restTrees) (rewrites.trees ownTree) ?_ member reached
      rw [funext rewrites.preorder]
      exact fun node inRest inOwn => apart node inOwn inRest
    refine ⟨?_, (valid.congr fun statement member node => kept member).append ?_⟩
    · refine (rewrites.mono ?_).trans (later.mono ?_)
      · exact fun place ⟨statement, member, within⟩ => ⟨statement, List.mem_append_left rest member, within⟩
      · exact fun place ⟨statement, member, within⟩ => ⟨statement, .tail id member, rewrites.within.mp within⟩
    · rw [declaredAt, kept (List.mem_singleton_self id) (.refl id), ← declaredAt, ← more]
      exact validRest

end Blocks

theorem blockWithin_spec (first : Slot) (depth : Nat) (store : Store) (visible : List Slot) (body : List NodeId)
    (trees : store.Trees body) (undeclared : Undeclared store body) (short : (body.flatMap store.preorder).length ≤ depth) :
    Rewrites first (fun id => ∃ statement ∈ body, Within store statement id) store (blockWithin first depth store visible body) ∧
      Scoped (blockWithin first depth store visible body) first visible body := by
  induction depth generalizing store visible body with
  | zero =>
    cases body with
    | nil => exact ⟨.refl store, .nil⟩
    | cons id rest =>
      have member : id ∈ id :: rest := List.mem_cons_self
      have nonempty := List.length_pos_of_mem (Store.Trees.mem_flatMap_of member (trees.of_mem member).mem_preorder_self)
      omega
  | succ depth deeper => exact foldl_statements deeper body store visible trees undeclared short

/-- Declaring the local variables of a body turns writes into declarations, each where no declaration of the variable can be
seen. Every other write to a local variable sees one. -/
theorem declareLocals_scoped {store : Store} {body : List NodeId} (first : Slot) (trees : store.Trees body)
    (undeclared : ∀ id ∈ body.flatMap store.preorder, ∀ slot value, store.kind? id ≠ some (.declare slot value)) :
    let after := declareLocals store body first
    (∀ id, after.node? id ≠ store.node? id → (∃ statement ∈ body, Within store statement id) ∧
      ∃ type slot value, first ≤ slot ∧ store.kind? id = some (.write (.slot type slot) value) ∧
        after.node? id = (store.node? id).map fun node => { node with kind := .declare slot (some value) }) ∧
    (∀ statement ∈ body, ∀ id, Within store statement id → ∀ type slot value, first ≤ slot →
      store.kind? id = some (.write (.slot type slot) value) → after.kind? id = store.kind? id → Sees after body id slot) ∧
    ∀ id slot value, after.kind? id = some (.declare slot value) → ¬Sees after body id slot := by
  obtain ⟨rewrites, valid⟩ := blockWithin_spec first store.size store [] body trees
    (fun id inside slot ⟨value, found⟩ => undeclared id inside slot value found) (trees.listed.length_le_size trees.distinct)
  refine ⟨fun id changed => (rewrites id).resolve_left changed, ?_, ?_⟩
  · intro statement member id within type slot value bound found kept
    obtain ⟨kind, more, foundAfter, fits, seen⟩ := valid.sees_within .whole nofun member (rewrites.within.mpr within)
    have same := Option.some_inj.mp (foundAfter.symm.trans (kept.trans found))
    exact seen slot (fits.written type slot value same bound)
  · exact fun id slot value found => valid.not_sees ⟨value, found⟩

/-- `x = 1; for (i = 0; i < 0; i++) { x = 2 } try {} catch (e) { e = 3 } y = 4`, where `e` and `y` share a slot. -/
def reused : Store :=
  ⟨#[⟨0, none, .literal (.int 1)⟩, ⟨1, none, .write (.slot .int 3) 0⟩, ⟨2, none, .literal (.int 0)⟩,
    ⟨3, none, .write (.slot .int 4) 2⟩, ⟨4, none, .read (.slot .int 4)⟩, ⟨5, none, .branch (.zero .lt 4) 0⟩,
    ⟨6, none, .bump 4 1⟩, ⟨7, none, .literal (.int 2)⟩, ⟨8, none, .write (.slot .int 3) 7⟩,
    ⟨9, none, .loop (.counted 3 5 6) [8]⟩, ⟨10, none, .literal (.int 3)⟩, ⟨11, none, .write (.slot .int 5) 10⟩,
    ⟨12, none, .tryCatch [] [⟨7, 5, [11]⟩] []⟩, ⟨13, none, .literal (.int 4)⟩, ⟨14, none, .write (.slot .int 5) 13⟩]⟩

theorem reused_trees : reused.Trees [1, 9, 12, 14] :=
  Store.Lists.trees (.cons rfl (.cons rfl .nil .nil) (.cons rfl (.cons rfl (.cons rfl .nil .nil) (.cons rfl
    (.cons rfl .nil .nil) (.cons rfl .nil (.cons rfl (.cons rfl .nil .nil) .nil)))) (.cons rfl (.cons rfl (.cons rfl .nil .nil)
    .nil) (.cons rfl (.cons rfl .nil .nil) .nil)))) (by decide)

/-- The write in the loop sees the declaration before it and the one in the handler sees the exception, but the last write
does not see the exception any more. -/
theorem reused_scoped :
    reused.Trees [1, 9, 12, 14] ∧ Sees (declareLocals reused [1, 9, 12, 14] 1) [1, 9, 12, 14] 8 3 ∧
      Sees (declareLocals reused [1, 9, 12, 14] 1) [1, 9, 12, 14] 11 5 ∧
      (declareLocals reused [1, 9, 12, 14] 1).kind? 14 = some (.declare 5 (some 13)) ∧
      ¬Sees (declareLocals reused [1, 9, 12, 14] 1) [1, 9, 12, 14] 14 5 := by
  have undeclared : ∀ id ∈ [1, 9, 12, 14].flatMap reused.preorder, declaredAt reused id = [] := by decide
  obtain ⟨_, remaining, declared⟩ := declareLocals_scoped 1 reused_trees fun id inside slot value found =>
    List.ne_nil_of_mem (mem_declaredAt.mpr ⟨value, found⟩) (undeclared id inside)
  refine ⟨reused_trees, ?_, ?_, rfl, declared 14 5 (some 13) rfl⟩
  · exact remaining 9 (by decide) 8 (.nested rfl (List.mem_singleton_self _) (List.mem_singleton_self _) (.itself 8)) .int 3 7
      (by decide) rfl rfl
  · exact remaining 12 (by decide) 11 (.nested rfl (show [11] ∈ _ by decide) (List.mem_singleton_self _) (.itself 11)) .int 5 10
      (by decide) rfl rfl

end Declaration

end ClassLift
