import ClassLift.Proofs.Body.Equality
import ClassLift.Proofs.Idiom.Fold

/-!
# Recovery keeps the form of a body

A body is a forest, and a value that is held for several uses is held by a statement before them. Folds keep the forest. They
keep held values in order and named as well, except for those that take a part along without a look for the value that it
repeats: `Draft.SelfArgument` and `Draft.Overlooked`.
-/

namespace ClassLift

/-- A tree leads back to itself only through the values that it repeats. -/
theorem Store.Lists.founded {store : Store} {roots order : List NodeId} (listed : store.Lists roots order)
    (sources : ∀ id ∈ order, ∀ source, store.kind? id = some (.dupLoad source) → store.Founded source) :
    (∀ root ∈ roots, store.Founded root) ∧ ∀ id ∈ order, store.Founded id := by
  induction listed with
  | nil => simp
  | @cons root rest below after kind found _ _ continuesBelow continuesAfter =>
    simp only [List.mem_cons, List.mem_append] at sources
    obtain ⟨children, inner⟩ := continuesBelow fun id inside => sources id (.inr (.inl inside))
    obtain ⟨others, behind⟩ := continuesAfter fun id inside => sources id (.inr (.inr inside))
    have founded : store.Founded root := by
      refine .intro root ?_
      rintro link ⟨named, again, member⟩
      cases Option.some.inj (found.symm.trans again)
      cases kind
      case dupLoad source =>
        obtain rfl := List.mem_singleton.mp member
        exact sources root (.inl rfl) link found
      all_goals exact children link (List.mem_append_left _ member)
    simp only [List.mem_cons, List.mem_append, or_imp, forall_and, forall_eq]
    exact ⟨⟨founded, others⟩, founded, inner, behind⟩

namespace Draft

variable {first last draft : Draft}

def Anchored (draft : Draft) : Prop :=
  ∀ statement ∈ draft.statements, ∀ source, draft.Loads statement source →
    [source, statement].Sublist draft.statements ∧ ∃ value, draft.store.kind? source = some (.dupStore value)

theorem Forest.anchored_iff (forest : draft.Forest) : draft.Anchored ↔ draft.Ordered ∧ draft.Tied := by
  have distinct : draft.statements.Nodup := Store.Trees.nodup forest
  have once (id : NodeId) : ¬ [id, id].Sublist draft.statements := fun twice => by simpa using distinct.sublist twice
  constructor
  · intro anchored
    refine ⟨fun statement member source notEarlier loads => ?_, fun statement member source loads => ?_⟩
    · have earlier := (anchored statement member source loads).1
      rcases notEarlier with rfl | later
      · exact once source earlier
      · exact once source (pair_sublist_trans distinct earlier later)
    · obtain ⟨earlier, held⟩ := anchored statement member source loads
      exact ⟨earlier.subset List.mem_cons_self, held⟩
  · rintro ⟨ordered, tied⟩ statement member source loads
    obtain ⟨listed, held⟩ := tied statement member source loads
    obtain ⟨before, after, split⟩ := List.append_of_mem listed
    exact ⟨split ▸ pair_sublist_of_mem_right (ordered.mem_behind split member loads), held⟩

/-- The statements are settled one after another: what a statement repeats is held by an earlier one. -/
theorem Forest.founded (forest : draft.Forest) (anchored : draft.Anchored) {statement id : NodeId}
    (member : statement ∈ draft.statements) (reached : draft.store.Reaches statement id) : draft.store.Founded id := by
  have settled (early late : List NodeId) (split : draft.statements = early ++ late) :
      ∀ statement ∈ early, ∀ id ∈ draft.store.preorder statement, draft.store.Founded id := by
    induction early using List.reverseRecOn generalizing late with
    | nil => simp
    | append_singleton early last continues =>
      rw [List.append_assoc] at split
      have before := continues (last :: late) split
      have listed : last ∈ draft.statements := by simp [split]
      have sources : ∀ id ∈ [last].flatMap draft.store.preorder, ∀ source,
          draft.store.kind? id = some (.dupLoad source) → draft.store.Founded source := by
        intro id inside source found
        have loads : draft.Loads last source := ⟨id, by simpa using inside, found⟩
        have earlier := mem_left_of_pair_sublist (split ▸ forest.nodup) (split ▸ (anchored last listed source loads).1)
        have tree := forest.of_mem (split ▸ List.mem_append_left _ earlier)
        exact before source earlier source tree.mem_preorder_self
      have here := ((forest.of_mem listed).listed.founded sources).2
      intro statement member
      rcases List.mem_append.mp member with among | same
      · exact before statement among
      · obtain rfl := List.mem_singleton.mp same
        simpa using here
  refine settled draft.statements [] (by simp) statement member id ?_
  exact (forest.of_mem member).mem_preorder_iff.mpr reached

/-! The form of a body can be checked, since the loads below a statement can be listed. -/

theorem forall_loads_iff {statement : NodeId} {holds : NodeId → Prop} :
    (∀ load ∈ draft.store.sourcesBelow statement, holds load.2) ↔ ∀ source, draft.Loads statement source → holds source := by
  constructor
  · rintro all source ⟨id, inside, found⟩
    exact all (id, source) (mem_sourcesBelow.mpr ⟨inside, found⟩)
  · rintro all ⟨id, source⟩ among
    obtain ⟨inside, found⟩ := mem_sourcesBelow.mp among
    exact all source ⟨id, inside, found⟩

instance {statement : NodeId} {holds : NodeId → Prop} [DecidablePred holds] :
    Decidable (∀ source, draft.Loads statement source → holds source) := decidable_of_iff _ forall_loads_iff

theorem exists_held_iff {source : NodeId} :
    (draft.store.kind? source).any (fun kind => kind.operands.any (kind = .dupStore ·)) ↔
      ∃ value, draft.store.kind? source = some (.dupStore value) := by
  cases draft.store.kind? source with
  | none => simp
  | some kind =>
    simp only [Option.any_some, List.any_eq_true, decide_eq_true_eq, Option.some_inj]
    exact ⟨fun ⟨value, _, same⟩ => ⟨value, same⟩, fun ⟨value, same⟩ => ⟨value, by simp [same, Kind.operands], same⟩⟩

instance {source : NodeId} : Decidable (∃ value, draft.store.kind? source = some (.dupStore value)) :=
  decidable_of_iff _ exists_held_iff

instance : Decidable draft.Tied := inferInstanceAs (Decidable (∀ statement ∈ draft.statements, ∀ _, _ → _))

instance : Decidable draft.Anchored := inferInstanceAs (Decidable (∀ statement ∈ draft.statements, ∀ _, _ → _))

theorem Ordered.iff_forall_loads : draft.Ordered ↔ ∀ statement ∈ draft.statements, ∀ source, draft.Loads statement source →
    ¬ (source = statement ∨ [statement, source].Sublist draft.statements) :=
  forall₃_congr fun _ _ _ => imp_not_comm

instance : Decidable draft.Ordered := decidable_of_iff' _ Ordered.iff_forall_loads

theorem Folds.kept_or_spoiled {good : Draft → Prop} (folds : Folds first last) (start : good first) :
    good last ∨ ∃ draft next, Folds first draft ∧ Fold draft next ∧ Folds next last ∧ good draft ∧ ¬ good next := by
  induction folds with
  | refl => exact .inl start
  | @tail middle last folds fold continues =>
    rcases continues with kept | ⟨draft, next, before, spoiling, behind, holds, fails⟩
    · by_cases still : good last
      · exact .inl still
      · exact .inr ⟨middle, last, folds, fold, .refl last, kept, still⟩
    · exact .inr ⟨draft, next, before, spoiling, behind.trans (.single fold), holds, fails⟩

theorem Folds.forest (folds : Folds first last) (forest : first.Forest) : last.Forest := by
  induction folds with
  | refl => exact forest
  | tail _ fold continues => exact fold.sound.forest continues

/-- A fold that puts a load out of order takes an argument of a constructor along that repeats the new object. -/
theorem Fold.selfArgument {next : Draft} (fold : Fold draft next) (forest : draft.Forest) (ordered : draft.Ordered)
    (spoiled : ¬ next.Ordered) :
    ∃ source ∈ next.statements, draft.SelfArgument source ∧ next.Loads source source := by
  simp only [Ordered, not_forall, not_not] at spoiled
  obtain ⟨statement, member, source, notEarlier, loads⟩ := spoiled
  obtain ⟨rfl, own⟩ := fold.sound.ordered forest ordered statement member source notEarlier loads
  exact ⟨source, member, own, loads⟩

theorem SelfArgument.exists_call {source : NodeId} (own : draft.SelfArgument source) :
    ∃ next ∈ draft.statements, ∃ method object arguments,
      draft.store.kind? next = some (.call .special method object arguments) := by
  cases own with
  | intro statements _ _ call _ _ _ => exact ⟨_, by simp [statements], _, _, _, call⟩

theorem Fold.overlooked {next : Draft} (fold : Fold draft next) (forest : draft.Forest) (anchored : draft.Anchored)
    (spoiled : ¬ next.Anchored) : ∃ source, draft.Overlooked source := by
  obtain ⟨ordered, tied⟩ := forest.anchored_iff.mp anchored
  rw [(fold.sound.forest forest).anchored_iff, not_and_or] at spoiled
  rcases spoiled with disordered | untied
  · obtain ⟨source, _, own, _⟩ := fold.selfArgument forest ordered disordered
    exact ⟨source, .construction own⟩
  · simp only [Tied, not_forall] at untied
    obtain ⟨statement, member, source, loads, loose⟩ := untied
    exact ⟨source, (fold.sound.tied forest ordered tied statement member source loads).resolve_left loose⟩

end Draft

namespace Code

variable {code : Code}

/-- The body is a forest, and however far its idioms are recovered, values are repeated behind the statements that hold them. -/
def StaysAnchored (code : Code) : Prop := code.raw.Forest ∧ ∀ draft, Draft.Folds code.raw draft → draft.Anchored

/-- However far the idioms are recovered, a part of the body can be compared with anything. -/
def Compares (code : Code) : Prop :=
  ∀ draft, Draft.Folds code.raw draft → ∀ statement ∈ draft.statements, ∀ id, draft.store.Reaches statement id →
    ∀ other identify place, (draft.store.compare? other identify id place).isSome

theorem StaysAnchored.compares (stays : code.StaysAnchored) : code.Compares := by
  intro draft folds statement member id reached other identify place
  have founded := (folds.forest stays.1).founded (stays.2 draft folds) member reached
  exact founded.compare?_isSome

end Code

namespace ClassTable

variable {table after : ClassTable} {home : ClassId} {index : Nat} {method : Method} {code : Code}
  {warnings : List Warning}

/-- A body that is a forest becomes a forest: its statements differ, and one way leads to every node. If every value is
repeated behind the statement that holds it only, this stays so, unless a constructor call with the new object itself among its
arguments is folded on the way. -/
theorem recover_forest (ran : table.recover home = .ok (after, warnings)) (given : table.method? home index = some method)
    (unflagged : method.flagged = false) (body : method.code = some code) (forest : code.raw.Forest)
    (ordered : code.raw.Ordered) :
    ∃ result folded, after.method? home index = some result ∧ result.code = some folded ∧ folded.draft.Forest ∧
      folded.statements.Nodup ∧
      (∀ statement ∈ folded.statements, ∀ id, folded.store.Reaches statement id →
        ∃! way : Nat × List Nat, ∃ root, folded.statements[way.1]? = some root ∧ folded.store.Path root way.2 id) ∧
      (folded.draft.Ordered ∨ ∃ draft next source, Draft.Folds code.raw draft ∧ draft.Fold next ∧ next.Folds folded.draft ∧
        draft.Ordered ∧ draft.SelfArgument source ∧ source ∈ next.statements ∧ next.Loads source source) := by
  obtain ⟨result, found, folded, bodyAfter, folds⟩ := recover_method ran given unflagged body
  have forestAfter := folds.forest forest
  refine ⟨result, folded, found, bodyAfter, forestAfter, forestAfter.nodup, fun statement member id reached => ?_, ?_⟩
  · have inside := (forestAfter.of_mem member).mem_preorder_iff.mpr reached
    exact forestAfter.existsUnique_path (Store.Trees.mem_flatMap_of member inside)
  · rcases folds.kept_or_spoiled ordered with kept | ⟨draft, next, before, fold, behind, holds, spoiled⟩
    · exact .inl kept
    · obtain ⟨source, member, own, loads⟩ := fold.selfArgument (before.forest forest) holds spoiled
      exact .inr ⟨draft, next, source, before, fold, behind, holds, own, member, loads⟩

/-! Bodies of a static method of the class `a/Main`, which has a field `f` and a constructor with one parameter. -/

def linked (body : Code) : ClassTable where
  classes := #[{
    access := ⟨33⟩
    thisIndex := 2
    pool := ⟨#[none, some (.utf8 "a/Main"), some (.classInfo 1), some (.utf8 "m"), some (.utf8 "(La/Main;)La/Main;"),
      some (.utf8 "f"), some (.utf8 "La/Main;"), some (.nameAndType 5 6), some (.fieldRef 2 7), some (.utf8 "<init>"),
      some (.utf8 "(La/Main;)V"), some (.nameAndType 9 10), some (.methodRef 2 11), some (.utf8 "java/lang/StringBuilder"),
      some (.classInfo 13), some (.utf8 "(Ljava/lang/String;)V"), some (.nameAndType 9 15), some (.methodRef 14 16),
      some (.utf8 "toString"), some (.utf8 "()Ljava/lang/String;"), some (.nameAndType 18 19), some (.methodRef 14 20)]⟩
    methods := #[{ access := ⟨8⟩, nameIndex := 3, descriptorIndex := 4, code := some body }] }]

/-- An object that is an argument of its own constructor. -/
def selfBuilt : Code where
  store := ⟨#[⟨0, none, .allocate 2⟩, ⟨3, none, .dupStore 0⟩, ⟨4, none, .dupLoad 1⟩, ⟨5, none, .dupLoad 1⟩,
    ⟨6, none, .call .special 12 (some 2) [3]⟩, ⟨9, none, .dupLoad 1⟩, ⟨10, none, .write (.slot .reference 1) 5⟩,
    ⟨11, none, .dupLoad 1⟩, ⟨12, none, .ret (some 7)⟩]⟩
  maxLocals := 4
  instructions := [1, 4, 6, 8]

def selfBuiltFolded : Code :=
  { selfBuilt with store := selfBuilt.store.replace 0 (.construct 12 [3]), statements := [1, 6, 8] }

theorem recover_selfBuilt : (linked selfBuilt).recover 0 = .ok (linked selfBuiltFolded, []) := rfl

theorem selfBuilt_forest : selfBuilt.raw.Forest :=
  Store.Lists.trees (.cons rfl (.cons rfl .nil .nil) (.cons rfl (.cons rfl .nil (.cons rfl .nil .nil))
    (.cons rfl (.cons rfl .nil .nil) (.cons rfl (.cons rfl .nil .nil) .nil)))) (by decide)

theorem selfBuilt_selfArgument :
    ∃ draft next source, Draft.Folds selfBuilt.raw draft ∧ draft.Fold next ∧ next.Folds selfBuiltFolded.draft ∧
      draft.Ordered ∧ draft.SelfArgument source ∧ source ∈ next.statements ∧ next.Loads source source := by
  obtain ⟨result, folded, found, body, _, _, _, outcome⟩ :=
    recover_forest recover_selfBuilt (show (linked selfBuilt).method? 0 0 = some _ from rfl) rfl rfl selfBuilt_forest (by decide)
  cases found
  cases body
  exact outcome.resolve_left (by decide)

/-- A value is repeated under the number of a call, and the call becomes the statement that holds its only part. -/
def earlyUse : Code where
  store := ⟨#[⟨0, none, .dupLoad 5⟩, ⟨1, none, .write (.slot .reference 1) 0⟩, ⟨2, none, .read (.slot .reference 0)⟩,
    ⟨3, none, .dupStore 2⟩, ⟨4, none, .construct 17 [3]⟩, ⟨5, none, .call .virtual 21 (some 4) []⟩, ⟨8, none, .ret none⟩]⟩
  maxLocals := 4
  instructions := [1, 5, 6]

def earlyUseFolded : Code :=
  { earlyUse with store := earlyUse.store.replace 5 (.dupStore 2), statements := [1, 5, 6] }

/-- The first body repeats the new object behind its allocation only, and the second has no statement that holds a value. -/
theorem recover_disordered :
    ((linked selfBuilt).recover 0 = .ok (linked selfBuiltFolded, []) ∧ selfBuilt.raw.Forest ∧ selfBuilt.raw.Ordered ∧
      ¬ selfBuiltFolded.draft.Ordered) ∧
    ((linked earlyUse).recover 0 = .ok (linked earlyUseFolded, []) ∧ earlyUse.raw.Forest ∧
      (∀ statement ∈ earlyUse.instructions, ¬ ∃ value, earlyUse.raw.store.kind? statement = some (.dupStore value)) ∧
      [1, 5].Sublist earlyUseFolded.statements ∧ earlyUseFolded.draft.Loads 1 5 ∧
      earlyUseFolded.store.kind? 5 = some (.dupStore 2)) := by
  refine ⟨⟨recover_selfBuilt, selfBuilt_forest, by decide, by decide⟩, rfl, ?_, by decide, by decide, ?_, rfl⟩
  · exact Store.Lists.trees (.cons rfl (.cons rfl .nil .nil)
      (.cons rfl (.cons rfl (.cons rfl (.cons rfl .nil .nil) .nil) .nil) (.cons rfl .nil .nil))) (by decide)
  · exact ⟨0, by decide, rfl⟩

/-- Every repeated value is still held by a statement, unless a fold on the way overlooks a load of it. -/
theorem recover_tied (ran : table.recover home = .ok (after, warnings)) (given : table.method? home index = some method)
    (unflagged : method.flagged = false) (body : method.code = some code) (forest : code.raw.Forest)
    (anchored : code.raw.Anchored) :
    ∃ result folded, after.method? home index = some result ∧ result.code = some folded ∧
      (folded.draft.Tied ∨ ∃ draft next source, Draft.Folds code.raw draft ∧ draft.Fold next ∧ next.Folds folded.draft ∧
        draft.Anchored ∧ ¬ next.Anchored ∧ draft.Overlooked source) := by
  obtain ⟨result, found, folded, bodyAfter, folds⟩ := recover_method ran given unflagged body
  refine ⟨result, folded, found, bodyAfter, ?_⟩
  rcases folds.kept_or_spoiled anchored with kept | ⟨draft, next, before, fold, behind, holds, spoiled⟩
  · exact .inl ((folds.forest forest).anchored_iff.mp kept).2
  · obtain ⟨source, overlooked⟩ := fold.overlooked (before.forest forest) holds spoiled
    exact .inr ⟨draft, next, source, before, fold, behind, holds, spoiled, overlooked⟩

/-- An object that is stored in a field of itself. -/
def selfStored : Code where
  store := ⟨#[⟨0, none, .read (.slot .reference 0)⟩, ⟨1, none, .dupStore 0⟩, ⟨2, none, .dupLoad 1⟩, ⟨3, none, .dupLoad 1⟩,
    ⟨4, none, .write (.field 8 2) 3⟩, ⟨7, none, .dupLoad 1⟩, ⟨8, none, .ret (some 5)⟩]⟩
  maxLocals := 4
  instructions := [1, 4, 6]

def selfStoredFolded : Code :=
  { selfStored with
    store := ((selfStored.store.allocate 4 (.read (.field 8 2))).2).replace 5 (.assign .plain 7 0), statements := [6] }

theorem recover_selfStored : (linked selfStored).recover 0 = .ok (linked selfStoredFolded, []) := rfl

theorem selfStored_forest : selfStored.raw.Forest :=
  Store.Lists.trees (.cons rfl (.cons rfl .nil .nil) (.cons rfl (.cons rfl .nil (.cons rfl .nil .nil))
    (.cons rfl (.cons rfl .nil .nil) .nil))) (by decide)

theorem selfStored_overlooked :
    ∃ draft next source, Draft.Folds selfStored.raw draft ∧ draft.Fold next ∧ next.Folds selfStoredFolded.draft ∧
      draft.Anchored ∧ ¬ next.Anchored ∧ draft.Overlooked source := by
  obtain ⟨result, folded, found, body, outcome⟩ :=
    recover_tied recover_selfStored (show (linked selfStored).method? 0 0 = some _ from rfl) rfl rfl selfStored_forest (by decide)
  cases found
  cases body
  exact outcome.resolve_left (by decide)

/-- A statement that is also the second value of a conditional. -/
def sharedHolder : Code where
  store := ⟨#[⟨0, none, .read (.slot .reference 0)⟩, ⟨10, none, .dupStore 0⟩, ⟨2, none, .dupLoad 1⟩,
    ⟨3, none, .write (.slot .reference 1) 2⟩, ⟨4, none, .read (.slot .reference 0)⟩, ⟨5, none, .branch (.null .eq 4) 10⟩,
    ⟨7, none, .literal (.int 1)⟩, ⟨8, none, .pendingConditional 6 10⟩, ⟨9, none, .goto 12⟩, ⟨12, none, .ret (some 1)⟩]⟩
  maxLocals := 4
  instructions := [1, 3, 5, 7, 8, 9]

def sharedHolderFolded : Code :=
  { sharedHolder with
    store := (((sharedHolder.store.allocate 1 (.dupStore 0)).2).negate 5).replace 1 (.conditional 5 6 10)
    statements := [1, 3, 9] }

/-- No constructor is called in these bodies. The first is a forest, the second refers to a statement from another one. -/
theorem recover_untied :
    ((linked selfStored).recover 0 = .ok (linked selfStoredFolded, []) ∧ selfStored.raw.Forest ∧ selfStored.raw.Anchored ∧
      (∀ source, ¬ selfStored.raw.SelfArgument source) ∧ ¬ selfStoredFolded.draft.Tied) ∧
    ((linked sharedHolder).recover 0 = .ok (linked sharedHolderFolded, []) ∧ sharedHolder.raw.Anchored ∧
      (∀ source, ¬ sharedHolder.raw.SelfArgument source) ∧ ¬ sharedHolderFolded.draft.Tied) := by
  refine ⟨⟨recover_selfStored, selfStored_forest, by decide, fun source own => ?_, by decide⟩, rfl, by decide,
    fun source own => ?_, by decide⟩
  · obtain ⟨next, member, method, object, arguments, call⟩ := own.exists_call
    simp only [Code.raw, selfStored, List.mem_cons, List.not_mem_nil, or_false] at member
    rcases member with rfl | rfl | rfl <;> cases call
  · obtain ⟨next, member, method, object, arguments, call⟩ := own.exists_call
    simp only [Code.raw, sharedHolder, List.mem_cons, List.not_mem_nil, or_false] at member
    rcases member with rfl | rfl | rfl | rfl | rfl | rfl <;> cases call

end ClassTable

end ClassLift
