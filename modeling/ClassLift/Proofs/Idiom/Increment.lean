import ClassLift.Idiom.CompoundAssignment
import ClassLift.Idiom.Increment
import ClassLift.Proofs.Idiom.Held
import ClassLift.Proofs.Idiom.InPlace

namespace ClassLift

namespace Increment

variable {store : Store} {early late : List NodeId} {current put value target stored : NodeId} {increment : Kind}

def Steps (store : Store) (id lhs : NodeId) : Prop :=
  ∃ op rhs literal, store.kind? id = some (.binary op lhs rhs) ∧ store.kind? rhs = some (.literal literal)

theorem stepOf?_eq_some {id lhs : NodeId} {delta : Int32} (found : stepOf? store id = some (lhs, delta)) : Steps store id lhs := by
  unfold stepOf? at found
  dsimp only at found
  split at found
  case h_1 _ rhs located | h_2 _ rhs located =>
    obtain ⟨one, same⟩ := Option.ite_none_right_eq_some.mp found
    cases same
    split at one
    · exact ⟨_, rhs, _, located, ‹_›⟩
    · cases one
  case h_3 => cases found

structure Pair (store : Store) (current put value target : NodeId) (increment : Kind) : Prop where
  held : store.kind? current = some (.dupStore value)
  write : ∃ place stored, store.kind? put = some (.write place stored)
  made : ∃ position delta, increment = .increment position target delta
  /-- The value is the place and a step of it is written, or the value is such a step and is written. -/
  stepped : ∀ place stored, store.kind? put = some (.write place stored) →
    value = target ∧ (∃ load, Steps store stored load ∧ store.kind? load = some (.dupLoad current)) ∨
      Steps store value target ∧ store.kind? stored = some (.dupLoad current)

theorem held?_eq_some (held : store.kind? current = some (.dupStore value))
    (folded : held? store current value put = some (increment, target)) : Pair store current put value target increment := by
  unfold held? at folded
  split at folded
  case h_2 => cases folded
  case h_1 place stored write =>
    split at folded
    case h_1 read delta post =>
      cases folded
      obtain ⟨⟨load, _⟩, stepped, same⟩ := Option.bind_eq_some_iff.mp post
      obtain ⟨tested, same⟩ := Option.ite_none_right_eq_some.mp same
      cases same
      refine ⟨held, ⟨_, _, write⟩, ⟨_, _, rfl⟩, fun other again rewritten => .inl ⟨rfl, load, ?_⟩⟩
      cases write.symm.trans rewritten
      exact ⟨stepOf?_eq_some stepped, Store.isDupLoadOf_iff.mp (Bool.and_eq_true_iff.mp tested).1⟩
    case h_2 =>
      obtain ⟨⟨read, delta⟩, pre, same⟩ := Option.map_eq_some_iff.mp folded
      cases same
      obtain ⟨⟨lhs, _⟩, stepped, same⟩ := Option.bind_eq_some_iff.mp pre
      obtain ⟨tested, same⟩ := Option.ite_none_right_eq_some.mp same
      cases same
      refine ⟨held, ⟨_, _, write⟩, ⟨_, _, rfl⟩, fun other again rewritten => .inr ⟨stepOf?_eq_some stepped, ?_⟩⟩
      cases write.symm.trans rewritten
      exact Store.isDupLoadOf_iff.mp (Bool.and_eq_true_iff.mp tested).1

namespace Pair

theorem children (pair : Pair store current put value target increment) : increment.children = [target] := by
  obtain ⟨position, delta, rfl⟩ := pair.made
  rfl

theorem plain (pair : Pair store current put value target increment) : increment.Plain := by
  obtain ⟨position, delta, rfl⟩ := pair.made
  rintro _ ⟨⟩

theorem prunes (pair : Pair store current put value target increment) : store.Prunes [current] [target] := by
  have whole : store.Prunes [current] [value] := .open_root pair.held (.keep .nil)
  obtain ⟨place, stored, write⟩ := pair.write
  rcases pair.stepped place stored write with ⟨rfl, _⟩ | ⟨⟨op, rhs, literal, found, _⟩, _⟩
  · exact whole
  · exact whole.trans (.open_root found (.keep (.drop .nil)))

variable {fewer : List NodeId} {spot : NodeId} {old : Kind}

theorem transplant (pair : Pair store current put value target increment) (found : store.kind? spot = some old)
    (sub : fewer.Sublist (early ++ current :: put :: late)) :
    Draft.Transplant store store (early ++ current :: put :: late) fewer spot old increment [] [current] [target] (· = spot)
      Kind.Plain where
  found := found
  fewer_sublist := sub
  own_sublist := List.nil_sublist _
  donors_sublist := by simp
  prunes := pair.prunes
  adds := .none
  children child below := .inl (pair.children ▸ below)
  placed _ same := .inl same

theorem regrowth (pair : Pair store current put value target increment) (found : store.kind? spot = some old)
    (sub : fewer.Sublist (early ++ current :: put :: late)) (dropped : current ∉ fewer)
    (forest : (⟨store, early ++ current :: put :: late⟩ : Draft).Forest) :
    Draft.Regrowth ⟨store, early ++ current :: put :: late⟩ ⟨store.replace spot increment, fewer⟩ spot [target] := by
  have transplant := pair.transplant found sub
  refine transplant.regrowth forest (by simpa using dropped) ?_ fun trees apart => ⟨_, [], ?_, .refl _, .nil, by simp⟩
  · rintro made source (rfl | plain) same
    · exact absurd same (pair.plain source)
    · exact absurd same (plain source)
  · rw [pair.children]
    exact transplant.lists trees apart

theorem inside_current (pair : Pair store current put value target increment)
    (forest : (⟨store, early ++ current :: put :: late⟩ : Draft).Forest) {id : NodeId} (inside : id ∈ store.preorder target) :
    id ∈ store.preorder current := by
  have tree : store.Trees [current] := forest.of_mem (by simp)
  have subset := (pair.prunes.trees tree).2
  simpa using subset (by simpa using inside)

theorem keeps_put (pair : Pair store current put value target increment)
    (unused : store.dupLoads current (early ++ current :: late) = []) :
    Draft.Stems ⟨store, early ++ current :: put :: late⟩ ⟨store.replace put increment, early ++ put :: late⟩ ∧
      Draft.Keeps ⟨store, early ++ current :: put :: late⟩ ⟨store.replace put increment, early ++ put :: late⟩ := by
  obtain ⟨place, stored, write⟩ := pair.write
  have sub : (early ++ put :: late).Sublist (early ++ ([current] ++ put :: late)) := by simp
  have transplant := pair.transplant write sub
  have regrows (forest : (⟨store, early ++ ([current] ++ put :: late)⟩ : Draft).Forest) :=
    pair.regrowth write sub (Draft.Forest.neighbours forest).2.2.1 forest
  refine ⟨transplant.rebuild.stems, fun forest => (regrows forest).forest forest, fun forest ordered => ?_,
    fun forest ordered tied statement member source loads => ?_⟩
  · refine (regrows forest).ordered_of_cut [current] forest ordered fun statement member here => ?_
    have putTree : store.Trees [put] := forest.of_mem (by simp)
    have same : statement = put := forest.root_unique (sub.subset member) (by simp) here putTree.mem_preorder_self
    exact same ▸ List.mem_cons_self
  · have unheld (value : NodeId) : store.kind? put ≠ some (.dupStore value) := by simp [write]
    refine ((regrows forest).held_or_cut [current] forest tied unheld member loads).resolve_right ?_
    rintro ⟨among, _⟩
    obtain rfl := List.mem_singleton.mp among
    have uncounted {statement id : NodeId} (listed : statement ∈ early ++ source :: late)
        (inside : id ∈ store.preorder statement) : store.kind? id ≠ some (.dupLoad source) := by
      intro found
      have counted := Store.mem_dupLoads.mpr ⟨listed, inside, found⟩
      rw [unused] at counted
      cases counted
    rcases (regrows forest).loads forest member loads with
      ⟨id, inside, found, _, outside⟩ | ⟨here, ⟨seed, chosen, id, inside, found⟩ | ⟨id, changed, found⟩⟩
    · by_cases atPut : statement = put
      · subst atPut
        have tree : store.Trees [statement] := forest.of_mem (by simp)
        exact outside tree.mem_preorder_self inside
      · exact uncounted (by simp [atPut] at member ⊢; tauto) inside found
    · obtain rfl := List.mem_singleton.mp chosen
      exact uncounted (by simp) (pair.inside_current forest inside) found
    · exact transplant.not_dupLoad pair.plain changed found

theorem keeps_use (pair : Pair store current put value target increment) {user use : NodeId}
    (used : store.dupLoads current (early ++ current :: late) = [(user, use)]) :
    Draft.Stems ⟨store, early ++ current :: put :: late⟩ ⟨store.replace use increment, early ++ late⟩ ∧
      Draft.Keeps ⟨store, early ++ current :: put :: late⟩ ⟨store.replace use increment, early ++ late⟩ := by
  obtain ⟨place, stored, write⟩ := pair.write
  obtain ⟨listed, inUser, foundUse⟩ := Store.mem_dupLoads.mp (used ▸ List.mem_singleton_self (user, use))
  have sub : (early ++ late).Sublist (early ++ ([current, put] ++ late)) := by simp
  have transplant := pair.transplant foundUse sub
  have regrows (forest : (⟨store, early ++ ([current, put] ++ late)⟩ : Draft).Forest) :=
    pair.regrowth foundUse sub (Draft.Forest.neighbours forest).1 forest
  have behind (forest : (⟨store, early ++ ([current, put] ++ late)⟩ : Draft).Forest)
      (ordered : (⟨store, early ++ ([current, put] ++ late)⟩ : Draft).Ordered) (statement : NodeId)
      (member : statement ∈ early ++ late) (here : use ∈ store.preorder statement) : statement ∈ late := by
    rcases List.mem_cons.mp (ordered.mem_behind rfl (sub.subset member) ⟨use, here, foundUse⟩) with rfl | behind
    · exact absurd member (Draft.Forest.neighbours forest).2.1
    · exact behind
  refine ⟨transplant.rebuild.stems, fun forest => (regrows forest).forest forest, fun forest ordered => ?_,
    fun forest ordered tied statement member source loads => ?_⟩
  · exact (regrows forest).ordered_of_cut [current, put] forest ordered (behind forest ordered)
  · have unheld (value : NodeId) : store.kind? use ≠ some (.dupStore value) := by simp [foundUse]
    refine ((regrows forest).held_or_cut [current, put] forest tied unheld member loads).resolve_right ?_
    rintro ⟨among, held, foundHeld⟩
    obtain rfl : source = current := by
      rcases List.mem_cons.mp among with same | among
      · exact same
      · cases (List.mem_singleton.mp among ▸ write).symm.trans foundHeld
    rcases (regrows forest).loads forest member loads with
      ⟨id, inside, found, apart, _⟩ | ⟨here, ⟨seed, chosen, id, inside, found⟩ | ⟨id, changed, found⟩⟩
    · have counted : (statement, id) ∈ store.dupLoads source (early ++ source :: late) :=
        Store.mem_dupLoads.mpr ⟨by simp at member ⊢; tauto, inside, found⟩
      rw [used] at counted
      exact apart (congrArg Prod.snd (List.mem_singleton.mp counted))
    · obtain rfl := List.mem_singleton.mp chosen
      exact ordered source (by simp) source (.inl rfl) ⟨id, pair.inside_current forest inside, found⟩
    · exact transplant.not_dupLoad pair.plain changed found

end Pair

theorem foldHeld_sound (spot : Spot) (held : store.kind? spot.current = some (.dupStore value)) :
    Draft.Sound ⟨store, spot.keep.statements⟩
      ⟨(foldHeld store spot value).1, (foldHeld store spot value).2.statements⟩ := by
  obtain ⟨before, current, after⟩ := spot
  unfold foldHeld
  cases after with
  | nil => exact .refl _
  | cons put rest =>
    cases folded : held? store current value put with
    | none => simpa only [folded] using Draft.Sound.refl _
    | some made =>
      obtain ⟨increment, target⟩ := made
      have pair := held?_eq_some held folded
      have below : target ∈ increment.children := by simp [pair.children]
      simp only [folded]
      split
      case h_1 unused =>
        obtain ⟨stems, keeps⟩ := pair.keeps_put unused
        obtain ⟨place, stored, write⟩ := pair.write
        have changed : (store.replace put increment).kind? put = some increment :=
          Store.kind?_replace_self (Store.lt_size_of_kind? write)
        exact Draft.sound_inlineHeldBelow stems keeps fun _ _ => ⟨put, by simp [Cursor.statements],
          .tail (.refl put) changed below⟩
      case h_2 user use used =>
        obtain ⟨stems, keeps⟩ := pair.keeps_use used
        obtain ⟨listed, inUser, found⟩ := Store.mem_dupLoads.mp (used ▸ List.mem_singleton_self (user, use))
        have changed : (store.replace use increment).kind? use = some increment :=
          Store.kind?_replace_self (Store.lt_size_of_kind? found)
        refine Draft.sound_inlineHeldBelow stems keeps fun _ ordered => ⟨user, ?_, ?_⟩
        · have apart : user ≠ current := by
            rintro rfl
            exact ordered user (by simp [Spot.keep, Cursor.statements]) user (.inl rfl) ⟨use, inUser, found⟩
          simpa [apart, Cursor.statements] using listed
        · exact (Draft.reaches_replace_leaf found (Store.reaches_of_mem_preorder inUser)).tail changed below
      case h_3 => exact .refl _

section Bump

variable {load next : NodeId} {slot index : Slot} {type : ValueType} {delta : Int32} {position : IncrementPosition}

theorem transplant_bump (found : store.kind? load = some (.read (.slot type index))) : Draft.Transplant store
    (store.allocate load (.read (.slot type index))).2 (early ++ ([current] ++ next :: late)) (early ++ next :: late) load
    (.read (.slot type index)) (.increment position store.size delta) [] [] [] (· = load) Kind.Plain where
  found := found
  fewer_sublist := by simp
  own_sublist := List.nil_sublist _
  donors_sublist := List.nil_sublist _
  prunes := .nil
  adds := .allocate .none (Store.lt_size_of_kind? found) rfl (by rintro _ ⟨⟩) (by rintro _ ⟨⟩)
  children := by
    rintro child below
    obtain rfl := List.mem_singleton.mp below
    exact .inr ⟨Nat.le_refl _, Store.size_lt_allocate (Store.lt_size_of_kind? found)⟩
  placed := fun _ same => .inl same

theorem regrowth_bump (position : IncrementPosition) (delta : Int32) (found : store.kind? load = some (.read (.slot type index)))
    (forest : (⟨store, early ++ ([current] ++ next :: late)⟩ : Draft).Forest) : Draft.Regrowth
    ⟨store, early ++ ([current] ++ next :: late)⟩
    ⟨(store.allocate load (.read (.slot type index))).2.replace load (.increment position store.size delta),
      early ++ next :: late⟩ load [] := by
  have inside := Store.lt_size_of_kind? found
  have leaf : ((store.allocate load (.read (.slot type index))).2.replace load (.increment position store.size delta)).Lists
      (Kind.read (.slot type index)).children [] := .nil
  refine (transplant_bump found).regrowth forest (by simp) ?_ fun _ _ => ⟨_, [store.size],
    .cons (Store.kind?_replace_allocate inside inside) leaf .nil, by simp, by simp, by simp⟩
  rintro made source (rfl | plain) same
  · cases same
  · exact absurd same (plain source)

theorem foldBump_keeps (bump : store.kind? current = some (.bump slot delta)) (inNext : load ∈ store.preorder next)
    (found : store.kind? load = some (.read (.slot type index))) :
    Draft.Stems ⟨store, early ++ current :: next :: late⟩
        ⟨(store.allocate load (.read (.slot type index))).2.replace load (.increment position store.size delta),
          early ++ next :: late⟩ ∧
      Draft.Keeps ⟨store, early ++ current :: next :: late⟩
        ⟨(store.allocate load (.read (.slot type index))).2.replace load (.increment position store.size delta),
          early ++ next :: late⟩ := by
  have sub : (early ++ next :: late).Sublist (early ++ ([current] ++ next :: late)) := by simp
  have regrows (forest : (⟨store, early ++ ([current] ++ next :: late)⟩ : Draft).Forest) :=
    regrowth_bump position delta found forest
  refine ⟨(transplant_bump found).rebuild.stems, fun forest => (regrows forest).forest forest, fun forest ordered => ?_,
    fun forest ordered tied statement member source loads => ?_⟩
  · refine (regrows forest).ordered_of_cut [current] forest ordered fun statement member here => ?_
    have same : statement = next := forest.root_unique (sub.subset member) (by simp) here inNext
    exact same ▸ List.mem_cons_self
  · have unheld (value : NodeId) : store.kind? load ≠ some (.dupStore value) := by simp [found]
    refine ((regrows forest).held_or_cut [current] forest tied unheld member loads).resolve_right ?_
    rintro ⟨among, held, foundHeld⟩
    cases (List.mem_singleton.mp among ▸ bump).symm.trans foundHeld

theorem foldBump_cases (targets : List Offset) (store : Store) (spot : Spot) (bump : Node) (slot : Slot) (delta : Int32) :
    foldBump targets store spot bump slot delta = (store, spot.keep) ∨
      ∃ next rest load type index position, spot.after = next :: rest ∧ load ∈ store.preorder next ∧
        store.kind? load = some (.read (.slot type index)) ∧ foldBump targets store spot bump slot delta =
          ((store.allocate load (.read (.slot type index))).2.replace load (.increment position store.size delta),
            ⟨spot.before, next :: rest⟩) := by
  obtain ⟨before, current, after⟩ := spot
  unfold foldBump
  cases after with
  | nil => exact .inl rfl
  | cons next rest =>
    dsimp only
    split
    case isTrue => exact .inl rfl
    case isFalse =>
      split
      case h_1 => exact .inl rfl
      case h_2 load first =>
        obtain ⟨inNext, node, located, isRead⟩ := Store.find?_eq_some first
        simp only [located]
        split
        case h_1 => exact .inl rfl
        case h_2 position _ =>
          obtain ⟨type, index, same⟩ : ∃ type index, node.kind = .read (.slot type index) := by
            unfold Kind.isSlot at isRead
            split at isRead
            · exact ⟨_, _, ‹_›⟩
            · cases isRead
          refine .inr ⟨next, rest, load, type, index, position, rfl, inNext, same ▸ Store.kind?_of_node? located, ?_⟩
          rw [Store.allocate_fst, same]

end Bump

theorem foldBump_sound (targets : List Offset) (spot : Spot) {bump : Node} {slot : Slot} {delta : Int32}
    (found : store.kind? spot.current = some (.bump slot delta)) :
    Draft.Sound ⟨store, spot.keep.statements⟩ ⟨(foldBump targets store spot bump slot delta).1,
      (foldBump targets store spot bump slot delta).2.statements⟩ := by
  obtain ⟨before, current, after⟩ := spot
  rcases foldBump_cases targets store ⟨before, current, after⟩ bump slot delta with
    same | ⟨next, rest, load, type, index, position, rfl, inNext, isRead, same⟩
  · rw [same]
    exact .refl _
  · rw [same]
    obtain ⟨stems, keeps⟩ := foldBump_keeps found inNext isRead
    exact .of_keeps stems keeps

theorem step_sound (targets : List Offset) (store : Store) (spot : Spot) :
    Draft.Sound ⟨store, spot.keep.statements⟩
      ⟨(step targets store spot).1, (step targets store spot).2.statements⟩ := by
  unfold step
  split
  case h_2 => exact .refl _
  case h_1 node located =>
    have found := Store.kind?_of_node? located
    split
    case h_1 value same => exact foldHeld_sound spot (same ▸ found)
    case h_2 slot delta same =>
      split
      · exact foldBump_sound targets spot (same ▸ found)
      · exact .refl _
    case h_3 => exact .refl _

end Increment

theorem CompoundAssignment.fold_prunes {store : Store} {place : Place} {value lhs rhs : NodeId} {op : BinaryOp}
    (binary : store.kind? value = some (.binary op lhs rhs)) :
    store.Prunes (Kind.write place value).children (Kind.assign (.compound op) lhs rhs).children := by
  have ofValue : store.Prunes [value] [lhs, rhs] := .open_root binary (.keep (.keep .nil))
  simpa [Kind.children, Kind.operands, Kind.bodies] using
    Store.Prunes.append (.of_sublist (List.nil_sublist place.operands)) ofValue

theorem CompoundAssignment.step_sound (store : Store) (spot : Spot) :
    Draft.Sound ⟨store, spot.keep.statements⟩ ⟨(step store spot).1, (step store spot).2.statements⟩ := by
  unfold step
  split
  case h_2 => exact .refl _
  case h_1 place value write =>
    split
    case h_2 => exact .refl _
    case h_1 op lhs rhs folded =>
      split
      case isFalse => exact .refl _
      case isTrue =>
        obtain ⟨stems, keeps⟩ :=
          Draft.within_seeds write (fold_prunes (operands?_eq_some folded)) (by rintro _ ⟨⟩) (by rintro _ ⟨⟩)
        refine Draft.sound_inlineHeldBelow stems keeps fun _ _ => ⟨spot.current, by simp [Spot.keep, Cursor.statements], ?_⟩
        have changed : (store.replace spot.current (.assign (.compound op) lhs rhs)).kind? spot.current =
            some (.assign (.compound op) lhs rhs) := Store.kind?_replace_self (Store.lt_size_of_kind? write)
        exact .tail (.refl _) changed (by simp [Kind.children, Kind.operands])

end ClassLift
