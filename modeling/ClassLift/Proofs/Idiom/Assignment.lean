import ClassLift.Idiom.ArrayLiteral
import ClassLift.Idiom.Assignment
import ClassLift.Proofs.Idiom.InPlace
import ClassLift.Proofs.Idiom.Overlooked

namespace ClassLift

namespace Assignment

variable {store grown last : Store} {early late : List NodeId} {current put value stored statement use id copy : NodeId}
  {place read : Place} {origins : NodeId → Prop} {depth : Nat}

structure Pair (store : Store) (early late : List NodeId) (current put value stored statement use : NodeId) (place : Place) :
    Prop where
  held : store.kind? current = some (.dupStore value)
  write : store.kind? put = some (.write place stored)
  written : store.kind? stored = some (.dupLoad current)
  unused : store.dupLoads current (early ++ [current]) = []
  used : store.dupLoads current late = [(statement, use)]

theorem match?_eq_some {spot : Spot} (held : store.kind? spot.current = some (.dupStore value))
    (matched : match? store spot put late = some (place, statement, use)) :
    ∃ stored, Pair store spot.before.reverse late spot.current put value stored statement use place := by
  unfold match? at matched
  split at matched
  case h_2 => cases matched
  case h_1 written stored write =>
    split at matched
    case isFalse => cases matched
    case isTrue loaded =>
      split at matched
      case h_2 => cases matched
      case h_1 unused used =>
        cases matched
        exact ⟨stored, held, write, Store.isDupLoadOf_iff.mp loaded, unused, used⟩

/-- What copies of operands are made of, when other nodes may have been added before. -/
structure Copied (store grown last : Store) (origins : NodeId → Prop) (copies : List NodeId) : Prop where
  adds : store.Adds [] origins Kind.Plain last
  start : store.size ≤ grown.size
  size_le : grown.size ≤ last.size
  node? : ∀ id, id < grown.size → last.node? id = grown.node? id
  listed : ∃ fresh, last.Lists copies fresh ∧ fresh.Nodup ∧ copies ⊆ fresh ∧ ∀ id ∈ fresh, grown.size ≤ id ∧ id < last.size

namespace Copied

theorem none (adds : store.Adds [] origins Kind.Plain grown) : Copied store grown grown origins [] :=
  ⟨adds, adds.size_le, Nat.le_refl _, fun _ _ => rfl, [], .nil, .nil, by simp, by simp⟩

theorem children {copies : List NodeId} (copied : Copied store grown last origins copies) :
    ∀ child ∈ copies, child ∈ [] ∨ store.size ≤ child ∧ child < last.size := by
  intro child among
  obtain ⟨fresh, _, _, subset, bounds⟩ := copied.listed
  obtain ⟨lower, upper⟩ := bounds child (subset among)
  exact .inr ⟨Nat.le_trans copied.start lower, upper⟩

theorem allocate {middle : Store} {kind : Kind} (copied : Copied store grown middle origins kind.children) (plain : kind.Plain)
    (inside : id < store.size) (placed : origins id) (made : middle.allocate id kind = (copy, last)) :
    Copied store grown last origins [copy] := by
  obtain rfl : middle.size = copy := Store.allocate_fst.symm.trans (congrArg Prod.fst made)
  obtain rfl : (middle.allocate id kind).2 = last := congrArg Prod.snd made
  have insideMiddle : id < middle.size := Nat.lt_of_lt_of_le inside (Nat.le_trans copied.start copied.size_le)
  obtain ⟨fresh, listed, distinct, _, bounds⟩ := copied.listed
  refine ⟨.allocate copied.adds inside placed plain copied.children, copied.start,
    Nat.le_trans copied.size_le Store.size_le_allocate, fun other old => ?_, middle.size :: (fresh ++ []), ?_, ?_, by simp, ?_⟩
  · rw [Store.node?_allocate_of_lt (Nat.lt_of_lt_of_le old copied.size_le), copied.node? other old]
  · refine .cons (Store.kind?_allocate_self insideMiddle) (listed.congr fun other among => ?_) .nil
    rw [Store.kind?, Store.node?_allocate_of_lt (bounds other among).2]
    rfl
  · rw [List.append_nil, List.nodup_cons]
    exact ⟨fun among => Nat.lt_irrefl _ (bounds _ among).2, distinct⟩
  · rw [List.append_nil]
    have more : middle.size < (middle.allocate id kind).2.size := Store.size_lt_allocate insideMiddle
    intro other among
    rcases List.mem_cons.mp among with rfl | among
    · exact ⟨copied.size_le, more⟩
    · exact ⟨(bounds other among).1, Nat.lt_trans (bounds other among).2 more⟩

theorem append {first second : List NodeId} {middle : Store} (copied : Copied store grown middle origins first)
    (more : Copied store middle last origins second) : Copied store grown last origins (first ++ second) := by
  obtain ⟨one, listedOne, distinctOne, subsetOne, boundsOne⟩ := copied.listed
  obtain ⟨other, listedOther, distinctOther, subsetOther, boundsOther⟩ := more.listed
  refine ⟨more.adds, copied.start, Nat.le_trans copied.size_le more.size_le, fun id old => ?_, one ++ other, ?_, ?_, ?_, ?_⟩
  · exact (more.node? id (Nat.lt_of_lt_of_le old copied.size_le)).trans (copied.node? id old)
  · refine (listedOne.congr fun id among => ?_).append listedOther
    simp [Store.kind?, more.node? id (boundsOne id among).2]
  · rw [List.nodup_append']
    exact ⟨distinctOne, distinctOther, fun id inOne inOther => Nat.not_lt.mpr (boundsOther id inOther).1 (boundsOne id inOne).2⟩
  · exact List.append_subset.mpr ⟨fun id among => List.mem_append_left _ (subsetOne among),
      fun id among => List.mem_append_right _ (subsetOther among)⟩
  · intro id among
    rcases List.mem_append.mp among with among | among
    · exact ⟨(boundsOne id among).1, Nat.lt_of_lt_of_le (boundsOne id among).2 more.size_le⟩
    · exact ⟨Nat.le_trans copied.size_le (boundsOther id among).1, (boundsOther id among).2⟩

end Copied

theorem duplicateWithin_copied (adds : store.Adds [] origins Kind.Plain grown)
    (closed : ∀ node, store.Reaches id node → node < store.size ∧ origins node)
    (copied : grown.duplicateWithin depth id = some (copy, last)) : Copied store grown last origins [copy] := by
  induction depth generalizing id copy last with
  | zero => cases copied
  | succ depth continues =>
    obtain ⟨inside, placed⟩ := closed id (.refl id)
    unfold Store.duplicateWithin at copied
    split at copied
    case h_1 field object found =>
      obtain ⟨⟨copiedObject, middle⟩, inner, made⟩ := Option.map_eq_some_iff.mp copied
      rw [adds.kind? inside] at found
      have child : object ∈ (Kind.read (.field field object)).children := by simp [Kind.children, Kind.operands, Place.operands]
      have copiedInner := continues (fun node reached => closed node (.trans (.tail (.refl id) found child) reached)) inner
      exact Copied.allocate copiedInner (by rintro _ ⟨⟩) inside placed made
    case h_7 => cases copied
    all_goals exact Copied.allocate (.none adds) (by rintro _ ⟨⟩) inside placed (Option.some_inj.mp copied)

theorem separateRead_copied (closed : ∀ node, store.Reaches put node → node < store.size)
    (write : store.kind? put = some (.write place stored)) (copied : separateRead store place = (some read, last)) :
    Copied store store last (store.Reaches put) read.operands := by
  have below {operand : NodeId} (among : operand ∈ place.operands) (node : NodeId) (reached : store.Reaches operand node) :
      node < store.size ∧ store.Reaches put node := by
    have child : operand ∈ (Kind.write place stored).children := by simp [Kind.children, Kind.operands, among]
    have whole := (Store.Reaches.tail (.refl put) write child).trans reached
    exact ⟨closed node whole, whole⟩
  unfold separateRead at copied
  split at copied
  case h_1 field object =>
    cases inner : store.duplicate object with
    | none =>
      rw [inner] at copied
      cases copied
    | some made =>
      rw [inner] at copied
      cases copied
      exact duplicateWithin_copied .none (below (by simp [Place.operands])) inner
  case h_2 type array index =>
    cases inner : store.duplicate array with
    | none =>
      rw [inner] at copied
      cases copied
    | some made =>
      obtain ⟨copy, middle⟩ := made
      have first := duplicateWithin_copied .none (below (by simp [Place.operands])) inner
      simp only [inner] at copied
      cases outer : middle.duplicate index with
      | none =>
        rw [outer] at copied
        cases copied
      | some made =>
        rw [outer] at copied
        cases copied
        exact first.append (duplicateWithin_copied first.adds (below (by simp [Place.operands])) outer)
  case h_3 notField notElement =>
    cases copied
    cases place with
    | slot | static => exact .none .none
    | field field object => exact absurd rfl (notField field object)
    | element type array index => exact absurd rfl (notElement type array index)

theorem separateRead_extends (store : Store) (place : Place) : store.Extends (separateRead store place).2 := by
  unfold separateRead
  split
  · split
    · exact .refl store
    · exact .duplicateWithin ‹_›
  · split
    · exact .refl store
    · split
      · exact .duplicateWithin ‹_›
      · exact (Store.Extends.duplicateWithin ‹_›).trans (.duplicateWithin ‹_›)
  · exact .refl store

namespace Pair

variable (pair : Pair store early late current put value stored statement use place)
include pair

theorem use_spec : statement ∈ late ∧ use ∈ store.preorder statement ∧ store.kind? use = some (.dupLoad current) :=
  Store.mem_dupLoads.mp (pair.used ▸ List.mem_singleton_self (statement, use))

theorem only {user : NodeId} (listed : user ∈ early ++ current :: late) (inside : id ∈ store.preorder user)
    (found : store.kind? id = some (.dupLoad current)) : id = use := by
  have listed : user ∈ early ++ [current] ∨ user ∈ late := by simpa [or_assoc] using listed
  rcases listed with listed | listed
  · have counted := Store.mem_dupLoads.mpr ⟨listed, inside, found⟩
    rw [pair.unused] at counted
    cases counted
  · have counted := Store.mem_dupLoads.mpr ⟨listed, inside, found⟩
    rw [pair.used] at counted
    exact congrArg Prod.snd (List.mem_singleton.mp counted)

theorem overlooked {operand : NodeId} (among : operand ∈ place.operands)
    (loads : ∃ id ∈ store.preorder operand, store.kind? id = some (.dupLoad current)) :
    (⟨store, early ++ current :: put :: late⟩ : Draft).Overlooked current :=
  .assignment rfl pair.held pair.write pair.written among loads

theorem inside_current (forest : (⟨store, early ++ current :: put :: late⟩ : Draft).Forest) (inside : id ∈ store.preorder value) :
    id ∈ store.preorder current := by
  have tree : store.Trees [current] := forest.of_mem (by simp)
  have child : value ∈ (Kind.dupStore value).children := by simp [Kind.children, Kind.operands]
  exact (tree.mem_preorder_of_child pair.held child inside).1

theorem transplant_chained : Draft.Transplant store (store.allocate put (.read place)).2 (early ++ ([current, put] ++ late))
    (early ++ late) use (.dupLoad current) (.assign .plain store.size value) [] [current, put] (value :: place.operands)
    (· = put) Kind.Plain := by
  have insidePut := Store.lt_size_of_kind? pair.write
  have ofPut : store.Prunes [put] place.operands :=
    .open_root pair.write (.of_sublist (by simp [Kind.children, Kind.operands, Kind.bodies]))
  exact {
    found := pair.use_spec.2.2
    fewer_sublist := by simp
    own_sublist := List.nil_sublist _
    donors_sublist := by simp
    prunes := .append (.open_root pair.held (.keep .nil)) ofPut
    adds := .allocate .none insidePut rfl (by rintro _ ⟨⟩) fun child below =>
      .inl (List.mem_cons_of_mem _ (by simpa [Kind.children, Kind.operands, Kind.bodies] using below))
    children := by
      rintro child below
      rcases List.mem_cons.mp below with rfl | below
      · exact .inr ⟨Nat.le_refl _, Store.size_lt_allocate insidePut⟩
      · exact .inl (List.mem_singleton.mp below ▸ List.mem_cons_self)
    placed := fun origin same => .inr ⟨put, by simp, same ▸ .refl origin⟩ }

theorem regrowth_chained (forest : (⟨store, early ++ ([current, put] ++ late)⟩ : Draft).Forest) : Draft.Regrowth
    ⟨store, early ++ ([current, put] ++ late)⟩
    ⟨(store.allocate put (.read place)).2.replace use (.assign .plain store.size value), early ++ late⟩ use
    (value :: place.operands) := by
  have transplant := pair.transplant_chained
  have insidePut := Store.lt_size_of_kind? pair.write
  have insideUse := Store.lt_size_of_kind? pair.use_spec.2.2
  have apart : current ∉ early ++ late ∧ put ∉ early ++ late := ⟨forest.neighbours.1, forest.neighbours.2.1⟩
  refine transplant.regrowth forest (by simpa [List.mem_pair] using apart) ?_ fun trees outside => ?_
  · rintro made source (rfl | plain) same
    · cases same
    · exact absurd same (plain source)
  · obtain ⟨ofValue, ofPlace, _⟩ := trees.cons_inv
    rw [List.flatMap_cons, List.mem_append, not_or] at outside
    have listedPlace := transplant.lists ofPlace outside.2
    have listedValue := transplant.lists ofValue (by simpa using outside.1)
    have children : (Kind.read place).children = place.operands := by simp [Kind.children, Kind.operands, Kind.bodies]
    refine ⟨_, [store.size], .cons (Store.kind?_replace_allocate insideUse insidePut) (children.symm ▸ listedPlace) listedValue,
      ?_, by simp, by simp⟩
    simpa [children] using List.perm_append_comm

theorem sound_chained : Draft.Sound ⟨store, early ++ current :: put :: late⟩
    ⟨(store.allocate put (.read place)).2.replace use (.assign .plain store.size value), early ++ late⟩ := by
  obtain ⟨listedStatement, inStatement, foundUse⟩ := pair.use_spec
  have sub : (early ++ late).Sublist (early ++ ([current, put] ++ late)) := by simp
  have transplant := pair.transplant_chained
  have regrows (forest : (⟨store, early ++ ([current, put] ++ late)⟩ : Draft).Forest) := pair.regrowth_chained forest
  refine ⟨fun _ => transplant.rebuild.stems, fun forest => (regrows forest).forest forest,
    fun forest ordered statement member source notEarlier loads => ?_, fun forest ordered tied user member source loads => ?_⟩
  · refine absurd loads ((regrows forest).ordered_of_cut [current, put] forest ordered ?_ statement member source notEarlier)
    intro user member here
    have same : user = _ := forest.root_unique (sub.subset member) (by simp [listedStatement]) here inStatement
    exact same ▸ listedStatement
  · have unheld (value : NodeId) : store.kind? use ≠ some (.dupStore value) := by simp [foundUse]
    refine ((regrows forest).held_or_cut [current, put] forest tied unheld member loads).imp_right ?_
    rintro ⟨among, held, foundHeld⟩
    obtain rfl : source = current := by
      rcases List.mem_pair.mp among with same | rfl
      · exact same
      · cases pair.write.symm.trans foundHeld
    rcases (regrows forest).loads forest member loads with
      ⟨id, inside, found, apart, _⟩ | ⟨here, ⟨seed, chosen, id, inside, found⟩ | ⟨id, changed, found⟩⟩
    · exact absurd (pair.only (by simp at member ⊢; tauto) inside found) apart
    · rcases List.mem_cons.mp chosen with rfl | chosen
      · exact absurd ⟨id, pair.inside_current forest inside, found⟩ (ordered source (by simp) source (.inl rfl))
      · exact pair.overlooked chosen ⟨id, inside, found⟩
    · exact absurd found (transplant.not_dupLoad (by rintro _ ⟨⟩) changed)

theorem ne_use : put ≠ use ∧ current ≠ use := by
  obtain ⟨_, _, found⟩ := pair.use_spec
  constructor
  · rintro rfl
    cases pair.write.symm.trans found
  · rintro rfl
    cases pair.held.symm.trans found

theorem transplant_read (copied : Copied store store last (store.Reaches put) read.operands) :
    Draft.Transplant store last (early ++ current :: put :: late) (early ++ current :: put :: late) use (.dupLoad current)
      (.read read) [] [] [] (store.Reaches put) Kind.Plain where
  found := pair.use_spec.2.2
  fewer_sublist := .refl _
  own_sublist := List.nil_sublist _
  donors_sublist := List.nil_sublist _
  prunes := .nil
  adds := copied.adds
  children child below := copied.children child (by simpa [Kind.children, Kind.operands, Kind.bodies] using below)
  placed _ reached := .inr ⟨put, by simp, reached⟩

theorem listed_read (copied : Copied store store last (store.Reaches put) read.operands) :
    ∃ below fresh, (last.replace use (.read read)).Lists (Kind.read read).children below ∧
      below.Perm (fresh ++ List.flatMap store.preorder []) ∧ fresh.Nodup ∧ ∀ id ∈ fresh, store.size ≤ id := by
  obtain ⟨fresh, listed, distinct, _, bounds⟩ := copied.listed
  refine ⟨fresh, fresh, ?_, by simp, distinct, fun id among => (bounds id among).1⟩
  have children : (Kind.read read).children = read.operands := by simp [Kind.children, Kind.operands, Kind.bodies]
  rw [children]
  exact listed.congr fun id among => (pair.transplant_read copied).kind?_fresh (bounds id among).1

theorem regrowth_read (copied : Copied store store last (store.Reaches put) read.operands)
    (forest : (⟨store, early ++ current :: put :: late⟩ : Draft).Forest) : Draft.Regrowth
    ⟨store, early ++ current :: put :: late⟩ ⟨last.replace use (.read read), early ++ current :: put :: late⟩ use [] :=
  (pair.transplant_read copied).regrowth_within forest (by rintro _ ⟨⟩) fun _ _ => pair.listed_read copied

theorem keeps_read (copied : Copied store store last (store.Reaches put) read.operands) :
    Draft.Keeps ⟨store, early ++ current :: put :: late⟩ ⟨last.replace use (.read read), early ++ current :: put :: late⟩ :=
  ((pair.transplant_read copied).within (by rintro _ ⟨⟩) (by rintro _ ⟨⟩) fun _ _ => pair.listed_read copied).2

theorem not_loads_read (copied : Copied store store last (store.Reaches put) read.operands)
    (forest : (⟨store, early ++ current :: put :: late⟩ : Draft).Forest) {user : NodeId}
    (listed : user ∈ early ++ current :: late) :
    ¬ (⟨last.replace use (.read read), early ++ current :: put :: late⟩ : Draft).Loads user current := by
  intro loads
  have transplant := pair.transplant_read copied
  have regrowth := pair.regrowth_read copied forest
  have member : user ∈ early ++ current :: put :: late := by simp at listed ⊢; tauto
  rcases regrowth.loads forest member loads with
    ⟨id, inside, found, apart, _⟩ | ⟨here, ⟨seed, chosen, _⟩ | ⟨id, changed, found⟩⟩
  · exact apart (pair.only listed inside found)
  · cases chosen
  · exact transplant.not_dupLoad (by rintro _ ⟨⟩) changed found

theorem operand_read (copied : Copied store store last (store.Reaches put) read.operands)
    (forest : (⟨store, early ++ current :: put :: late⟩ : Draft).Forest) {operand : NodeId} (among : operand ∈ place.operands)
    (inside : id ∈ (last.replace use (.read read)).preorder operand) :
    id ∈ store.preorder operand ∧ (last.replace use (.read read)).kind? id = store.kind? id := by
  obtain ⟨listedStatement, inStatement, _⟩ := pair.use_spec
  have transplant := pair.transplant_read copied
  have listedPut : put ∈ early ++ current :: put :: late := by simp
  have outside : use ∉ store.preorder put := by
    refine forest.disjoint (by simp [listedStatement]) listedPut (fun same => ?_) inStatement
    exact forest.neighbours.2.1 (same ▸ List.mem_append_right early listedStatement)
  have child : operand ∈ (Kind.write place stored).children := by simp [Kind.children, Kind.operands, among]
  have putTree : store.Trees [put] := forest.of_mem listedPut
  have tree := (putTree.children pair.write).2.1.of_mem child
  have apart : use ∉ store.preorder operand := fun within =>
    outside (putTree.mem_preorder_of_child pair.write child within).1
  have same := (transplant.lists tree (by simpa using apart)).flatMap_preorder tree.distinct
  simp only [List.flatMap_cons, List.flatMap_nil, List.append_nil] at same
  rw [same] at inside
  exact ⟨inside, transplant.rebuild.kind? (tree.lt_size (List.mem_singleton_self _) inside) fun same => apart (same ▸ inside)⟩

theorem transplant_write (copied : Copied store store last (store.Reaches put) read.operands) :
    Draft.Transplant (last.replace use (.read read)) (last.replace use (.read read)) (early ++ current :: put :: late)
      (early ++ put :: late) put (.write place stored) (.write place value) place.operands [current]
      (place.operands ++ [value]) (· = put) Kind.Plain := by
  have rebuild := (pair.transplant_read copied).rebuild
  have held := (rebuild.kind? (Store.lt_size_of_kind? pair.held) pair.ne_use.2).trans pair.held
  have write := (rebuild.kind? (Store.lt_size_of_kind? pair.write) pair.ne_use.1).trans pair.write
  refine ⟨write, by simp, ?_, by simp, ?_, .none, fun child below => .inl ?_, fun _ same => .inl same⟩
  · simp [Kind.children, Kind.operands]
  · exact .append (.of_sublist (List.Sublist.refl _)) (.open_root held (.keep .nil))
  · simpa [Kind.children, Kind.operands, Kind.bodies] using below

theorem regrowth_split (copied : Copied store store last (store.Reaches put) read.operands)
    (forest : (⟨store, early ++ ([current] ++ put :: late)⟩ : Draft).Forest) : Draft.Regrowth
    ⟨last.replace use (.read read), early ++ ([current] ++ put :: late)⟩
    ⟨(last.replace use (.read read)).replace put (.write place value), early ++ put :: late⟩ put (place.operands ++ [value]) := by
  have transplant := pair.transplant_write copied
  refine transplant.regrowth ((pair.keeps_read copied).forest forest) ?_ ?_ fun trees outside => ?_
  · simpa using forest.neighbours.2.2.1
  · rintro made source (rfl | plain) same
    · cases same
    · exact absurd same (plain source)
  · have children : (Kind.write place value).children = place.operands ++ [value] := by
      simp [Kind.children, Kind.operands, Kind.bodies]
    exact ⟨_, [], children.symm ▸ transplant.lists trees outside, .refl _, .nil, by simp⟩

theorem sound_split (separate : separateRead store place = (some read, last)) :
    Draft.Sound ⟨store, early ++ current :: put :: late⟩
      ⟨(last.replace put (.write place value)).replace use (.read read), early ++ put :: late⟩ := by
  rw [Store.replace_comm pair.ne_use.1]
  have copies (closed : (⟨store, early ++ current :: put :: late⟩ : Draft).Closed) :=
    separateRead_copied (closed put (by simp)) pair.write separate
  have regrows (forest : (⟨store, early ++ ([current] ++ put :: late)⟩ : Draft).Forest) :=
    pair.regrowth_split (copies forest.closed) forest
  refine ⟨fun closed => ?_, fun forest => ?_, fun forest ordered => ?_, fun forest ordered tied user member source loads => ?_⟩
  · exact (pair.transplant_read (copies closed)).rebuild.stems.trans (pair.transplant_write (copies closed)).rebuild.stems
  · exact (regrows forest).forest ((pair.keeps_read (copies forest.closed)).forest forest)
  · have keeps := pair.keeps_read (copies forest.closed)
    have forestRead := keeps.forest forest
    intro user member source notEarlier loads
    refine absurd loads ((regrows forest).ordered_of_cut [current] forestRead (keeps.ordered forest ordered) ?_ user member
      source notEarlier)
    intro user member here
    have putTree : (last.replace use (.read read)).Trees [put] := forestRead.of_mem (by simp)
    have same : user = put := forestRead.root_unique (by simp at member ⊢; tauto) (by simp) here putTree.mem_preorder_self
    exact same ▸ List.mem_cons_self
  · have copied := copies forest.closed
    have keeps := pair.keeps_read copied
    have forestRead := keeps.forest forest
    have transplant := pair.transplant_write copied
    have unheld (value : NodeId) : (last.replace use (.read read)).kind? put ≠ some (.dupStore value) := by
      simp [transplant.found]
    refine ((regrows forest).held_or_cut [current] forestRead (keeps.tied forest ordered tied) unheld member loads).imp_right ?_
    rintro ⟨cut, _⟩
    obtain rfl := List.mem_singleton.mp cut
    rcases (regrows forest).loads forestRead member loads with
      ⟨id, inside, found, _, outside⟩ | ⟨here, ⟨seed, chosen, id, inside, found⟩ | ⟨id, changed, found⟩⟩
    · have apart : user ≠ put := by
        rintro rfl
        have tree : (last.replace use (.read read)).Trees [user] := forestRead.of_mem (by simp)
        exact outside tree.mem_preorder_self inside
      exact absurd ⟨id, inside, found⟩ (pair.not_loads_read copied forest (by simp [apart] at member ⊢; tauto))
    · rcases List.mem_append.mp chosen with among | among
      · obtain ⟨inside, same⟩ := pair.operand_read copied forest among inside
        exact pair.overlooked among ⟨id, inside, same ▸ found⟩
      · have heldRead := ((pair.transplant_read copied).rebuild.kind? (Store.lt_size_of_kind? pair.held) pair.ne_use.2).trans
          pair.held
        have tree : (last.replace use (.read read)).Trees [source] := forestRead.of_mem (by simp)
        have child : seed ∈ (Kind.dupStore value).children := by simpa [Kind.children, Kind.operands, Kind.bodies] using among
        have inCurrent := (tree.mem_preorder_of_child heldRead child inside).1
        exact absurd ⟨id, inCurrent, found⟩ (pair.not_loads_read copied forest (by simp))
    · exact absurd found (transplant.not_dupLoad (by rintro _ ⟨⟩) changed)

end Pair

theorem step_cases (store : Store) (spot : Spot) : (∃ last, store.Extends last ∧ step store spot = (last, spot.keep)) ∨
    ∃ put rest place value stored statement use, spot.after = put :: rest ∧
      Pair store spot.before.reverse rest spot.current put value stored statement use place ∧
      (step store spot = ((store.allocate put (.read place)).2.replace use (.assign .plain store.size value), ⟨spot.before, rest⟩) ∨
        ∃ read last, separateRead store place = (some read, last) ∧
          step store spot = ((last.replace put (.write place value)).replace use (.read read), ⟨spot.before, put :: rest⟩)) := by
  unfold step
  split
  case h_2 => exact .inl ⟨store, .refl store, rfl⟩
  case h_1 value held =>
    unfold fold
    split
    case h_1 => exact .inl ⟨store, .refl store, rfl⟩
    case h_2 put rest split =>
      dsimp only
      split
      case h_1 => exact .inl ⟨store, .refl store, rfl⟩
      case h_2 place statement use matched =>
        obtain ⟨stored, pair⟩ := match?_eq_some held matched
        refine (Decidable.em (sameLine store put statement = true)).elim (fun same => .inr ?_) fun apart => ?_
        · exact ⟨put, rest, place, value, stored, statement, use, split, pair, .inl (by simp [same])⟩
        · simp only [apart, Bool.false_eq_true, if_false]
          have extended := separateRead_extends store place
          rcases separate : separateRead store place with ⟨_ | read, last⟩
          · rw [separate] at extended
            exact .inl ⟨last, extended, rfl⟩
          · exact .inr ⟨put, rest, place, value, stored, statement, use, split, pair, .inr ⟨read, last, separate, rfl⟩⟩

theorem step_sound (store : Store) (spot : Spot) :
    Draft.Sound ⟨store, spot.keep.statements⟩ ⟨(step store spot).1, (step store spot).2.statements⟩ := by
  obtain ⟨before, current, after⟩ := spot
  rcases step_cases store ⟨before, current, after⟩ with
    ⟨last, extended, same⟩ | ⟨put, rest, place, value, stored, statement, use, rfl, pair, same | ⟨read, last, separate, same⟩⟩
  · rw [same]
    exact .of_extends extended
  · rw [same]
    exact pair.sound_chained
  · rw [same]
    exact pair.sound_split separate

end Assignment

namespace ArrayLiteral

variable {store : Store} {early writes late values : List NodeId} {source array use write value : NodeId}

def WritesElement (store : Store) (source write value : NodeId) : Prop :=
  ∃ type object position index, store.kind? write = some (.write (.element type object position) value) ∧
    store.kind? object = some (.dupLoad source) ∧ store.kind? position = some (.literal index)

theorem element?_eq_some {index : Nat} (written : element? store source write index = some value) :
    WritesElement store source write value := by
  unfold element? at written
  split at written
  case h_2 => cases written
  case h_1 type object position stored found =>
    split at written
    case h_2 => cases written
    case h_1 number foundPosition =>
      obtain ⟨⟨loaded, _⟩, same⟩ := Option.ite_none_right_eq_some.mp written
      cases same
      exact ⟨type, object, position, .int number, found, Store.isDupLoadOf_iff.mp loaded, foundPosition⟩

theorem elements?_eq_some {index count : Nat} {after : List NodeId}
    (taken : elements? store source index count after = some (values, late)) :
    ∃ writes, after = writes ++ late ∧ List.Forall₂ (WritesElement store source) writes values := by
  induction count generalizing index after values with
  | zero =>
    cases taken
    exact ⟨[], rfl, .nil⟩
  | succ count continues =>
    cases after with
    | nil => cases taken
    | cons write after =>
      obtain ⟨value, first, taken⟩ := Option.bind_eq_some_iff.mp taken
      obtain ⟨⟨rest, behind⟩, others, taken⟩ := Option.bind_eq_some_iff.mp taken
      cases taken
      obtain ⟨writes, rfl, elements⟩ := continues others
      exact ⟨write :: writes, rfl, .cons (element?_eq_some first) elements⟩

section Elements

variable (elements : List.Forall₂ (WritesElement store source) writes values)
include elements

theorem prunes_elements : store.Prunes writes values := by
  induction elements with
  | nil => exact .nil
  | cons first _ continues =>
    obtain ⟨type, object, position, index, found, _⟩ := first
    exact .append (.open_root found (.drop (.drop (.keep .nil)))) continues

theorem writes_each : ∀ write ∈ writes, ∃ value, WritesElement store source write value := by
  induction elements with
  | nil => simp
  | cons first _ continues =>
    intro write among
    rcases List.mem_cons.mp among with rfl | among
    · exact ⟨_, first⟩
    · exact continues write among

theorem each_written : ∀ value ∈ values, ∃ write ∈ writes, WritesElement store source write value := by
  induction elements with
  | nil => simp
  | cons first _ continues =>
    intro value among
    rcases List.mem_cons.mp among with rfl | among
    · exact ⟨_, List.mem_cons_self, first⟩
    · obtain ⟨write, listed, written⟩ := continues value among
      exact ⟨write, List.mem_cons_of_mem _ listed, written⟩

end Elements

structure Filled (store : Store) (early writes late : List NodeId) (source array user use : NodeId) (values : List NodeId) :
    Prop where
  held : store.kind? source = some (.dupStore array)
  elements : List.Forall₂ (WritesElement store source) writes values
  used : store.dupLoads source (early ++ source :: late) = [(user, use)]
  counted : ∃ count, length? store array = some count

theorem match?_eq_some {spot : Spot} (held : store.kind? spot.current = some (.dupStore array))
    (matched : match? store spot array = some (values, use, late)) :
    ∃ writes user, spot.after = writes ++ late ∧
      Filled store spot.before.reverse writes late spot.current array user use values := by
  obtain ⟨length, counted, matched⟩ := Option.bind_eq_some_iff.mp matched
  obtain ⟨⟨elements, rest⟩, taken, matched⟩ := Option.bind_eq_some_iff.mp matched
  dsimp only at matched
  split at matched
  case h_2 => cases matched
  case h_1 user only used =>
    cases matched
    obtain ⟨writes, split, elements⟩ := elements?_eq_some taken
    exact ⟨writes, user, split, held, elements, used, length, counted⟩

namespace Filled

variable {user : NodeId} (filled : Filled store early writes late source array user use values)
include filled

theorem transplant : Draft.Transplant store store (early ++ (source :: writes ++ late)) (early ++ late) use
    (.dupLoad source) (.arrayLiteral array values) [] (source :: writes) (array :: values) (· = use) Kind.Plain where
  found := (Store.mem_dupLoads.mp (filled.used ▸ List.mem_singleton_self (user, use))).2.2
  fewer_sublist := by simp
  own_sublist := List.nil_sublist _
  donors_sublist := (List.sublist_append_left _ late).trans (List.sublist_append_right early _)
  prunes := .append (.open_root filled.held (.keep .nil)) (prunes_elements filled.elements)
  adds := .none
  children child below := .inl (by simpa [Kind.children, Kind.operands, Kind.bodies] using below)
  placed _ same := .inl same

theorem regrowth (forest : (⟨store, early ++ (source :: writes ++ late)⟩ : Draft).Forest) : Draft.Regrowth
    ⟨store, early ++ (source :: writes ++ late)⟩ ⟨store.replace use (.arrayLiteral array values), early ++ late⟩ use
      (array :: values) := by
  refine filled.transplant.regrowth forest (fun donor among => forest.not_mem_of_cut among) ?_ fun trees outside => ?_
  · rintro made source (rfl | plain) same
    · cases same
    · exact absurd same (plain source)
  · have children : (Kind.arrayLiteral array values).children = array :: values := by
      simp [Kind.children, Kind.operands, Kind.bodies]
    exact ⟨_, [], children.symm ▸ filled.transplant.lists trees outside, .refl _, .nil, by simp⟩

theorem sound : Draft.Sound ⟨store, early ++ source :: (writes ++ late)⟩
    ⟨store.replace use (.arrayLiteral array values), early ++ late⟩ := by
  obtain ⟨listed, inUser, foundUse⟩ := Store.mem_dupLoads.mp (filled.used ▸ List.mem_singleton_self (user, use))
  refine ⟨fun _ => filled.transplant.rebuild.stems, fun forest => (filled.regrowth forest).forest forest, ?_, ?_⟩
  · intro forest ordered statement member repeated notEarlier loads
    refine absurd loads ((filled.regrowth forest).ordered_of_cut _ forest ordered ?_ statement member repeated notEarlier)
    intro statement member here
    have behind := ordered.mem_behind rfl (filled.transplant.fewer_sublist.subset member) ⟨use, here, foundUse⟩
    refine (List.mem_append.mp behind).resolve_left fun among => ?_
    have cut : statement ∈ source :: writes := List.mem_cons_of_mem source among
    exact forest.not_mem_of_cut cut member
  · intro forest ordered tied statement member repeated loads
    have unheld (value : NodeId) : store.kind? use ≠ some (.dupStore value) := by simp [foundUse]
    refine ((filled.regrowth forest).held_or_cut _ forest tied unheld member loads).imp_right ?_
    rintro ⟨among, held, foundHeld⟩
    obtain rfl : repeated = source := by
      rcases List.mem_cons.mp among with same | among
      · exact same
      · obtain ⟨_, _, _, _, _, found, _⟩ := writes_each filled.elements repeated among
        cases foundHeld.symm.trans found
    rcases (filled.regrowth forest).loads forest member loads with
      ⟨id, inside, found, apart, _⟩ | ⟨here, ⟨seed, chosen, id, inside, found⟩ | ⟨id, changed, found⟩⟩
    · have counted : (statement, id) ∈ store.dupLoads repeated (early ++ repeated :: late) :=
        Store.mem_dupLoads.mpr ⟨by simp at member ⊢; tauto, inside, found⟩
      rw [filled.used] at counted
      exact absurd (congrArg Prod.snd (List.mem_singleton.mp counted)) apart
    · rcases List.mem_cons.mp chosen with rfl | chosen
      · have tree : store.Trees [repeated] := forest.of_mem (by simp)
        have child : seed ∈ (Kind.dupStore seed).children := by simp [Kind.children, Kind.operands]
        have inHolder := (tree.mem_preorder_of_child filled.held child inside).1
        exact absurd ⟨id, inHolder, found⟩ (ordered repeated (by simp) repeated (.inl rfl))
      · obtain ⟨write, among, type, object, position, index, written, stored, _⟩ := each_written filled.elements seed chosen
        exact .element rfl filled.held among written stored ⟨id, inside, found⟩
    · exact absurd found (filled.transplant.not_dupLoad (by rintro _ ⟨⟩) changed)

end Filled

theorem step_cases (store : Store) (spot : Spot) : step store spot = (store, spot.keep) ∨
    ∃ writes rest array user use values, spot.after = writes ++ rest ∧
      Filled store spot.before.reverse writes rest spot.current array user use values ∧
      step store spot = (store.replace use (.arrayLiteral array values), ⟨spot.before, rest⟩) := by
  unfold step
  split
  case h_2 => exact .inl rfl
  case h_1 array held =>
    split
    case h_2 => exact .inl rfl
    case h_1 values use rest matched =>
      obtain ⟨writes, user, split, filled⟩ := match?_eq_some held matched
      exact .inr ⟨writes, rest, array, user, use, values, split, filled, rfl⟩

theorem step_sound (store : Store) (spot : Spot) :
    Draft.Sound ⟨store, spot.keep.statements⟩ ⟨(step store spot).1, (step store spot).2.statements⟩ := by
  obtain ⟨before, current, after⟩ := spot
  rcases step_cases store ⟨before, current, after⟩ with same | ⟨writes, rest, array, user, use, values, rfl, filled, same⟩
  · rw [same]
    exact .refl _
  · rw [same]
    exact filled.sound

end ArrayLiteral

end ClassLift
