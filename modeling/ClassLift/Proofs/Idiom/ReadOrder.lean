import ClassLift.Proofs.Idiom.InPlace

/-!
# What reads see when an increment is folded

A separate increment of a variable is folded into the first read of the variable in the next statement. Reads that come first
in the bytecode have to come first in the statement too. `Increment.step_keeps_reads_iff` says exactly when they do: the first
read is the only one that may stand before the increment. It may not be the target of an increment already, but after a fold it
always is, so a second increment of the variable must not be folded into the same statement.
-/

namespace ClassLift

namespace Store

def MeetsFirst (store : Store) (root one other : NodeId) : Prop :=
  (store.preorder root).idxOf one < (store.preorder root).idxOf other

instance (store : Store) (root one other : NodeId) : Decidable (store.MeetsFirst root one other) :=
  inferInstanceAs (Decidable (_ < _))

def Increments (store : Store) (root target : NodeId) : Prop :=
  ∃ parent ∈ store.preorder root, ∃ position delta, store.kind? parent = some (.increment position target delta)

structure OtherRead (store : Store) (slot : Slot) (root load other : NodeId) (offset : Offset) : Prop where
  inside : other ∈ store.preorder root
  apart : other ≠ load
  reads : store.isSlot other slot = true
  located : store.offset? other = some offset

end Store

namespace Increment

/-- The read `load` can take in an increment that stands at `offset`: the other reads are on the right side of it, and it is
not incremented yet. -/
structure KeepsReads (store : Store) (slot : Slot) (offset : Offset) (root load : NodeId) : Prop where
  early : ∀ other own, store.OtherRead slot root load other own → own < offset → store.MeetsFirst root other load
  late : ∀ other own, store.OtherRead slot root load other own → offset < own → store.MeetsFirst root load other
  single : ¬ store.Increments root load

variable {store after : Store} {spot : Spot} {slot : Slot} {root load next : NodeId} {delta : Int32} {targets : List Offset}

theorem any_isSlot (id : NodeId) : (store.node? id).any (fun node => node.kind.isSlot slot) = store.isSlot id slot := by
  simp [Store.isSlot, Store.kind?, Option.any_map]

theorem find?_split (found : store.find? (fun node => node.kind.isSlot slot) root = some load) :
    store.isSlot load slot = true ∧ ∃ early late, store.preorder root = early ++ load :: late ∧
      ∀ other ∈ early, store.isSlot other slot = false := by
  rw [Store.find?_eq] at found
  simp only [any_isSlot] at found
  obtain ⟨reads, early, late, split, none⟩ := List.find?_eq_some_iff_append.mp found
  exact ⟨reads, early, late, split, by simpa using none⟩

theorem meetsFirst_of_find? {other : NodeId} {own : Offset}
    (found : store.find? (fun node => node.kind.isSlot slot) root = some load)
    (read : store.OtherRead slot root load other own) : store.MeetsFirst root load other := by
  obtain ⟨reads, early, late, split, none⟩ := find?_split found
  have notEarly {id : NodeId} (reads : store.isSlot id slot = true) : id ∉ early := by
    intro member
    rw [none id member] at reads
    cases reads
  unfold Store.MeetsFirst
  rw [split, List.idxOf_append_of_notMem (notEarly reads), List.idxOf_append_of_notMem (notEarly read.reads),
    List.idxOf_cons_self, List.idxOf_cons_ne _ read.apart.symm]
  omega

/-- Only the first read can be before the increment. -/
theorem keepsReads_iff {offset : Offset} (found : store.find? (fun node => node.kind.isSlot slot) root = some load) :
    KeepsReads store slot offset root load ↔
      (∀ other own, store.OtherRead slot root load other own → offset ≤ own) ∧ ¬ store.Increments root load := by
  constructor
  · intro keeps
    refine ⟨fun other own read => UInt32.not_lt.mp fun below => ?_, keeps.single⟩
    exact Nat.lt_asymm (meetsFirst_of_find? found read) (keeps.early other own read below)
  · rintro ⟨alone, single⟩
    refine ⟨fun other own read below => ?_, fun other own read _ => meetsFirst_of_find? found read, single⟩
    exact absurd below (UInt32.not_lt.mpr (alone other own read))

structure Folds (store after : Store) (load : NodeId) (position : IncrementPosition) (delta : Int32) : Prop where
  inside : load < store.size
  target : after.kind? load = some (.increment position store.size delta)
  copy : after.kind? store.size = store.kind? load
  kept : ∀ id < store.size, id ≠ load → after.kind? id = store.kind? id

theorem folds {read : Node} {position : IncrementPosition} (located : store.node? load = some read) :
    Folds store ((store.allocate load read.kind).2.replace load (.increment position store.size delta)) load position delta := by
  have inside := Store.lt_size_of_node? located
  refine ⟨inside, Store.kind?_replace_self (Nat.lt_of_lt_of_le inside Store.size_le_allocate), ?_, fun id old apart => ?_⟩
  · rw [Store.kind?_replace_allocate inside inside, Store.kind?_of_node? located]
  · rw [Store.kind?_replace_of_ne apart, Store.kind?, Store.node?_allocate_of_lt old, Store.kind?]

theorem step_folded {bump : Node} (located : store.node? spot.current = some bump) (isBump : bump.kind = .bump slot delta)
    (folded : step targets store spot = (after, ⟨spot.before, spot.after⟩)) :
    ∃ next rest load read position, spot.after = next :: rest ∧
      store.find? (fun node => node.kind.isSlot slot) next = some load ∧ store.node? load = some read ∧
      position? bump read = some position ∧ Folds store after load position delta := by
  obtain ⟨before, current, rest⟩ := spot
  have kept {changed : Store} : (changed, Spot.keep ⟨before, current, rest⟩) ≠ (after, ⟨before, rest⟩) := by
    simp [Spot.keep]
  unfold step at folded
  simp only [located, isBump] at folded
  split at folded
  case isFalse => exact absurd folded kept
  case isTrue =>
    unfold foldBump at folded
    cases rest with
    | nil => exact absurd folded kept
    | cons next rest =>
      dsimp only at folded
      split at folded
      case isTrue => exact absurd folded kept
      case isFalse =>
        split at folded
        case h_1 => exact absurd folded kept
        case h_2 load first =>
          split at folded
          case h_1 => exact absurd folded kept
          case h_2 read found =>
            split at folded
            case h_1 => exact absurd folded kept
            case h_2 position placed =>
              rw [Store.allocate_fst] at folded
              obtain ⟨rfl, -⟩ := Prod.mk.inj folded
              exact ⟨next, rest, load, read, position, rfl, first, found, placed, folds found⟩

namespace Folds

variable {position : IncrementPosition}

theorem preorder (folds : Folds store after load position delta) (tree : store.Trees [root])
    (found : store.find? (fun node => node.kind.isSlot slot) root = some load) :
    ∃ early late, store.preorder root = early ++ load :: late ∧
      after.preorder root = early ++ load :: store.size :: late ∧ ∀ other ∈ early, after.isSlot other slot = false := by
  obtain ⟨reads, early, late, order, none⟩ := find?_split found
  obtain ⟨type, same⟩ := Store.kind?_of_isSlot reads
  have listed := tree.listed
  have distinct := tree.distinct
  rw [List.flatMap_singleton, order] at listed distinct
  have old {id : NodeId} (member : id ∈ early ++ load :: late) : id < store.size :=
    Store.lt_size_of_kind? (listed.kind? member).choose_spec
  have once : load ∉ early ++ late := (List.nodup_cons.mp (List.perm_middle.nodup_iff.mp distinct)).1
  have kept {id : NodeId} (member : id ∈ early ++ late) : after.kind? id = store.kind? id :=
    folds.kept id (old (by simp at member ⊢; tauto)) fun here => once (here ▸ member)
  -- A read has no children, so that the copy alone comes in behind it.
  have grown : after.Lists [root] (early ++ load :: store.size :: late) := by
    obtain ⟨kind, below, left, right, foundLoad, inner, split, grow⟩ := listed.split (show load ∈ _ by simp)
    cases same.symm.trans foundLoad
    cases inner
    obtain ⟨notEarly, notLate⟩ := not_or.mp (List.mem_append.not.mp once)
    obtain ⟨rfl, -, rfl⟩ := (List.append_cons_inj_of_notMem notEarly notLate).mp split
    exact grow after _ [store.size] (fun _ => kept) folds.target (.cons (folds.copy.trans same) .nil .nil)
  have apart : (early ++ [load] ++ store.size :: late).Nodup := by
    rw [List.perm_middle.nodup_iff, List.nodup_cons]
    exact ⟨fun member => Nat.lt_irrefl _ (old (by simpa using member)), by simpa using distinct⟩
  refine ⟨early, late, order, ?_, fun other member => ?_⟩
  · simpa using grown.flatMap_preorder (by simpa using apart)
  · rw [Store.isSlot, kept (List.mem_append_left _ member)]
    exact none other member

theorem first (folds : Folds store after load position delta) (tree : store.Trees [root])
    (found : store.find? (fun node => node.kind.isSlot slot) root = some load) :
    after.find? (fun node => node.kind.isSlot slot) root = some store.size ∧ after.Increments root store.size := by
  obtain ⟨early, late, -, order, none⟩ := folds.preorder tree found
  have ofCopy : after.isSlot store.size slot = true := by
    rw [Store.isSlot, folds.copy]
    exact (find?_split found).1
  have ofLoad : after.isSlot load slot = false := by
    rw [Store.isSlot, folds.target]
    rfl
  constructor
  · rw [Store.find?_eq, order]
    simp only [any_isSlot]
    refine List.find?_eq_some_iff_append.mpr ⟨ofCopy, early ++ [load], late, by simp, fun other member => ?_⟩
    rcases List.mem_append.mp member with member | member
    · simp [none other member]
    · simp [List.mem_singleton.mp member, ofLoad]
  · exact ⟨load, by simp [order], position, delta, folds.target⟩

end Folds

/-- An increment that is folded goes to the first read of its variable in the next statement. The reads keep their sides of it
exactly when no other read comes before it and the read is not incremented already. Afterwards it is incremented, and still
the first read of the variable. -/
theorem step_keeps_reads_iff {bump : Node} (located : store.node? spot.current = some bump)
    (isBump : bump.kind = .bump slot delta) (folded : step targets store spot = (after, ⟨spot.before, spot.after⟩)) :
    ∃ next rest load read position, spot.after = next :: rest ∧ store.node? load = some read ∧
      store.find? (fun node => node.kind.isSlot slot) next = some load ∧ position? bump read = some position ∧
      Folds store after load position delta ∧
      (KeepsReads store slot bump.offset next load ↔
        (∀ other own, store.OtherRead slot next load other own → bump.offset ≤ own) ∧ ¬ store.Increments next load) ∧
      (store.Trees [next] →
        (∃ early late, store.preorder next = early ++ load :: late ∧
          after.preorder next = early ++ load :: store.size :: late) ∧
        after.find? (fun node => node.kind.isSlot slot) next = some store.size ∧ after.Increments next store.size) := by
  obtain ⟨next, rest, load, read, position, follows, first, found, placed, folds⟩ := step_folded located isBump folded
  refine ⟨next, rest, load, read, position, follows, found, first, placed, folds, keepsReads_iff first, fun tree => ?_⟩
  obtain ⟨early, late, before, behind, -⟩ := folds.preorder tree first
  exact ⟨⟨early, late, before, behind⟩, folds.first tree first⟩

/-- `x = i + i` with an increment of `i` at 2 and the second read of `i` on either side of it. -/
def twoReads (second : Offset) : Store :=
  ⟨#[⟨0, none, .read (.slot .int 1)⟩, ⟨second, none, .read (.slot .int 1)⟩, ⟨2, none, .bump 1 1⟩, ⟨6, none, .binary .add 0 1⟩,
    ⟨7, none, .write (.slot .int 2) 3⟩]⟩

def twoReadsFolded (second : Offset) : Store :=
  ⟨#[⟨0, none, .increment .post 5 1⟩, ⟨second, none, .read (.slot .int 1)⟩, ⟨2, none, .bump 1 1⟩,
    ⟨6, none, .binary .add 0 1⟩, ⟨7, none, .write (.slot .int 2) 3⟩, ⟨0, none, .read (.slot .int 1)⟩]⟩

theorem twoReads_keep_iff : KeepsReads (twoReads 5) 1 2 4 0 ∧ ¬ KeepsReads (twoReads 1) 1 2 4 0 := by
  have order (second : Offset) : (twoReads second).preorder 4 = [4, 3, 0, 1] := rfl
  have keeps (second : Offset) (folded : step [] (twoReads second) ⟨[], 2, [4]⟩ = (twoReadsFolded second, ⟨[], [4]⟩)) :
      KeepsReads (twoReads second) 1 2 4 0 ↔
        (∀ other own, (twoReads second).OtherRead 1 4 0 other own → 2 ≤ own) ∧ ¬ (twoReads second).Increments 4 0 := by
    obtain ⟨_, _, _, _, _, follows, _, first, _, _, keeps, _⟩ :=
      step_keeps_reads_iff (show (twoReads second).node? 2 = _ from rfl) rfl folded
    cases follows
    cases Option.some.inj (first.symm.trans (show _ = some 0 from rfl))
    exact keeps
  constructor
  · refine (keeps 5 rfl).mpr ⟨?_, ?_⟩
    · rintro other own ⟨inside, apart, reads, located⟩
      simp only [order, List.mem_cons, List.not_mem_nil, or_false] at inside
      rcases inside with rfl | rfl | rfl | rfl
      · cases reads
      · cases reads
      · exact absurd rfl apart
      · cases located
        decide
    · rintro ⟨parent, inside, position, delta, same⟩
      simp only [order, List.mem_cons, List.not_mem_nil, or_false] at inside
      rcases inside with rfl | rfl | rfl | rfl <;> cases same
  · intro holds
    have late := ((keeps 1 rfl).mp holds).1 1 1 ⟨by rw [order]; decide, by decide, rfl, rfl⟩
    exact absurd late (by decide)

/-- `++i; return ++i` with both increments folded into the one read. -/
def bumpTwice : Store :=
  ⟨#[⟨0, none, .bump 0 1⟩, ⟨3, none, .bump 0 1⟩, ⟨6, none, .read (.slot .int 0)⟩, ⟨7, none, .ret (some 2)⟩]⟩

/-- The second read comes before the increment but is met after it, and `++i` becomes the target of `++`. -/
theorem recover_misplaces_increment :
    recover [] ⟨twoReads 1, [2, 4]⟩ = ⟨twoReadsFolded 1, [4]⟩ ∧ (twoReads 1).OtherRead 1 4 0 1 1 ∧
      ¬ (twoReads 1).MeetsFirst 4 1 0 ∧ (recover [] ⟨bumpTwice, [0, 1, 3]⟩).statements = [3] ∧
      (recover [] ⟨bumpTwice, [0, 1, 3]⟩).store.kind? 2 = some (.increment .pre 4 1) ∧
      (recover [] ⟨bumpTwice, [0, 1, 3]⟩).store.kind? 4 = some (.increment .pre 5 1) := by
  exact ⟨rfl, ⟨by decide, by decide, rfl, rfl⟩, by decide, rfl, rfl, rfl⟩

end Increment

end ClassLift
