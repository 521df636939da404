import ClassLift.Proofs.Action
import ClassLift.Proofs.Body.Store
import ClassLift.Proofs.Structure.Layout
import Mathlib.Data.List.Forall2

/-!
# Where the keys of a switch lead

A raw switch leads from every key to a position. A structured one selects an arm, or none and goes on behind the switch. The
arms are found by position, and a position outside of the region or at the end of the switch has no arm. Then a key that has a
case of its own falls to the default arm. `Region.switch_lands_iff` tells exactly which keys go astray.
-/

namespace ClassLift

def Listing.switchTarget (listing : Listing) (default : Offset) (cases : List (Int32 × Offset)) (key : Int32) : Nat :=
  listing.positionOf ((cases.lookup key).getD default)

namespace Region

/-- Where a structured switch leads from a key: to the start of the arm that lists the key, or else of the arm marked as default,
or else behind the switch. -/
def landing (starts : List Nat) (resume : Nat) (arms : List SwitchArm) (key : Int32) : Nat :=
  let arms := starts.zip arms
  (((arms.find? fun (_, arm) => arm.values.contains key).or (arms.find? fun (_, arm) => arm.isDefault)).map (·.1)).getD resume

/-- The keys for which a switch between `position` and `resume` has no way to the right place: those that lead out of the region,
and those with a case that leads behind the switch while there is a default arm. -/
def Strays (position stop resume default : Nat) (listed : Bool) (target : Nat) : Prop :=
  target ≤ position ∨ stop < target ∨ target = resume ∧ listed = true ∧ position < default ∧ default < resume

instance (position stop resume default : Nat) (listed : Bool) (target : Nat) :
    Decidable (Strays position stop resume default listed target) :=
  inferInstanceAs (Decidable (_ ∨ _ ∨ _))

structure ArmFrom (recur : Recur) (default resume : Nat) (cases : List (Int32 × Nat)) (jumps : Jumps) (start : Nat)
    (arm : SwitchArm) : Prop extends IsArm default resume cases start arm where
  body : ∃ stop before after, stop ≤ resume ∧ recur start stop jumps before = (.ok arm.body, after)

variable {listing : Listing} {recur : Recur} {position stop resume default : Nat} {cases : List (Int32 × Nat)} {jumps : Jumps}
variable {starts : List Nat} {arms : List SwitchArm} {state last : State} {key : Int32}

theorem arms_ok (ran : Region.arms recur default resume cases jumps starts state = (.ok arms, last)) :
    List.Forall₂ (ArmFrom recur default resume cases jumps) (starts.takeWhile (· < resume)) arms := by
  induction starts generalizing state arms with
  | nil =>
    obtain ⟨rfl, rfl⟩ := pure_ok.mp ran
    exact .nil
  | cons start rest continues =>
    unfold Region.arms at ran
    by_cases outside : resume ≤ start
    · rw [if_pos outside] at ran
      obtain ⟨rfl, rfl⟩ := pure_ok.mp ran
      rw [List.takeWhile_cons_of_neg (by simpa using outside)]
      exact .nil
    · rw [if_neg outside] at ran
      obtain ⟨body, between, ranBody, ran⟩ := bind_ok.mp ran
      obtain ⟨others, final, ranOthers, ran⟩ := bind_ok.mp ran
      obtain ⟨rfl, rfl⟩ := pure_ok.mp ran
      have inside : start < resume := Nat.lt_of_not_le outside
      have bounded : rest.head?.elim resume (min resume) ≤ resume := by
        cases rest with
        | nil => exact Nat.le_refl _
        | cons next _ => exact Nat.min_le_left _ _
      rw [List.takeWhile_cons_of_pos (by simpa using inside)]
      exact .cons ⟨⟨inside, rfl, rfl⟩, _, _, _, bounded, ranBody⟩ (continues ranOthers)

theorem find?_zip {listed : SwitchArm → Bool} {begins : Nat → Bool}
    (arranged : List.Forall₂ (fun start arm => listed arm = begins start) starts arms) :
    ((starts.zip arms).find? fun (_, arm) => listed arm).map (·.1) = starts.find? begins := by
  induction arranged with
  | nil => rfl
  | @cons start arm starts arms same _ continues =>
    rw [List.zip_cons_cons, List.find?_cons, List.find?_cons]
    simp only [same]
    cases begins start with
    | true => rfl
    | false => exact continues

theorem landing_eq (arranged : List.Forall₂ (IsArm default resume cases) starts arms) :
    landing starts resume arms key =
      ((starts.find? fun start => (key, start) ∈ cases).or (starts.find? (· = default))).getD resume := by
  have listing : List.Forall₂ (fun start arm => arm.values.contains key = decide ((key, start) ∈ cases)) starts arms := by
    refine arranged.imp fun start arm isArm => ?_
    rw [isArm.values, Bool.eq_iff_iff]
    simp
  have marking : List.Forall₂ (fun start arm => arm.isDefault = decide (start = default)) starts arms := by
    refine arranged.imp fun start arm isArm => ?_
    rw [isArm.isDefault]
    exact decide_eq_decide.mpr eq_comm
  unfold landing
  simp only [Option.map_or]
  rw [find?_zip listing, find?_zip marking]

theorem mem_cases_iff {target : Nat} (distinct : (cases.map (·.1)).Nodup) :
    (key, target) ∈ cases ↔ cases.lookup key = some target := by
  induction cases with
  | nil => simp
  | cons first rest continues =>
    obtain ⟨value, start⟩ := first
    obtain ⟨fresh, distinctRest⟩ := List.nodup_cons.mp distinct
    rw [List.lookup_cons, List.mem_cons, continues distinctRest]
    by_cases same : key = value
    · subst same
      have missing : rest.lookup key ≠ some target := by
        rw [ne_eq, ← continues distinctRest]
        exact fun member => fresh (List.mem_map.mpr ⟨_, member, rfl⟩)
      simp [missing, eq_comm]
    · simp [same, beq_false_of_ne same]

theorem find?_eq_ite (starts : List Nat) (target : Nat) :
    starts.find? (· = target) = if target ∈ starts then some target else none := by
  induction starts with
  | nil => rfl
  | cons start rest continues =>
    by_cases same : start = target
    · simp [same]
    · simp [same, Ne.symm same, continues]

theorem find?_case {target : Nat} (distinct : (cases.map (·.1)).Nodup) (found : cases.lookup key = some target) :
    starts.find? (fun start => (key, start) ∈ cases) = if target ∈ starts then some target else none := by
  have only (start : Nat) : (key, start) ∈ cases ↔ start = target := by
    rw [mem_cases_iff distinct, found, Option.some_inj, eq_comm]
  simp only [only]
  exact find?_eq_ite starts target

theorem landing_iff (arranged : List.Forall₂ (IsArm default resume cases) starts arms) (distinct : (cases.map (·.1)).Nodup)
    (members : ∀ start, start ∈ starts ↔
      (start = default ∨ ∃ value, (value, start) ∈ cases) ∧ position < start ∧ start < resume)
    (ahead : position < resume) (inside : resume ≤ stop)
    (closes : ∀ start, (start = default ∨ ∃ value, (value, start) ∈ cases) → position < start → start ≤ stop → start ≤ resume) :
    landing starts resume arms key = (cases.lookup key).getD default ↔
      ¬ Strays position stop resume default (cases.lookup key).isSome ((cases.lookup key).getD default) := by
  have byDefault : default ∈ starts ↔ position < default ∧ default < resume := by simp [members]
  have closesDefault := closes default (.inl rfl)
  rw [landing_eq arranged, find?_eq_ite starts default]
  unfold Strays
  cases found : cases.lookup key with
  | none =>
    have unlisted : starts.find? (fun start => (key, start) ∈ cases) = none := by
      simp [mem_cases_iff distinct, found]
    rw [unlisted]
    simp only [Option.none_or, Option.getD_none, Option.isSome_none]
    split
    next present =>
      have := byDefault.mp present
      simp
      omega
    next absent =>
      have := mt byDefault.mpr absent
      simp
      omega
  | some target =>
    have listed : ∃ value, (value, target) ∈ cases := ⟨key, (mem_cases_iff distinct).mpr found⟩
    have byCase : target ∈ starts ↔ position < target ∧ target < resume := by simp [members, listed]
    have closesCase := closes target (.inr listed)
    rw [find?_case distinct found]
    simp only [Option.getD_some, Option.isSome_some]
    split
    next present =>
      have := byCase.mp present
      simp
      omega
    next absent =>
      -- The case has no arm, so that a default arm takes the key.
      have := mt byCase.mpr absent
      split
      next present =>
        have := byDefault.mp present
        simp
        omega
      next absent =>
        have := mt byDefault.mpr absent
        simp
        omega

theorem lookup_positions (cases : List (Int32 × Offset)) (key : Int32) :
    (cases.map fun (value, target) => (value, listing.positionOf target)).lookup key =
      (cases.lookup key).map listing.positionOf := by
  induction cases with
  | nil => rfl
  | cons first rest continues =>
    obtain ⟨value, target⟩ := first
    rw [List.map_cons, List.lookup_cons, List.lookup_cons]
    cases key == value with
    | true => rfl
    | false => exact continues

theorem mem_takeWhile_lt (increasing : starts.Pairwise (· < ·)) {start : Nat} :
    start ∈ starts.takeWhile (· < resume) ↔ start ∈ starts ∧ start < resume := by
  induction starts with
  | nil => simp
  | cons first rest continues =>
    obtain ⟨least, increasingRest⟩ := List.pairwise_cons.mp increasing
    by_cases inside : first < resume
    · rw [List.takeWhile_cons_of_pos (by simpa using inside), List.mem_cons, List.mem_cons, continues increasingRest]
      constructor
      · rintro (rfl | ⟨member, below⟩)
        · exact ⟨.inl rfl, inside⟩
        · exact ⟨.inr member, below⟩
      · rintro ⟨rfl | member, below⟩
        · exact .inl rfl
        · exact .inr ⟨member, below⟩
    · rw [List.takeWhile_cons_of_neg (by simpa using inside)]
      refine ⟨nofun, fun ⟨member, below⟩ => ?_⟩
      rcases List.mem_cons.mp member with rfl | member
      · exact absurd below inside
      · have := least start member
        omega

theorem le_of_getLast? {start final : Nat} (increasing : starts.Pairwise (· < ·)) (isLast : starts.getLast? = some final)
    (member : start ∈ starts) : start ≤ final := by
  obtain ⟨earlier, rfl⟩ := List.getLast?_eq_some_iff.mp isLast
  rcases List.mem_append.mp member with inside | same
  · exact Nat.le_of_lt ((List.pairwise_append.mp increasing).2.2 start inside final List.mem_cons_self)
  · exact Nat.le_of_eq (List.mem_singleton.mp same)

section Switch

variable {out body : List NodeId} {statement subject : NodeId} {fallback : Offset} {raw : List (Int32 × Offset)}

theorem switch_ok
    (ran : switch listing recur position stop jumps out statement subject fallback raw state = (.ok (resume, body), last)) :
    last = state ∨ ∃ final arms between,
      (armStarts position stop (listing.positionOf fallback)
        (raw.map fun (value, target) => (value, listing.positionOf target))).getLast? = some final ∧
      final ≤ resume ∧ resume ≤ stop ∧
      Region.arms recur (listing.positionOf fallback) resume
        (raw.map fun (value, target) => (value, listing.positionOf target)) { jumps with breakTo := some resume }
        (armStarts position stop (listing.positionOf fallback)
          (raw.map fun (value, target) => (value, listing.positionOf target))) state = (.ok arms, between) ∧
      last = { between with store := between.store.replace statement (.switchArms subject arms) } := by
  unfold switch at ran
  simp only at ran
  generalize raw.map _ = casesAt at ran ⊢
  generalize started : armStarts position stop (listing.positionOf fallback) casesAt = starts at ran ⊢
  cases isLast : starts.getLast? with
  | none =>
    simp only [isLast] at ran
    exact .inl (pure_ok.mp ran).2.symm
  | some final =>
    simp only [isLast, run_get_bind] at ran
    obtain ⟨arms, between, ranArms, ran⟩ := bind_ok.mp ran
    obtain ⟨_, replaced, replaces, ran⟩ := bind_ok.mp ran
    obtain ⟨⟨rfl, rfl⟩, rfl⟩ := pure_pair_ok.mp ran
    have inside := (mem_armStarts.mp (started ▸ List.mem_of_getLast? isLast)).2.2
    have ends := switchEnd_bounds listing state.store position (listing.positionOf fallback) casesAt inside
    exact .inr ⟨final, arms, between, rfl, ends.1, ends.2, ranArms, (modify_ok.mp replaces).symm⟩

/-- A structured switch has the key of the raw one and arms with known starts, and it leads a key where the raw one did exactly
unless the key strays. -/
theorem switch_lands_iff {found : NodeId} {arms : List SwitchArm}
    (ran : switch listing recur position stop jumps out statement subject fallback raw state = (.ok (resume, body), last))
    (given : state.store.kind? statement = some (.switch subject fallback raw)) (distinct : (raw.map (·.1)).Nodup)
    (made : last.store.kind? statement = some (.switchArms found arms)) :
    found = subject ∧ position < resume ∧ resume ≤ stop ∧ ∃ starts,
      List.Forall₂ (ArmFrom recur (listing.positionOf fallback) resume
        (raw.map fun (value, target) => (value, listing.positionOf target)) { jumps with breakTo := some resume }) starts arms ∧
      ∀ key, landing starts resume arms key = listing.switchTarget fallback raw key ↔
        ¬ Strays position stop resume (listing.positionOf fallback) (raw.lookup key).isSome
          (listing.switchTarget fallback raw key) := by
  rcases switch_ok ran with rfl | ⟨final, built, between, isLast, closes, inside, ranArms, rfl⟩
  · rw [given] at made
    cases made
  · have present := Store.lt_size_of_kind? made
    rw [Store.kind?_replace_self (by simpa [Store.size, Store.replace] using present)] at made
    cases made
    have arranged := arms_ok ranArms
    have increasing := (armStarts_increasing position stop (listing.positionOf fallback)
      (raw.map fun (value, target) => (value, listing.positionOf target))).1
    have ahead := (mem_armStarts.mp (List.mem_of_getLast? isLast)).2.1
    refine ⟨rfl, by omega, inside, _, arranged, fun key => ?_⟩
    have targets : listing.switchTarget fallback raw key =
        ((raw.map fun (value, target) => (value, listing.positionOf target)).lookup key).getD (listing.positionOf fallback) := by
      rw [lookup_positions, Listing.switchTarget]
      cases raw.lookup key <;> rfl
    have listed : (raw.lookup key).isSome =
        ((raw.map fun (value, target) => (value, listing.positionOf target)).lookup key).isSome := by
      rw [lookup_positions, Option.isSome_map]
    rw [targets, listed]
    refine landing_iff (arranged.imp fun _ _ => ArmFrom.toIsArm) ?_ (fun start => ?_) (by omega) inside
      fun start leads above below => ?_
    · simpa [Function.comp_def] using distinct
    · rw [mem_takeWhile_lt increasing, mem_armStarts]
      constructor
      · rintro ⟨⟨leads, above, _⟩, below⟩
        exact ⟨leads, above, below⟩
      · rintro ⟨leads, above, below⟩
        exact ⟨⟨leads, above, by omega⟩, below⟩
    · have member := mem_armStarts.mpr ⟨leads, above, below⟩
      exact Nat.le_trans (le_of_getLast? increasing isLast member) closes

end Switch

/-! A switch whose default comes before an empty last case, `case 1: …; break; default: …; break; case 5:`. The case of 5 leads to
the end of the switch. -/

def emptyCase : Store :=
  ⟨#[⟨0, none, .read (.slot .int 0)⟩, ⟨1, none, .switch 0 27 [(1, 20), (5, 33)]⟩, ⟨20, none, .bump 1 5⟩, ⟨23, none, .goto 33⟩,
    ⟨27, none, .bump 1 7⟩, ⟨30, none, .goto 33⟩, ⟨33, none, .ret none⟩]⟩

def emptyCaseListing : Listing := .ofStatements emptyCase [1, 2, 3, 4, 5, 6] 2

def emptyCaseArms : List SwitchArm := [⟨[1], false, [2, 3]⟩, ⟨[], true, [4]⟩]

def emptyCaseBuilt : Store := (emptyCase.replace 3 .breakOut).replace 1 (.switchArms 0 emptyCaseArms)

theorem switch_emptyCase :
    switch emptyCaseListing (fun first stop jumps => regionFrom emptyCaseListing 5 first stop jumps []) 0 6 {} [] 1 0 27
      [(1, 20), (5, 33)] ⟨emptyCase, []⟩ = (.ok (5, [1]), ⟨emptyCaseBuilt, []⟩) := by
  have default : emptyCaseListing.positionOf 27 = 3 := by with_unfolding_all rfl
  have first : emptyCaseListing.positionOf 20 = 1 := by with_unfolding_all rfl
  have second : emptyCaseListing.positionOf 33 = 5 := by with_unfolding_all rfl
  have starts : armStarts 0 6 3 [(1, 1), (5, 5)] = [1, 3, 5] := by
    simp [armStarts, List.mergeSort, List.eraseReps, List.eraseRepsBy, List.eraseRepsBy.loop]
  simp only [switch, List.map_cons, List.map_nil, default, first, second, starts]
  with_unfolding_all rfl

theorem emptyCase_lands_iff :
    ∃ starts, landing starts 5 emptyCaseArms 1 = 1 ∧ landing starts 5 emptyCaseArms 2 = 3 ∧
      landing starts 5 emptyCaseArms 5 ≠ emptyCaseListing.switchTarget 27 [(1, 20), (5, 33)] 5 := by
  obtain ⟨_, _, _, starts, _, lands⟩ := switch_lands_iff switch_emptyCase rfl (by decide) rfl
  have first := (lands 1).mpr (by decide +kernel)
  have other := (lands 2).mpr (by decide +kernel)
  have strays := mt (lands 5).mp (by decide +kernel)
  exact ⟨starts, first.trans (by decide +kernel), other.trans (by decide +kernel), strays⟩

/-- Building goes on at 5, where the case of 5 led, but the key 5 is sent to the default arm at 3. -/
theorem build_misroutes_case :
    build emptyCase [1, 2, 3, 4, 5, 6] [] 2 = (.ok [1, 6], emptyCaseBuilt) ∧
      emptyCaseBuilt.kind? 1 = some (.switchArms 0 emptyCaseArms) ∧
      emptyCaseListing.switchTarget 27 [(1, 20), (5, 33)] 5 = 5 ∧ landing [1, 3] 5 emptyCaseArms 5 = 3 := by
  have first := (statement_eq_switch rfl rfl rfl (by with_unfolding_all rfl)).trans switch_emptyCase
  have built : regionFrom emptyCaseListing 6 0 6 {} [] ⟨emptyCase, []⟩ = (.ok [1, 6], ⟨emptyCaseBuilt, []⟩) := by
    refine bind_ok.mpr ⟨_, _, first, ?_⟩
    with_unfolding_all rfl
  exact ⟨build_eq_of_region built, rfl, by decide +kernel, by decide⟩

end Region

end ClassLift
