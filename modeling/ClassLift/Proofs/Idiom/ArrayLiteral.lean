import ClassLift.Idiom.ArrayLiteral
import ClassLift.Proofs.Idiom.Composite
import Mathlib.Data.List.Flatten

namespace ClassLift

namespace ArrayLiteral

open Composite Draft Store

inductive Holds (store : Store) (held array : NodeId) (count : Nat) : Prop
  | primitive {type : ValueType} {length : NodeId} {number : Int32} (found : store.kind? held = some (.dupStore array))
      (allocated : store.kind? array = some (.newArray type length))
      (counted : store.kind? length = some (.literal (.int number))) (same : number.toInt = count) :
      Holds store held array count
  | objects {type : PoolIndex} {length : NodeId} {number : Int32} (found : store.kind? held = some (.dupStore array))
      (allocated : store.kind? array = some (.newObjectArray type length))
      (counted : store.kind? length = some (.literal (.int number))) (same : number.toInt = count) :
      Holds store held array count

inductive Writes (store : Store) (held : NodeId) (index : Nat) (statement value : NodeId) : Prop
  | intro {type : ValueType} {array position : NodeId} {number : Int32}
      (found : store.kind? statement = some (.write (.element type array position) value))
      (target : store.kind? array = some (.dupLoad held)) (numbered : store.kind? position = some (.literal (.int number)))
      (same : number.toInt = index) : Writes store held index statement value

/-- The layout of a tree: an expression needs no code, an array is held, and then each element is computed and written. -/
inductive Compiles (store : Store) : Fragment NodeId → Prop
  | expression {root : NodeId} (free : store.DupFree root) : Compiles store ⟨.expression root, root, []⟩
  | array {held array use : NodeId} {elements : List (Fragment NodeId × NodeId)} (holds : Holds store held array elements.length)
      (nonempty : elements ≠ []) (parts : ∀ element ∈ elements, Compiles store element.1)
      (writes : ∀ index element, elements[index]? = some element → Writes store held index element.2 element.1.use)
      (repeats : store.kind? use = some (.dupLoad held)) :
      Compiles store ⟨.build array (elements.map (·.1.tree)), use,
        held :: elements.flatMap fun element => element.1.code ++ [element.2]⟩

section Layout

variable {store now : Store} {held array statement value source : NodeId} {count index : Nat} {sources code : List NodeId}

theorem Holds.found (holds : Holds store held array count) : store.kind? held = some (.dupStore array) := by
  cases holds <;> assumption

theorem Holds.settled (holds : Holds store held array count) (settled : Settled sources store now) :
    Holds now held array count := by
  cases holds with
  | primitive found allocated counted same =>
    exact .primitive (settled.kind?_of_ne found nofun) (settled.kind?_of_ne allocated nofun)
      (settled.kind?_of_ne counted nofun) same
  | objects found allocated counted same =>
    exact .objects (settled.kind?_of_ne found nofun) (settled.kind?_of_ne allocated nofun)
      (settled.kind?_of_ne counted nofun) same

theorem Holds.array_dupFree (holds : Holds store held array count) : store.DupFree array := by
  cases holds with
  | primitive _ allocated counted _ | objects _ allocated counted _ =>
    refine .of_children allocated nofun fun child member => ?_
    obtain rfl := List.mem_singleton.mp member
    exact .of_children counted nofun nofun

theorem Holds.dupFree (holds : Holds store held array count) : store.DupFree held := by
  refine .of_children holds.found nofun fun child member => ?_
  obtain rfl := List.mem_singleton.mp member
  exact holds.array_dupFree

theorem Holds.length? (holds : Holds store held array count) (positive : 0 < count) : length? store array = some count := by
  cases holds with
  | @primitive _ _ number _ allocated counted same | @objects _ _ number _ allocated counted same =>
    have above : 0 < number := by
      rw [Int32.lt_iff_toInt_lt, same]
      exact Int.natCast_pos.mpr positive
    simp [ArrayLiteral.length?, allocated, counted, above, same]

theorem Writes.settled (writes : Writes store held index statement value) (settled : Settled sources store now)
    (other : held ∉ sources) : Writes now held index statement value := by
  obtain ⟨found, target, numbered, same⟩ := writes
  exact ⟨settled.kind?_of_ne found nofun, settled.kind?_of_load target other, settled.kind?_of_ne numbered nofun, same⟩

theorem Writes.element? (writes : Writes store held index statement value) :
    element? store held statement index = some value := by
  obtain ⟨found, target, numbered, same⟩ := writes
  simp [ArrayLiteral.element?, found, numbered, isDupLoadOf_iff.mpr target, same]

theorem Writes.loads (writes : Writes store held index statement value) (computes : Computes store code value)
    (other : source ≠ held) : store.loads source statement = [value].filter (store.isDupLoadOf · source) := by
  cases writes with
  | @intro type array position number found target numbered same =>
    have free : store.DupFree position := .of_children numbered nofun nofun
    have array : store.isDupLoadOf array source = false := by
      rw [isDupLoadOf_of_load target, beq_eq_false_iff_ne]
      exact other.symm
    rw [loads_of_children found nofun]
    · change List.filter _ [_, position, value] = _
      rw [List.filter_cons, array, List.filter_cons, free.isDupLoadOf trivial]
      rfl
    · intro child member
      change child ∈ [_, position, value] at member
      simp only [List.mem_cons, List.not_mem_nil, or_false] at member
      rcases member with rfl | rfl | rfl
      · exact .inl ⟨held, target⟩
      · exact .inr free.avoids
      · rcases computes.used with free | ⟨named, _, load⟩
        · exact .inr free.avoids
        · exact .inl ⟨named, load⟩

theorem elements?_eq {elements : List (Fragment NodeId × NodeId)} {rest : List NodeId}
    (writes : ∀ offset element, elements[offset]? = some element → Writes store held (index + offset) element.2 element.1.use) :
    elements? store held index elements.length (elements.map Prod.snd ++ rest) = some (elements.map (·.1.use), rest) := by
  induction elements generalizing index with
  | nil => rfl
  | cons element others continues =>
    have here := (writes 0 element rfl).element?
    have onward : elements? store held (index + 1) others.length (others.map Prod.snd ++ rest) =
        some (others.map (·.1.use), rest) := by
      refine continues fun offset other found => ?_
      rw [Nat.add_right_comm]
      exact writes (offset + 1) other found
    rw [Nat.add_zero] at here
    simp [elements?, here, onward]

end Layout

/-! ## Recovery -/

section Recovery

variable {store now : Store} {part : Fragment NodeId} {held array use : NodeId} {elements : List (Fragment NodeId × NodeId)}

theorem Compiles.computes (compiles : Compiles store part) : Computes store part.code part.use := by
  induction compiles with
  | expression free => exact ⟨.inl free, nofun⟩
  | @array held array use elements holds _ _ writes repeats inner =>
    refine ⟨.inr ⟨held, List.mem_cons_self, repeats⟩, fun statement inside source other => ?_⟩
    obtain ⟨apart, outside⟩ := not_or.mp (mt List.mem_cons.mpr other)
    rcases List.mem_cons.mp inside with rfl | inside
    · exact holds.dupFree.loads trivial
    obtain ⟨element, member, inside⟩ := List.mem_flatMap.mp inside
    have elsewhere : source ∉ element.1.code := fun among =>
      outside (List.mem_flatMap.mpr ⟨element, member, List.mem_append_left _ among⟩)
    rcases List.mem_append.mp inside with inside | inside
    · exact (inner element member).closed statement inside source elsewhere
    · obtain rfl := List.mem_singleton.mp inside
      obtain ⟨index, located⟩ := List.getElem?_of_mem member
      rw [(writes index element located).loads (inner element member) apart, List.filter_singleton,
        (inner element member).isDupLoadOf elsewhere]
      rfl

theorem step_of_write {type : ValueType} {target position value statement : NodeId} {before after : List NodeId}
    (found : store.kind? statement = some (.write (.element type target position) value)) :
    step store ⟨before, statement, after⟩ = (store, ⟨before, statement :: after⟩) := by
  simp [step, found, Spot.keep]

theorem step_of_holds {before after : List NodeId} (holds : Holds store held array elements.length) (nonempty : elements ≠ [])
    (writes : ∀ index element, elements[index]? = some element → Writes store held index element.2 element.1.use)
    (used : (before ++ held :: after).flatMap (store.loads held) = [use]) :
    step store ⟨before.reverse, held, elements.map Prod.snd ++ after⟩ =
      (store.replace use (.arrayLiteral array (elements.map (·.1.use))), ⟨before.reverse, after⟩) := by
  have length := holds.length? (List.length_pos_iff.mpr nonempty)
  have found : elements? store held 0 elements.length (elements.map Prod.snd ++ after) = some (elements.map (·.1.use), after) :=
    elements?_eq fun index element located => (Nat.zero_add index).symm ▸ writes index element located
  rw [← map_snd_dupLoads, List.map_eq_singleton_iff] at used
  obtain ⟨⟨statement, node⟩, only, rfl⟩ := used
  simp [step, holds.found, match?, length, found, only]

theorem children_arrayLiteral (array : NodeId) (values : List NodeId) :
    (Kind.arrayLiteral array values).children = array :: values :=
  List.append_nil _

theorem elements_assembly {after : List NodeId}
    (recovers : ∀ element ∈ elements,
      Recovers (m := Id) (fun store spot => pure (step store spot)) Kind.arrayLiteral store element.1)
    (computes : ∀ element ∈ elements, Computes store element.1.code element.1.use)
    (writes : ∀ element ∈ elements, ∃ index, Writes store held index element.2 element.1.use)
    (distinct : (held :: elements.flatMap (·.1.code)).Nodup)
    (unused : ∀ source ∈ elements.flatMap (·.1.code), after.flatMap (store.loads source) = []) :
    Assembly (m := Id) (fun store spot => pure (step store spot)) Kind.arrayLiteral store
      (elements.map fun element => (element.1, [element.2])) after := by
  obtain ⟨outside, distinct⟩ := List.nodup_cons.mp distinct
  have loads {source : NodeId} (among : source ∈ elements.flatMap (·.1.code)) (element : Fragment NodeId × NodeId)
      (member : element ∈ elements) :
      store.loads source element.2 = [element.1.use].filter (store.isDupLoadOf · source) := by
    obtain ⟨index, write⟩ := writes element member
    exact write.loads (computes element member) fun same => outside (same ▸ among)
  refine ⟨?_, ?_, ?_, ?_, ?_, ?_⟩
  all_goals simp only [List.forall_mem_map, List.flatMap_map, List.mem_singleton, forall_eq]
  · exact recovers
  · exact computes
  · intro element member sources now settled before after
    obtain ⟨_, ⟨found, _⟩⟩ := writes element member
    exact congrArg pure (step_of_write (settled.kind?_of_ne found nofun))
  · intro element member source among elsewhere
    rw [loads among element member, List.filter_singleton, (computes element member).isDupLoadOf elsewhere]
    rfl
  · exact distinct
  · intro source among
    rw [List.flatMap_append, unused source among, List.append_nil, List.flatMap_assoc, List.map_map, List.map_eq_flatMap,
      List.filter_flatMap]
    refine List.flatMap_congr fun element member => ?_
    rw [List.flatMap_singleton]
    exact loads among element member

theorem Compiles.recovers (compiles : Compiles store part) (distinct : part.code.Nodup) :
    Recovers (m := Id) (fun store spot => pure (step store spot)) Kind.arrayLiteral store part := by
  induction compiles with
  | expression free =>
    intro before after sources now settled _ _ _
    exact ⟨now, .nil, .refl now, .expression _, settled.dupFree free⟩
  | @array held array use elements holds nonempty parts writes repeats inner =>
    have distinctCodes : (held :: elements.flatMap (·.1.code)).Nodup :=
      distinct.sublist (.cons_cons held (.flatMap_right elements fun element _ => List.sublist_append_left _ _))
    have written (element : Fragment NodeId × NodeId) (member : element ∈ elements) :
        ∃ index, Writes store held index element.2 element.1.use := by
      obtain ⟨index, located⟩ := List.getElem?_of_mem member
      exact ⟨index, writes index element located⟩
    have recovers (element : Fragment NodeId × NodeId) (member : element ∈ elements) :
        Recovers (m := Id) (fun store spot => pure (step store spot)) Kind.arrayLiteral store element.1 :=
      inner element member ((List.nodup_flatMap.mp (List.nodup_cons.mp distinctCodes).2).1 element member)
    have scaffold : Scaffold (m := Id) (fun store spot => pure (step store spot)) Kind.arrayLiteral store array held use
        (elements.map fun element => (element.1, [element.2])) [] := by
      refine ⟨repeats, holds.dupFree, ?_, ?_, nofun, ?_, ?_⟩
      all_goals simp only [List.flatMap_map, List.map_map, List.forall_mem_map]
      · exact distinctCodes
      · intro after
        exact elements_assembly recovers (fun element member => (parts element member).computes) written distinctCodes
      · intro sources now settled free
        rw [children_arrayLiteral, List.forall_mem_cons, List.forall_mem_map]
        exact ⟨settled.dupFree holds.array_dupFree, free⟩
      · intro sources now settled other before after only
        rw [← List.map_eq_flatMap]
        exact congrArg pure (step_of_holds (holds.settled settled) nonempty
          (fun index element located => (writes index element located).settled settled other) only)
    have whole := scaffold.recovers nofun
    simp only [List.flatMap_map, List.map_map, List.append_nil] at whole
    exact whole

theorem length?_pos {count : Nat} (found : length? store array = some count) : 0 < count := by
  unfold length? at found
  split at found
  case h_3 => cases found
  all_goals
    split at found
    case h_2 => cases found
    split at found
    case isFalse => cases found
    case isTrue above =>
      cases found
      have above := Int32.lt_iff_toInt_lt.mp above
      exact Int.pos_iff_toNat_pos.mp above

theorem step_of_last (store : Store) (before : List NodeId) (last : NodeId) :
    step store ⟨before, last, []⟩ = (store, ⟨before, [last]⟩) := by
  have unmatched (array : NodeId) : match? store ⟨before, last, []⟩ array = none := by
    unfold match?
    cases length : length? store array with
    | none => rfl
    | some count =>
      obtain ⟨less, rfl⟩ := Nat.exists_eq_add_one_of_ne_zero (Nat.ne_of_gt (length?_pos length))
      rfl
  unfold step
  split
  · rw [unmatched]
    rfl
  · rfl

/-- Array literals of any shape are recovered. Of their code and the statement that uses the array only that statement is left,
and the tree of literals stands in the place of the use. -/
theorem recover_nested {last : NodeId} (compiles : Compiles store part) (distinct : part.code.Nodup)
    (only : OnlyUse store part.code last part.use) :
    ∃ result, recover ⟨store, part.code ++ [last]⟩ = ⟨result, [last]⟩ ∧
      Stands result Kind.arrayLiteral part.tree part.use ∧
      ∀ id, (∀ held ∈ part.code, store.kind? id ≠ some (.dupLoad held)) → result.node? id = store.node? id := by
  obtain ⟨result, swept, settled, stands⟩ := (compiles.recovers distinct).sweep only fun before =>
    congrArg pure (step_of_last store before last)
  exact ⟨result, swept, stands, settled.node?⟩

end Recovery

/-- `a = {{b, 7}, {3}}`. -/
def matrix : Store :=
  ⟨#[⟨0, none, .literal (.int 2)⟩, ⟨1, none, .newObjectArray 5 0⟩, ⟨2, none, .dupStore 1⟩,
    ⟨3, none, .literal (.int 2)⟩, ⟨4, none, .newArray .int 3⟩, ⟨5, none, .dupStore 4⟩,
    ⟨6, none, .dupLoad 5⟩, ⟨7, none, .literal (.int 0)⟩, ⟨8, none, .read (.slot .int 1)⟩,
    ⟨9, none, .write (.element .int 6 7) 8⟩,
    ⟨10, none, .dupLoad 5⟩, ⟨11, none, .literal (.int 1)⟩, ⟨12, none, .literal (.int 7)⟩,
    ⟨13, none, .write (.element .int 10 11) 12⟩,
    ⟨14, none, .dupLoad 2⟩, ⟨15, none, .literal (.int 0)⟩, ⟨16, none, .dupLoad 5⟩,
    ⟨17, none, .write (.element .reference 14 15) 16⟩,
    ⟨18, none, .literal (.int 1)⟩, ⟨19, none, .newArray .int 18⟩, ⟨20, none, .dupStore 19⟩,
    ⟨21, none, .dupLoad 20⟩, ⟨22, none, .literal (.int 0)⟩, ⟨23, none, .literal (.int 3)⟩,
    ⟨24, none, .write (.element .int 21 22) 23⟩,
    ⟨25, none, .dupLoad 2⟩, ⟨26, none, .literal (.int 1)⟩, ⟨27, none, .dupLoad 20⟩,
    ⟨28, none, .write (.element .reference 25 26) 27⟩,
    ⟨29, none, .dupLoad 2⟩, ⟨30, none, .write (.slot .reference 2) 29⟩]⟩

theorem matrix_compiles : Compiles matrix
    ⟨.build 1 [.build 4 [.expression 8, .expression 12], .build 19 [.expression 23]], 29, [2, 5, 9, 13, 17, 20, 24, 28]⟩ := by
  have first : Compiles matrix ⟨.build 4 [.expression 8, .expression 12], 16, [5, 9, 13]⟩ := by
    refine @Compiles.array matrix 5 4 16 [(⟨.expression 8, 8, []⟩, 9), (⟨.expression 12, 12, []⟩, 13)]
      (.primitive rfl rfl rfl rfl) nofun ?_ ?_ rfl
    · simp only [List.forall_mem_cons]
      exact ⟨.expression (.of_children rfl nofun nofun), .expression (.of_children rfl nofun nofun), nofun⟩
    · rintro (_ | _ | index) element located <;> cases located <;> exact ⟨rfl, rfl, rfl, rfl⟩
  have second : Compiles matrix ⟨.build 19 [.expression 23], 27, [20, 24]⟩ := by
    refine @Compiles.array matrix 20 19 27 [(⟨.expression 23, 23, []⟩, 24)] (.primitive rfl rfl rfl rfl) nofun ?_ ?_ rfl
    · simp only [List.forall_mem_cons]
      exact ⟨.expression (.of_children rfl nofun nofun), nofun⟩
    · rintro (_ | index) element located <;> cases located
      exact ⟨rfl, rfl, rfl, rfl⟩
  refine @Compiles.array matrix 2 1 29 [(⟨.build 4 [.expression 8, .expression 12], 16, [5, 9, 13]⟩, 17),
    (⟨.build 19 [.expression 23], 27, [20, 24]⟩, 28)] (.objects rfl rfl rfl rfl) nofun ?_ ?_ rfl
  · simp only [List.forall_mem_cons]
    exact ⟨first, second, nofun⟩
  · rintro (_ | _ | index) element located <;> cases located <;> exact ⟨rfl, rfl, rfl, rfl⟩

theorem matrix_recovered : OnlyUse matrix [2, 5, 9, 13, 17, 20, 24, 28] 30 29 ∧
    ∃ result, recover ⟨matrix, [2, 5, 9, 13, 17, 20, 24, 28, 30]⟩ = ⟨result, [30]⟩ ∧
      Stands result Kind.arrayLiteral
        (.build 1 [.build 4 [.expression 8, .expression 12], .build 19 [.expression 23]]) 29 := by
  have only : OnlyUse matrix [2, 5, 9, 13, 17, 20, 24, 28] 30 29 := by unfold OnlyUse; decide
  obtain ⟨result, recovered, stands, _⟩ := recover_nested matrix_compiles (by decide) only
  exact ⟨only, result, recovered, stands⟩

end ArrayLiteral

end ClassLift
