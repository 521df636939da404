import ClassLift.Proofs.Body.Reach
import ClassLift.Proofs.Survey.Evolution
import ClassLift.Structure.Method
import Mathlib.Data.List.Forall2

namespace ClassLift

/-! ## Slots of parameters -/

namespace Descriptor

def frame : Nat → List String → List Nat
  | _, [] => []
  | slot, parameter :: rest => slot :: frame (slot + slots parameter) rest

def frameEnd : Nat → List String → Nat
  | slot, [] => slot
  | slot, parameter :: rest => frameEnd (slot + slots parameter) rest

variable {slot other : Nat} {parameter : String} {parameters : List String}

theorem slots_pos (parameter : String) : 0 < slots parameter := by
  unfold slots
  split <;> decide

theorem frameEnd_cons : frameEnd slot (parameter :: parameters) = frameEnd (slot + slots parameter) parameters := rfl

theorem le_frameEnd : slot ≤ frameEnd slot parameters := by
  induction parameters generalizing slot with
  | nil => exact Nat.le_refl slot
  | cons parameter rest continues => exact Nat.le_trans (Nat.le_add_right _ _) continues

theorem mem_frame (inside : other ∈ frame slot parameters) : slot ≤ other ∧ other < frameEnd slot parameters := by
  induction parameters generalizing slot with
  | nil => cases inside
  | cons parameter rest continues =>
    have wide := slots_pos parameter
    have behind : slot + slots parameter ≤ frameEnd (slot + slots parameter) rest := le_frameEnd
    rw [frameEnd_cons]
    rcases List.mem_cons.mp inside with rfl | inside
    · omega
    · have bounds := continues inside
      omega

theorem frame_increasing (slot : Nat) (parameters : List String) : (frame slot parameters).Pairwise (· < ·) := by
  induction parameters generalizing slot with
  | nil => exact .nil
  | cons parameter rest continues =>
    refine .cons (fun other inside => ?_) (continues _)
    have wide := slots_pos parameter
    have bounds := mem_frame inside
    omega

end Descriptor

def Method.firstParameter (method : Method) : Nat := if method.access.isStatic then 0 else 1

theorem toNat_firstLocal {method : Method} {types : List String}
    (room : Descriptor.frameEnd method.firstParameter types ≤ 65535) :
    (firstLocal method.access.isStatic types).toNat = Descriptor.frameEnd method.firstParameter types := by
  have total (start : Nat) : types.foldl (fun slots parameter => slots + Descriptor.slots parameter) start =
      Descriptor.frameEnd start types := by
    clear room
    induction types generalizing start with
    | nil => rfl
    | cons type rest continues => rw [List.foldl_cons, continues, Descriptor.frameEnd_cons]
  change (UInt16.ofNat (min (types.foldl (fun slots parameter => slots + Descriptor.slots parameter)
    method.firstParameter) 65535)).toNat = _
  rw [total, Nat.min_eq_left room, UInt16.toNat_ofNat_of_lt' (Nat.lt_succ_of_le room)]

/-! ## Slots that a body writes -/

def Kind.Writes (kind : Kind) (slot : Slot) : Prop :=
  (∃ type value, kind = .write (.slot type slot) value) ∨ ∃ delta, kind = .bump slot delta

def Method.Writes (method : Method) (slot : Slot) : Prop :=
  ∃ code, method.code = some code ∧ ∃ root ∈ code.instructions, ∃ id kind, code.store.Reaches root id ∧
    code.store.kind? id = some kind ∧ kind.Writes slot

namespace LocalNames

section Slots

variable {pool : Pool} {code : Code} {slot : Slot}

theorem written?_iff {store : Store} {kind : Kind} :
    (∃ descriptor, written? pool store kind = some (slot, descriptor)) ↔ kind.Writes slot := by
  unfold Kind.Writes
  constructor
  · rintro ⟨descriptor, found⟩
    unfold written? at found
    split at found
    · cases found
      exact .inl ⟨_, _, rfl⟩
    · cases found
      exact .inr ⟨_, rfl⟩
    · cases found
  · rintro (⟨type, value, rfl⟩ | ⟨delta, rfl⟩)
    · exact ⟨_, rfl⟩
    · exact ⟨_, rfl⟩

theorem foldl_firstWrites {writes found : List (Slot × String)} (distinct : (found.map Prod.fst).Nodup) :
    let result := writes.foldl (fun found write => if found.any (·.1 == write.1) then found else found ++ [write]) found
    (result.map Prod.fst).Nodup ∧ ∀ slot, slot ∈ result.map Prod.fst ↔ slot ∈ (found ++ writes).map Prod.fst := by
  induction writes generalizing found with
  | nil => simpa using distinct
  | cons write rest continues =>
    rw [List.foldl_cons]
    by_cases known : write.1 ∈ found.map Prod.fst
    · have seen : found.any (·.1 == write.1) = true := by
        obtain ⟨earlier, among, same⟩ := List.mem_map.mp known
        exact List.any_eq_true.mpr ⟨earlier, among, by simp [same]⟩
      rw [if_pos seen]
      refine ⟨(continues distinct).1, fun slot => ((continues distinct).2 slot).trans ?_⟩
      simp only [List.map_append, List.map_cons, List.mem_append, List.mem_cons]
      grind
    · have unseen : ¬ found.any (·.1 == write.1) = true := by
        intro seen
        obtain ⟨earlier, among, same⟩ := List.any_eq_true.mp seen
        exact known (List.mem_map.mpr ⟨earlier, among, eq_of_beq same⟩)
      have longer : ((found ++ [write]).map Prod.fst).Nodup := by
        rw [List.map_append, List.nodup_append']
        exact ⟨distinct, by simp, by simpa using known⟩
      rw [if_neg unseen]
      refine ⟨(continues longer).1, fun slot => ((continues longer).2 slot).trans ?_⟩
      simp

theorem firstWrites_slots (writes : List (Slot × String)) : ((firstWrites writes).map Prod.fst).Nodup ∧
    ∀ slot, slot ∈ (firstWrites writes).map Prod.fst ↔ slot ∈ writes.map Prod.fst :=
  foldl_firstWrites List.nodup_nil

theorem slotsOf_increasing (pool : Pool) (code : Code) : ((slotsOf pool code).map Prod.fst).Pairwise (· < ·) := by
  have sorted : (slotsOf pool code).Pairwise fun one other => decide (one.1 ≤ other.1) = true :=
    List.pairwise_mergeSort (fun one other third => by simpa using UInt16.le_trans)
      (fun one other => by simpa using UInt16.le_total one.1 other.1) _
  have distinct : ((slotsOf pool code).map Prod.fst).Nodup :=
    ((List.mergeSort_perm _ _).map Prod.fst).nodup_iff.mpr (firstWrites_slots _).1
  refine List.pairwise_map.mpr ((sorted.and (List.pairwise_map.mp distinct)).imp ?_)
  rintro one other ⟨le, ne⟩
  exact UInt16.lt_of_le_of_ne (by simpa using le) ne

theorem mem_slotsOf : slot ∈ (slotsOf pool code).map Prod.fst ↔
    ∃ root ∈ code.instructions, ∃ id kind, code.store.Reaches root id ∧ code.store.kind? id = some kind ∧ kind.Writes slot := by
  have listed : slot ∈ (slotsOf pool code).map Prod.fst ↔
      ∃ node ∈ nodesOf code, ∃ descriptor, written? pool code.store node.kind = some (slot, descriptor) := by
    unfold slotsOf
    rw [((List.mergeSort_perm _ _).map Prod.fst).mem_iff, (firstWrites_slots _).2 slot]
    simp only [List.mem_map, List.mem_filterMap, Prod.exists, exists_and_right, exists_eq_right]
    grind
  rw [listed]
  simp only [written?_iff, nodesOf, List.mem_filterMap, List.mem_flatMap, Store.mem_preorder_iff_reaches]
  constructor
  · rintro ⟨node, ⟨id, ⟨root, member, reached, _⟩, located⟩, writes⟩
    exact ⟨root, member, id, node.kind, reached, Store.kind?_of_node? located, writes⟩
  · rintro ⟨root, member, id, kind, reached, found, writes⟩
    obtain ⟨node, located, rfl⟩ := Store.kind?_eq_some.mp found
    exact ⟨node, ⟨id, ⟨root, member, reached, Store.lt_size_of_node? located⟩, located⟩, writes⟩

end Slots

/-! ## Names -/

theorem numbered_injective (base : String) :
    Function.Injective fun number : Nat => if number = 0 then base else base ++ toString number := by
  have value (number : Nat) : Nat.ofDigitChars 10 (toString number).toList 0 = number := by simp
  have nonempty (number : Nat) : toString number ≠ "" := by simp
  intro number other same
  by_cases first : number = 0 <;> by_cases second : other = 0 <;> simp only [first, second, if_true, if_false] at same ⊢
  · exact absurd (String.append_right_inj base |>.mp (by simpa using same.symm)) (nonempty other)
  · exact absurd (String.append_right_inj base |>.mp (by simp at same)) (nonempty number)
  · rw [← value number, String.append_right_inj base |>.mp same, value]

theorem fresh_not_mem (used : List String) (word descriptor : String) : fresh used word descriptor ∉ used := by
  unfold fresh
  extract_lets base candidate
  have injective : Function.Injective candidate := numbered_injective base
  cases search : ((List.range (used.length + 1)).map candidate).find? (!used.contains ·) with
  | some name => simpa using List.find?_some search
  | none =>
    -- There are more candidates than names in use, and they differ.
    have taken : (List.range (used.length + 1)).map candidate ⊆ used := fun name listed => by
      simpa using List.find?_eq_none.mp search name listed
    have short := (List.subperm_of_subset (List.nodup_range.map injective) taken).length_le
    rw [List.length_map, List.length_range] at short
    exact absurd short (Nat.not_succ_le_self _)

/-! ## Entries -/

structure Row where
  slot : Slot
  name : String
  descriptor : String

structure Reads (pool : Pool) (entry : LocalVariable) (row : Row) : Prop where
  slot : entry.slot = row.slot
  name : pool.utf8 entry.name = .ok row.name
  descriptor : pool.utf8 entry.signature = .ok row.descriptor

structure Lists (pool : Pool) (used : List String) (entries : List LocalVariable) (rows : List Row) : Prop where
  reads : List.Forall₂ (Reads pool) entries rows
  distinct : (rows.map Row.name).Nodup
  unused : ∀ row ∈ rows, row.name ∉ used

section Rows

variable {pool after : Pool} {used : List String} {entries more : List LocalVariable} {rows others : List Row}
  {entry : LocalVariable} {row : Row} {length : UInt32}

theorem Reads.extend (growth : pool.Extends after) (reads : Reads pool entry row) : Reads after entry row :=
  ⟨reads.slot, growth.utf8 reads.name, growth.utf8 reads.descriptor⟩

namespace Lists

theorem nil : Lists pool used [] [] := ⟨.nil, List.nodup_nil, by simp⟩

theorem extend (growth : pool.Extends after) (lists : Lists pool used entries rows) : Lists after used entries rows :=
  ⟨lists.reads.imp fun _ _ reads => reads.extend growth, lists.distinct, lists.unused⟩

theorem append {later : List String} (first : Lists pool used entries rows) (second : Lists pool later more others)
    (covers : ∀ name, name ∈ used ∨ name ∈ rows.map Row.name → name ∈ later) :
    Lists pool used (entries ++ more) (rows ++ others) := by
  refine ⟨List.rel_append first.reads second.reads, ?_, ?_⟩
  · rw [List.map_append, List.nodup_append']
    refine ⟨first.distinct, second.distinct, fun name early late => ?_⟩
    obtain ⟨row, among, rfl⟩ := List.mem_map.mp late
    exact second.unused row among (covers _ (.inr early))
  · intro row among known
    rcases List.mem_append.mp among with among | among
    · exact first.unused row among known
    · exact second.unused row among (covers _ (.inl known))

theorem cons (reads : Reads pool entry row) (unused : row.name ∉ used)
    (rest : Lists pool (row.name :: used) more others) : Lists pool used (entry :: more) (row :: others) := by
  have single : Lists pool used [entry] [row] := ⟨.cons reads .nil, by simp, by simpa using unused⟩
  exact single.append rest (by simp [or_comm])

theorem slots (lists : Lists pool used entries rows) : entries.map LocalVariable.slot = rows.map Row.slot := by
  have same : List.Forall₂ (· = ·) (entries.map LocalVariable.slot) (rows.map Row.slot) :=
    List.forall₂_map_left_iff.mpr (List.forall₂_map_right_iff.mpr (lists.reads.imp fun _ _ reads => reads.slot))
  rwa [List.forall₂_eq_eq_eq] at same

theorem names (lists : Lists pool used entries rows) :
    List.Forall₂ (fun entry name => pool.utf8 entry.name = .ok name) entries (rows.map Row.name) :=
  List.forall₂_map_right_iff.mpr (lists.reads.imp fun _ _ reads => reads.name)

theorem descriptors (lists : Lists pool used entries rows) :
    List.Forall₂ (fun entry text => pool.utf8 entry.signature = .ok text) entries (rows.map Row.descriptor) :=
  List.forall₂_map_right_iff.mpr (lists.reads.imp fun _ _ reads => reads.descriptor)

end Lists

theorem entry_reads {slot : Slot} {name descriptor : String}
    (ran : LocalNames.entry length slot name descriptor pool = (.ok entry, after)) (fits : after.count ≤ Pool.limit) :
    Reads after entry ⟨slot, name, descriptor⟩ := by
  obtain ⟨nameIndex, middle, first, ran⟩ := bind_ok.mp ran
  obtain ⟨descriptorIndex, last, second, ran⟩ := bind_ok.mp ran
  obtain ⟨rfl, rfl⟩ := pure_ok.mp ran
  have growth := (Pool.internUtf8_extends _).of_run second
  have named := Pool.utf8_ok.mpr (Pool.get_intern first (Nat.le_trans growth.count_le fits))
  exact ⟨rfl, growth.utf8 named, Pool.utf8_ok.mpr (Pool.get_intern second fits)⟩

theorem parameters_lists {slot next : Slot} {names types : List String}
    (ran : parameters length slot used types pool = (.ok (entries, names, next), after)) (fits : after.count ≤ Pool.limit)
    (room : Descriptor.frameEnd slot.toNat types ≤ 65535) :
    next.toNat = Descriptor.frameEnd slot.toNat types ∧
      ∃ rows, Lists after used entries rows ∧ (∀ name, name ∈ used ∨ name ∈ rows.map Row.name → name ∈ names) ∧
        rows.map (·.slot.toNat) = Descriptor.frame slot.toNat types ∧ rows.map Row.descriptor = types := by
  induction types generalizing slot used pool entries with
  | nil =>
    obtain ⟨same, rfl⟩ := pure_ok.mp ran
    cases same
    exact ⟨rfl, [], .nil, by simp, rfl, rfl⟩
  | cons type rest continues =>
    obtain ⟨found, middle, entered, ran⟩ := bind_ok.mp ran
    obtain ⟨⟨others, names, last⟩, grown, listed, ran⟩ := bind_ok.mp ran
    obtain ⟨same, rfl⟩ := pure_ok.mp ran
    cases same
    rw [Descriptor.frameEnd_cons] at room ⊢
    have narrow : slot.toNat + Descriptor.slots type < 65536 :=
      Nat.lt_succ_of_le (Nat.le_trans Descriptor.le_frameEnd room)
    have advanced : (slot + .ofNat (Descriptor.slots type)).toNat = slot.toNat + Descriptor.slots type := by
      rw [UInt16.toNat_add, UInt16.toNat_ofNat_of_lt' (Nat.lt_of_le_of_lt (Nat.le_add_left _ _) narrow),
        Nat.mod_eq_of_lt narrow]
    rw [← advanced] at room ⊢
    obtain ⟨final, rows, lists, covers, slots, descriptors⟩ := continues listed room
    have growth := (parameters_tables length _ _ rest).grows.of_run listed
    have reads := (entry_reads entered (Nat.le_trans growth.count_le fits)).extend growth
    refine ⟨final, ⟨slot, fresh used "param" type, type⟩ :: rows, .cons reads (fresh_not_mem used "param" type) lists, ?_, ?_, ?_⟩
    · intro name known
      refine covers name ?_
      simp only [List.map_cons, List.mem_cons] at known ⊢
      tauto
    · rw [List.map_cons, Descriptor.frame, slots, advanced]
    · rw [List.map_cons, descriptors]

theorem locals_lists {first : Slot} {written : List (Slot × String)}
    (ran : locals length first used written pool = (.ok entries, after)) (fits : after.count ≤ Pool.limit) :
    ∃ rows, Lists after used entries rows ∧ rows.map Row.slot = (written.map Prod.fst).filter (first ≤ ·) := by
  induction written generalizing used pool entries with
  | nil =>
    obtain ⟨rfl, rfl⟩ := pure_ok.mp ran
    exact ⟨[], .nil, rfl⟩
  | cons write rest continues =>
    obtain ⟨slot, descriptor⟩ := write
    unfold locals at ran
    by_cases parameter : slot < first
    · rw [if_pos parameter] at ran
      obtain ⟨rows, lists, slots⟩ := continues ran
      refine ⟨rows, lists, ?_⟩
      rw [slots, List.map_cons, List.filter_cons_of_neg (by simpa using parameter)]
    · rw [if_neg parameter] at ran
      obtain ⟨found, middle, entered, ran⟩ := bind_ok.mp ran
      obtain ⟨others, grown, listed, ran⟩ := bind_ok.mp ran
      obtain ⟨rfl, rfl⟩ := pure_ok.mp ran
      obtain ⟨rows, lists, slots⟩ := continues listed
      have growth := (locals_tables length first _ rest).grows.of_run listed
      have reads := (entry_reads entered (Nat.le_trans growth.count_le fits)).extend growth
      refine ⟨⟨slot, fresh used "local" descriptor, descriptor⟩ :: rows,
        .cons reads (fresh_not_mem used "local" descriptor) lists, ?_⟩
      rw [List.map_cons, slots, List.map_cons, List.filter_cons_of_pos (by simpa using parameter)]

end Rows

end LocalNames

/-! ## The table of a method -/

def Method.variableTable (method : Method) : Option (List LocalVariable) :=
  method.code.elim method.localVariables Code.localVariables

theorem Method.variableTable_setLocalVariables (method : Method) (entries : List LocalVariable) :
    (method.setLocalVariables entries).variableTable = some entries := by
  unfold setLocalVariables variableTable
  cases method.code with
  | none => simp
  | some code => rfl

namespace LocalNames

/-- A table for a method with these parameters: the receiver, each parameter at its slot of the frame with its type, then the
further slots that the body writes. -/
structure Outlines (pool : Pool) (method : Method) (types : List String) (receiver parameters locals : List LocalVariable) :
    Prop where
  this : if method.access.isStatic then receiver = [] else
    ∃ this, receiver = [this] ∧ this.slot = 0 ∧ pool.utf8 this.name = .ok "this"
  slots : parameters.map (·.slot.toNat) = Descriptor.frame method.firstParameter types
  typed : List.Forall₂ (fun entry type => pool.utf8 entry.signature = .ok type) parameters types
  below : ∀ entry ∈ receiver ++ parameters, entry.slot < firstLocal method.access.isStatic types
  further : ∀ slot, slot ∈ locals.map LocalVariable.slot ↔ firstLocal method.access.isStatic types ≤ slot ∧ method.Writes slot

structure WellFormed (pool : Pool) (method : Method) (types : List String) (entries : List LocalVariable) : Prop where
  increasing : (entries.map LocalVariable.slot).Pairwise (· < ·)
  names : ∃ names : List String, names.Nodup ∧ List.Forall₂ (fun entry name => pool.utf8 entry.name = .ok name) entries names
  signatures : ∃ texts : List String, List.Forall₂ (fun entry text => pool.utf8 entry.signature = .ok text) entries texts
  outline : ∃ receiver parameters locals, entries = receiver ++ parameters ++ locals ∧
    Outlines pool method types receiver parameters locals

end LocalNames

section NameLocals

variable {file after : ClassFile} {index : Nat} {method : Method}

namespace OnClass

variable {α : Type} {value : α}

theorem interning_ok {action : Interning α} :
    interning action file = (.ok value, after) ↔ ∃ pool, action file.pool = (.ok value, pool) ∧ after = { file with pool } := by
  unfold interning
  cases ran : action file.pool with
  | mk outcome pool =>
    constructor
    · intro same
      obtain ⟨outcome, rfl⟩ := Prod.mk.inj same
      exact ⟨pool, by rw [mapError_ok.mp outcome], rfl⟩
    · rintro ⟨_, same, rfl⟩
      cases same
      rfl

theorem read_ok {action : Except PoolError α} (ran : (liftM action : OnClass α) file = (.ok value, after)) :
    action = .ok value ∧ file = after := by
  obtain ⟨outcome, rfl⟩ := Prod.mk.inj ran
  exact ⟨mapError_ok.mp outcome, rfl⟩

theorem split_ok {action : Except DescriptorError α} (ran : (liftM action : OnClass α) file = (.ok value, after)) :
    action = .ok value ∧ file = after := by
  obtain ⟨outcome, rfl⟩ := Prod.mk.inj ran
  exact ⟨mapError_ok.mp outcome, rfl⟩

end OnClass

theorem nameLocals_ok (found : file.methods[index]? = some method) (needed : method.needsLocalNames = true)
    (ran : nameLocals index file = (.ok (), after)) :
    ∃ descriptor owner types receiver parameters names first locals one two three,
      file.pool.utf8 method.descriptorIndex = .ok descriptor ∧ Descriptor.parameters descriptor = .ok types ∧
      (if method.access.isStatic then receiver = [] ∧ one = file.pool else ∃ this, receiver = [this] ∧
        LocalNames.receiver (method.code.elim 0 LocalNames.lengthOf) owner file.pool = (.ok this, one)) ∧
      LocalNames.parameters (method.code.elim 0 LocalNames.lengthOf) (if method.access.isStatic then 0 else 1) ["this"] types one =
        (.ok (parameters, names, first), two) ∧
      LocalNames.locals (method.code.elim 0 LocalNames.lengthOf) first names
        (method.code.elim [] (LocalNames.slotsOf file.pool)) two = (.ok locals, three) ∧
      after = { file with pool := three }.modifyMethod index (·.setLocalVariables (receiver ++ parameters ++ locals)) := by
  unfold nameLocals at ran
  rw [run_get_bind, found] at ran
  simp only [needed, Bool.not_true, Bool.false_eq_true, if_false] at ran
  obtain ⟨descriptor, _, read, ran⟩ := bind_ok.mp ran
  obtain ⟨described, rfl⟩ := OnClass.read_ok read
  obtain ⟨owner, _, read, ran⟩ := bind_ok.mp ran
  obtain ⟨_, rfl⟩ := OnClass.read_ok read
  -- Both kinds of methods go on in the same way once the receiver is dealt with.
  obtain ⟨receiver, one, this, ran⟩ : ∃ receiver one,
      (if method.access.isStatic then receiver = [] ∧ one = file.pool else ∃ this, receiver = [this] ∧
        LocalNames.receiver (method.code.elim 0 LocalNames.lengthOf) owner file.pool = (.ok this, one)) ∧
      (do
        let types ← Descriptor.parameters descriptor
        let listed ← OnClass.interning (LocalNames.parameters (method.code.elim 0 LocalNames.lengthOf)
          (if method.access.isStatic then 0 else 1) ["this"] types)
        let locals ← OnClass.interning (LocalNames.locals (method.code.elim 0 LocalNames.lengthOf) listed.2.2 listed.2.1
          (method.code.elim [] (LocalNames.slotsOf file.pool)))
        modify (·.modifyMethod index (·.setLocalVariables (receiver ++ listed.1 ++ locals))) : OnClass Unit)
          { file with pool := one } = (.ok (), after) := by
    by_cases static : method.access.isStatic = true
    · simp only [static, if_true] at ran ⊢
      exact ⟨[], file.pool, ⟨rfl, rfl⟩, ran⟩
    · simp only [static, if_false, Bool.false_eq_true] at ran ⊢
      obtain ⟨_, _, interned, ran⟩ := bind_ok.mp ran
      obtain ⟨one, tabled, rfl⟩ := OnClass.interning_ok.mp interned
      rw [← bind_pure_comp] at tabled
      obtain ⟨this, _, received, same⟩ := bind_ok.mp tabled
      obtain ⟨rfl, rfl⟩ := pure_ok.mp same
      exact ⟨[this], _, ⟨this, rfl, received⟩, ran⟩
  obtain ⟨types, _, read, ran⟩ := bind_ok.mp ran
  obtain ⟨split, rfl⟩ := OnClass.split_ok read
  obtain ⟨⟨parameters, names, first⟩, _, interned, ran⟩ := bind_ok.mp ran
  obtain ⟨two, tabledParameters, rfl⟩ := OnClass.interning_ok.mp interned
  obtain ⟨locals, _, interned, ran⟩ := bind_ok.mp ran
  obtain ⟨three, tabledLocals, rfl⟩ := OnClass.interning_ok.mp interned
  exact ⟨descriptor, owner, types, receiver, parameters, names, first, locals, one, two, three, described, split, this,
    tabledParameters, tabledLocals, (modify_ok.mp ran).symm⟩

def FailsWithin {ε σ α : Type} (related : σ → σ → Prop) (action : ExceptT ε (StateM σ) α) : Prop :=
  ∀ state error last, action state = (.error error, last) → related state last

theorem failsWithin_bind {ε σ α β : Type} {related : σ → σ → Prop} [IsTrans σ related] {action : ExceptT ε (StateM σ) α}
    {next : α → ExceptT ε (StateM σ) β} (first : Preserves related action) (rest : ∀ value, FailsWithin related (next value)) :
    FailsWithin related (action >>= next) := by
  intro state error last ran
  rcases bind_error.mp ran with failed | ⟨value, middle, stepped, failed⟩
  · exact first.of_run failed
  · exact IsTrans.trans _ _ _ (first.of_run stepped) (rest value middle error last failed)

def ClassFile.SameMethods (before after : ClassFile) : Prop := after.methods = before.methods

instance : Std.Refl ClassFile.SameMethods := ⟨fun _ => rfl⟩

instance : IsTrans ClassFile ClassFile.SameMethods := ⟨fun _ _ _ first second => Eq.trans second first⟩

theorem nameLocals_failsWithin (index : Nat) : FailsWithin ClassFile.SameMethods (nameLocals index) := by
  have interning {α : Type} (action : Interning α) : Preserves ClassFile.SameMethods (OnClass.interning action) :=
    fun _ => rfl
  intro file error last ran
  unfold nameLocals at ran
  rw [run_get_bind] at ran
  cases found : file.methods[index]? with
  | none =>
    simp only [found] at ran
    cases ran
  | some method =>
    simp only [found] at ran
    by_cases needed : method.needsLocalNames = true
    · rw [if_neg (by simp [needed])] at ran
      refine (?_ : FailsWithin ClassFile.SameMethods _) file error last ran
      refine failsWithin_bind (fun _ => rfl) fun descriptor => failsWithin_bind (fun _ => rfl) fun owner => ?_
      have rest (start : Slot) (this : List LocalVariable) : FailsWithin ClassFile.SameMethods (do
          let types ← Descriptor.parameters descriptor
          let listed ← OnClass.interning (LocalNames.parameters (method.code.elim 0 LocalNames.lengthOf)
            start ["this"] types)
          let locals ← OnClass.interning (LocalNames.locals (method.code.elim 0 LocalNames.lengthOf) listed.2.2 listed.2.1
            (method.code.elim [] (LocalNames.slotsOf file.pool)))
          modify (·.modifyMethod index (·.setLocalVariables (this ++ listed.1 ++ locals))) : OnClass Unit) :=
        failsWithin_bind (fun _ => rfl) fun _ => failsWithin_bind (interning _) fun _ =>
          failsWithin_bind (interning _) fun _ _ _ _ failed => by cases failed
      split
      · exact rest 0 []
      · exact failsWithin_bind (interning _) (rest 1)
    · rw [if_pos (by simp [needed])] at ran
      cases ran

namespace LocalNames

variable {pool one two three : Pool} {taken types : List String} {receiver parameters locals : List LocalVariable} {first : Slot}
  {length : UInt32} {owner : String}

def receiverRows (method : Method) (owner : String) : List Row :=
  if method.access.isStatic then [] else [⟨0, "this", classType owner⟩]

theorem receiver_lists (received : if method.access.isStatic then receiver = [] ∧ one = pool else
      ∃ this, receiver = [this] ∧ LocalNames.receiver length owner pool = (.ok this, one)) (fits : pool.count ≤ Pool.limit) :
    Lists one [] receiver (receiverRows method owner) ∧ pool.Extends one := by
  unfold receiverRows
  by_cases static : method.access.isStatic = true
  · simp only [static, if_true] at received ⊢
    obtain ⟨rfl, rfl⟩ := received
    exact ⟨.nil, .refl one⟩
  · simp only [static, if_false, Bool.false_eq_true] at received ⊢
    obtain ⟨this, rfl, entered⟩ := received
    have growth := (entry_tables length 0 "this" _).grows.of_run entered
    exact ⟨.cons (entry_reads entered (growth.fits fits)) List.not_mem_nil .nil, growth⟩

theorem mem_receiverRows {row : Row} (among : row ∈ receiverRows method owner) :
    row = ⟨0, "this", classType owner⟩ ∧ method.firstParameter = 1 := by
  unfold receiverRows at among
  unfold Method.firstParameter
  split at among
  · cases among
  · exact ⟨List.mem_singleton.mp among, if_neg ‹_›⟩

theorem receiver_of_lists {used : List String} (lists : Lists pool used receiver (receiverRows method owner)) :
    if method.access.isStatic then receiver = [] else
      ∃ this, receiver = [this] ∧ this.slot = 0 ∧ pool.utf8 this.name = .ok "this" := by
  have reads := lists.reads
  unfold receiverRows at reads
  by_cases static : method.access.isStatic = true
  · simp only [static, if_true] at reads ⊢
    exact List.forall₂_nil_right_iff.mp reads
  · simp only [static, if_false, Bool.false_eq_true] at reads ⊢
    cases reads with
    | cons read none =>
      cases none
      exact ⟨_, rfl, read.slot, read.name⟩

theorem receiverRows_increasing (method : Method) (owner : String) :
    ((receiverRows method owner).map Row.slot).Pairwise (· < ·) := by
  unfold receiverRows
  split <;> simp

theorem rows_increasing {parameterRows localRows : List Row} {written : List Slot}
    (slots : parameterRows.map (·.slot.toNat) = Descriptor.frame method.firstParameter types)
    (below : ∀ row ∈ receiverRows method owner ++ parameterRows, row.slot < first)
    (sorted : written.Pairwise (· < ·)) (further : localRows.map Row.slot = written.filter (first ≤ ·)) :
    ((receiverRows method owner ++ parameterRows ++ localRows).map Row.slot).Pairwise (· < ·) := by
  have framed : (parameterRows.map Row.slot).Pairwise (· < ·) := by
    have increasing := slots ▸ Descriptor.frame_increasing method.firstParameter types
    exact List.pairwise_map.mpr ((List.pairwise_map.mp increasing).imp UInt16.lt_iff_toNat_lt.mpr)
  rw [List.map_append, List.map_append]
  refine List.pairwise_append.mpr ⟨List.pairwise_append.mpr ⟨receiverRows_increasing method owner, framed, ?_⟩, ?_, ?_⟩
  · intro this isReceiver parameter isParameter
    obtain ⟨row, among, rfl⟩ := List.mem_map.mp isReceiver
    obtain ⟨other, amongParameters, rfl⟩ := List.mem_map.mp isParameter
    obtain ⟨rfl, behind⟩ := mem_receiverRows among
    have framedOther := (Descriptor.mem_frame (slots ▸ List.mem_map_of_mem amongParameters)).1
    rw [behind] at framedOther
    exact UInt16.lt_iff_toNat_lt.mpr framedOther
  · rw [further]
    exact sorted.filter _
  · intro slot early other late
    rw [← List.map_append] at early
    obtain ⟨row, among, rfl⟩ := List.mem_map.mp early
    rw [further] at late
    exact UInt16.lt_of_lt_of_le (below row among) (by simpa using (List.mem_filter.mp late).2)

theorem written_slots (method : Method) (pool : Pool) :
    ((method.code.elim [] (slotsOf pool)).map Prod.fst).Pairwise (· < ·) ∧
      ∀ slot, slot ∈ (method.code.elim [] (slotsOf pool)).map Prod.fst ↔ method.Writes slot := by
  unfold Method.Writes
  cases method.code with
  | none => simp
  | some code => exact ⟨slotsOf_increasing pool code, fun slot => by simp [mem_slotsOf]⟩

theorem wellFormed_of_tabled (received : if method.access.isStatic then receiver = [] ∧ one = pool else
      ∃ this, receiver = [this] ∧ LocalNames.receiver length owner pool = (.ok this, one))
    (tabledParameters : LocalNames.parameters length (if method.access.isStatic then 0 else 1) ["this"] types one =
      (.ok (parameters, taken, first), two))
    (tabledLocals : LocalNames.locals length first taken (method.code.elim [] (slotsOf pool)) two = (.ok locals, three))
    (fits : pool.count ≤ Pool.limit) (room : Descriptor.frameEnd method.firstParameter types ≤ 65535) :
    WellFormed three method types (receiver ++ parameters ++ locals) := by
  have start : (if method.access.isStatic then 0 else 1 : Slot).toNat = method.firstParameter := by
    unfold Method.firstParameter
    split <;> rfl
  rw [← start] at room
  obtain ⟨receiverLists, received⟩ := receiver_lists received fits
  have growth := (parameters_tables length _ _ types).grows.of_run tabledParameters
  have more := (locals_tables length first taken _).grows.of_run tabledLocals
  have fits := growth.fits (received.fits fits)
  obtain ⟨last, parameterRows, parameterLists, covers, slots, descriptors⟩ := parameters_lists tabledParameters fits room
  obtain ⟨localRows, localLists, further⟩ := locals_lists tabledLocals (more.fits fits)
  obtain ⟨sorted, written⟩ := written_slots method pool
  rw [start] at last slots room
  obtain rfl : first = firstLocal method.access.isStatic types :=
    UInt16.toNat_inj.mp (last.trans (toNat_firstLocal room).symm)
  have below : ∀ row ∈ receiverRows method owner ++ parameterRows, row.slot < firstLocal method.access.isStatic types := by
    intro row among
    rw [UInt16.lt_iff_toNat_lt, last]
    rcases List.mem_append.mp among with among | among
    · obtain ⟨rfl, behind⟩ := mem_receiverRows among
      rw [behind]
      exact Nat.lt_of_lt_of_le Nat.zero_lt_one Descriptor.le_frameEnd
    · exact (Descriptor.mem_frame (slots ▸ List.mem_map_of_mem among)).2
  have early : Lists three [] (receiver ++ parameters) (receiverRows method owner ++ parameterRows) := by
    refine (receiverLists.extend (growth.trans more)).append (parameterLists.extend more) fun name known => ?_
    obtain ⟨row, among, rfl⟩ := List.mem_map.mp (known.resolve_left List.not_mem_nil)
    rw [(mem_receiverRows among).1]
    exact List.mem_singleton_self _
  have all : Lists three [] (receiver ++ parameters ++ locals) (receiverRows method owner ++ parameterRows ++ localRows) := by
    refine early.append localLists fun name known => covers name ?_
    rw [List.map_append, List.mem_append] at known
    obtain ⟨row, among, rfl⟩ | known := known.resolve_left List.not_mem_nil |>.imp_left List.mem_map.mp
    · rw [(mem_receiverRows among).1]
      exact .inl (List.mem_singleton_self _)
    · exact .inr known
  refine ⟨?_, ⟨_, all.distinct, all.names⟩, ⟨_, all.descriptors⟩, receiver, parameters, locals, rfl, ?_, ?_, ?_, ?_, ?_⟩
  · rw [all.slots]
    exact rows_increasing slots below sorted further
  · exact receiver_of_lists (receiverLists.extend (growth.trans more))
  · rw [← slots]
    simpa only [List.map_map, Function.comp_def] using congrArg (List.map UInt16.toNat) parameterLists.slots
  · exact descriptors ▸ (parameterLists.extend more).descriptors
  · intro entry among
    have slot := List.mem_map_of_mem (f := LocalVariable.slot) among
    rw [early.slots] at slot
    obtain ⟨row, among, same⟩ := List.mem_map.mp slot
    exact same ▸ below row among
  · intro slot
    rw [localLists.slots, further, List.mem_filter, written, decide_eq_true_iff, and_comm]

end LocalNames

/-- A method whose table is missing gets a well-formed one, or stays without. -/
theorem nameLocals_tables (found : file.methods[index]? = some method)
    (shown : method.access.intersects (Access.synthetic.union Access.bridge) = false) (bare : method.variableTable = none)
    (fits : file.pool.count ≤ Pool.limit)
    (room : ∀ descriptor types, file.pool.utf8 method.descriptorIndex = .ok descriptor →
      Descriptor.parameters descriptor = .ok types → Descriptor.frameEnd method.firstParameter types ≤ 65535) :
    (∀ after, nameLocals index file = (.ok (), after) → ∃ descriptor types named entries,
      file.pool.utf8 method.descriptorIndex = .ok descriptor ∧ Descriptor.parameters descriptor = .ok types ∧
      after.methods[index]? = some named ∧ named.variableTable = some entries ∧
      LocalNames.WellFormed after.pool method types entries) ∧
    ∀ failure after, nameLocals index file = (.error failure, after) →
      ∃ kept, after.methods[index]? = some kept ∧ kept.variableTable = none := by
  refine ⟨fun after ran => ?_, fun failure after ran => ?_⟩
  · have needed : method.needsLocalNames = true := by
      rw [Method.needsLocalNames, shown, Bool.not_false, Bool.true_and]
      exact Option.isNone_iff_eq_none.mpr bare
    obtain ⟨descriptor, owner, types, receiver, parameters, names, first, locals, one, two, three, described, split, received,
      tabledParameters, tabledLocals, rfl⟩ := nameLocals_ok found needed ran
    refine ⟨descriptor, types, _, _, described, split, ?_, method.variableTable_setLocalVariables _,
      LocalNames.wellFormed_of_tabled received tabledParameters tabledLocals fits (room descriptor types described split)⟩
    simp [ClassFile.modifyMethod, Array.getElem?_modify, found]
  · have same : after.methods = file.methods := nameLocals_failsWithin index file failure after ran
    exact ⟨method, same ▸ found, bare⟩

end NameLocals

/-- `f(X, long, X, X1)` changes variables 1, 7 and 6. Its second `X` and its `X1` would both be named `paramX1`. -/
def collidingMethod : Method where
  nameIndex := 3
  descriptorIndex := 4
  code := some { store := ⟨#[⟨0, none, .bump 1 1⟩, ⟨3, none, .bump 7 1⟩, ⟨6, none, .bump 6 1⟩]⟩, instructions := [0, 1, 2] }

def collidingClass : ClassFile where
  thisIndex := 2
  pool := ⟨#[none, some (.utf8 "A"), some (.classInfo 1), some (.utf8 "f"), some (.utf8 "(LX;JLX;LX1;)V")]⟩
  methods := #[collidingMethod]

theorem nameLocals_collidingClass : ∃ after, nameLocals 0 collidingClass = (.ok (), after) := by
  have found : collidingClass.methods[0]? = some collidingMethod := rfl
  have slots : collidingMethod.code.elim [] (LocalNames.slotsOf collidingClass.pool) = [(1, "I"), (6, "I"), (7, "I")] := by
    change [((1 : Slot), "I"), (7, "I"), (6, "I")].mergeSort (fun one other => decide (one.1 ≤ other.1)) = _
    simp [List.mergeSort, List.MergeSort.Internal.splitInTwo]
  have succeeds : (nameLocals 0 collidingClass).1.isOk = true := by
    unfold nameLocals
    rw [run_get_bind]
    simp only [found, slots]
    decide +kernel
  cases ran : nameLocals 0 collidingClass with
  | mk outcome after =>
    rw [ran] at succeeds
    cases outcome with
    | error failure => cases succeeds
    | ok value => exact ⟨after, rfl⟩

theorem nameLocals_tables_colliding : ∃ after named entries, nameLocals 0 collidingClass = (.ok (), after) ∧
    after.methods[0]? = some named ∧ named.variableTable = some entries ∧
    LocalNames.WellFormed after.pool collidingMethod ["LX;", "J", "LX;", "LX1;"] entries := by
  have described : collidingClass.pool.utf8 collidingMethod.descriptorIndex = .ok "(LX;JLX;LX1;)V" := rfl
  have split : Descriptor.parameters "(LX;JLX;LX1;)V" = .ok ["LX;", "J", "LX;", "LX1;"] := by rfl
  have room : ∀ descriptor types, collidingClass.pool.utf8 collidingMethod.descriptorIndex = .ok descriptor →
      Descriptor.parameters descriptor = .ok types → Descriptor.frameEnd collidingMethod.firstParameter types ≤ 65535 := by
    intro descriptor types read parameters
    cases described.symm.trans read
    cases split.symm.trans parameters
    decide
  obtain ⟨after, ran⟩ := nameLocals_collidingClass
  obtain ⟨descriptor, types, named, entries, read, parameters, there, table, formed⟩ :=
    (nameLocals_tables rfl rfl rfl (by decide) room).1 after ran
  cases described.symm.trans read
  cases split.symm.trans parameters
  exact ⟨after, named, entries, ran, there, table, formed⟩

end ClassLift
