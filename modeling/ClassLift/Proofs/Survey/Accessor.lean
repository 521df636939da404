import ClassLift.Survey.Accessor
import ClassLift.Proofs.Action

namespace ClassLift

def Kind.member? : Kind → Option PoolIndex
  | .read (.static field) | .read (.field field _) | .write (.static field) _ | .write (.field field _) _ => some field
  | .call _ method .. => some method
  | _ => none

def Kind.withMember (member : PoolIndex) : Kind → Kind
  | .read (.static _) => .read (.static member)
  | .read (.field _ object) => .read (.field member object)
  | .write (.static _) value => .write (.static member) value
  | .write (.field _ object) value => .write (.field member object) value
  | .call kind _ object arguments => .call kind member object arguments
  | kind => kind

namespace Accessor

def member : Accessor → PoolIndex
  | .readStatic field | .readField field | .writeStatic field | .writeField field => field
  | .call method _ => method

/-- The expression that a body evaluates, or the write that it makes. A written value that is returned as well is held for its
two uses. -/
def exposed? (store : Store) : List NodeId → Option Kind
  | [only] =>
      match store.kind? only with
      | some (.ret (some value)) => store.kind? value
      | _ => none
  | [first, last] =>
      match store.kind? first, store.kind? last with
      | some (.discard value), some (.ret none) => store.kind? value
      | kind, some (.ret none) => kind
      | _, _ => none
  | [first, second, last] =>
      match store.kind? first, store.kind? second, store.kind? last with
      | some (.dupStore value), some (.write place stored), some (.ret (some returned)) =>
          if store.isDupLoadOf stored first && store.isDupLoadOf returned first then some (.write place value) else none
      | _, _, _ => none
  | _ => none

/-! ## Parameters and arguments -/

def parameterAt? : List String → Nat → Option Nat
  | [], _ => none
  | parameter :: rest, slot =>
      if slot = 0 then some 0
      else if slot < Descriptor.slots parameter then none
      else (parameterAt? rest (slot - Descriptor.slots parameter)).map (· + 1)

def parameterRead? (store : Store) (parameters : List String) (id : NodeId) : Option Nat :=
  match store.kind? id with
  | some (.read (.slot _ slot)) => parameterAt? parameters slot.toNat
  | _ => none

def argument? (store : Store) (parameters : List String) (arguments : List NodeId) (id : NodeId) : Option NodeId :=
  (parameterRead? store parameters id).bind (arguments[·]?)

/-- The body with the arguments in place of the parameters and a reference to the member in another pool. -/
structure IsReduct (store : Store) (parameters : List String) (arguments : List NodeId) (member : PoolIndex)
    (body reduct : Kind) : Prop where
  loads : ∀ operand ∈ body.operands, (argument? store parameters arguments operand).isSome
  same : reduct =
    (body.mapLinks fun operand => (argument? store parameters arguments operand).getD operand).withMember member

/-- The operands are the parameters in order, and a call is static without an object or virtual with one. -/
structure Faithful (store : Store) (parameters : List String) (body : Kind) : Prop where
  operands : body.operands.map (parameterRead? store parameters) = (List.range parameters.length).map some
  form : ∀ kind method object arguments, body = .call kind method object arguments →
    kind = .static ∧ object = none ∨ kind = .virtual ∧ object.isSome

/-! ## What is recognized -/

inductive Exposes (store : Store) (parameters : Nat) : Kind → Accessor → Prop
  | readStatic {field : PoolIndex} : Exposes store parameters (.read (.static field)) (.readStatic field)
  | readField {field : PoolIndex} {object : NodeId} (receiver : store.isSlot object 0) :
      Exposes store parameters (.read (.field field object)) (.readField field)
  | writeStatic {field : PoolIndex} {value : NodeId} (read : store.isSlotRead value) :
      Exposes store parameters (.write (.static field) value) (.writeStatic field)
  | writeField {field : PoolIndex} {object value : NodeId} (receiver : store.isSlot object 0) (read : store.isSlotRead value) :
      Exposes store parameters (.write (.field field object) value) (.writeField field)
  | call {kind : CallKind} {method : PoolIndex} {object : Option NodeId} {arguments : List NodeId}
      (count : (object.toList ++ arguments).length = parameters)
      (reads : readsParameters store 0 (object.toList ++ arguments)) :
      Exposes store parameters (.call kind method object arguments) (.call method (kind == .static))

variable {store : Store} {parameters : List String} {count : Nat} {instructions arguments : List NodeId} {accessor : Accessor}
  {body kind : Kind}

theorem Exposes.of_ofCall? (recognized : ofCall? store count kind = some accessor) : Exposes store count kind accessor := by
  unfold ofCall? at recognized
  split at recognized
  case h_1 =>
    obtain ⟨⟨length, reads⟩, same⟩ := Option.ite_none_right_eq_some.mp recognized
    cases same
    exact .call length reads
  case h_2 => cases recognized

theorem Exposes.of_ofReturned? (recognized : ofReturned? store count kind = some accessor) :
    Exposes store count kind accessor := by
  unfold ofReturned? at recognized
  split at recognized
  case h_1 =>
    cases recognized
    exact .readStatic
  case h_2 =>
    obtain ⟨receiver, same⟩ := Option.ite_none_right_eq_some.mp recognized
    cases same
    exact .readField receiver
  case h_3 => exact .of_ofCall? recognized

theorem Exposes.of_ofWrite? {isParameter : Place → NodeId → Bool}
    (recognized : ofWrite? store isParameter kind = some accessor) :
    ∃ place stored, kind = .write place stored ∧ isParameter place stored ∧
      ∀ value, store.isSlotRead value → Exposes store count (.write place value) accessor := by
  unfold ofWrite? at recognized
  split at recognized
  case h_1 =>
    obtain ⟨written, same⟩ := Option.ite_none_right_eq_some.mp recognized
    cases same
    exact ⟨_, _, rfl, written, fun value read => .writeStatic read⟩
  case h_2 =>
    obtain ⟨both, same⟩ := Option.ite_none_right_eq_some.mp recognized
    obtain ⟨receiver, written⟩ := Bool.and_eq_true_iff.mp both
    cases same
    exact ⟨_, _, rfl, written, fun value read => .writeField receiver read⟩
  case h_3 => cases recognized

theorem isSlot_iff {id : NodeId} {slot : Slot} :
    store.isSlot id slot ↔ ∃ type, store.kind? id = some (.read (.slot type slot)) := by
  unfold Store.isSlot Kind.isSlot
  cases store.kind? id with
  | none => simp
  | some kind =>
    simp only [Option.any_some]
    split <;> simp_all

theorem isSlotRead_iff {id : NodeId} : store.isSlotRead id ↔ ∃ type slot, store.kind? id = some (.read (.slot type slot)) := by
  unfold Store.isSlotRead
  split <;> simp_all

theorem isSlotRead_of_isWrittenParameter {place : Place} {id : NodeId} (written : isWrittenParameter store place id) :
    store.isSlotRead id := by
  unfold isWrittenParameter at written
  split at written
  · obtain ⟨type, found⟩ := isSlot_iff.mp written
    exact isSlotRead_iff.mpr ⟨type, 0, found⟩
  · exact written

theorem exposes_of_ofBody? (recognized : ofBody? store count instructions = some accessor) :
    ∃ body, exposed? store instructions = some body ∧ Exposes store count body accessor := by
  unfold ofBody? at recognized
  split at recognized
  case h_1 only =>
    split at recognized
    case h_1 value found =>
      obtain ⟨kind, located, returned⟩ := Option.bind_eq_some_iff.mp recognized
      exact ⟨kind, by simp [exposed?, found, located], .of_ofReturned? returned⟩
    case h_2 => cases recognized
  case h_2 first last =>
    split at recognized
    case h_1 value dropped ends =>
      obtain ⟨kind, located, called⟩ := Option.bind_eq_some_iff.mp recognized
      exact ⟨kind, by simp [exposed?, dropped, ends, located], .of_ofCall? called⟩
    case h_2 kind plain found ends =>
      have exposed : exposed? store [first, last] = some kind := by
        simp only [exposed?, found, ends]
        split
        case h_1 value same _ =>
          cases same
          exact (plain value rfl).elim
        case h_2 => rfl
        case h_3 never _ => exact (never rfl).elim
      rcases Option.or_eq_some_iff.mp recognized with written | ⟨_, called⟩
      · obtain ⟨place, stored, rfl, isParameter, exposes⟩ := Exposes.of_ofWrite? written
        exact ⟨_, exposed, exposes stored (isSlotRead_of_isWrittenParameter isParameter)⟩
      · exact ⟨_, exposed, .of_ofCall? called⟩
    case h_3 => cases recognized
  case h_3 first second last =>
    split at recognized
    case h_1 value kind returned held found ends =>
      obtain ⟨both, written⟩ := Option.ite_none_right_eq_some.mp recognized
      obtain ⟨read, repeats⟩ := Bool.and_eq_true_iff.mp both
      obtain ⟨place, stored, rfl, repeated, exposes⟩ := Exposes.of_ofWrite? written
      exact ⟨.write place value, by simp [exposed?, held, found, ends, repeated, repeats], exposes value read⟩
    case h_2 => cases recognized
  case h_4 => cases recognized

theorem Exposes.member? (exposes : Exposes store count body accessor) : body.member? = some accessor.member := by
  cases exposes <;> rfl

/-! ## Arguments in place of parameters -/

def expansion? (member : PoolIndex) : Accessor → List NodeId → Option Kind
  | .readStatic _, [] => some (.read (.static member))
  | .readField _, [object] => some (.read (.field member object))
  | .writeStatic _, [value] => some (.write (.static member) value)
  | .writeField _, [object, value] => some (.write (.field member object) value)
  | .call _ true, arguments => some (.call .static member none arguments)
  | .call _ false, object :: arguments => some (.call .virtual member (some object) arguments)
  | _, _ => none

variable {member : PoolIndex}

theorem operands_expansion (expanded : accessor.expansion? member arguments = some kind) : kind.operands = arguments := by
  unfold expansion? at expanded
  split at expanded <;> cases expanded <;> simp [Kind.operands, Place.operands]

theorem Exposes.operands_reduct (exposes : Exposes store count body accessor) (change : NodeId → NodeId) :
    ((body.mapLinks change).withMember member).operands = body.operands.map change := by
  cases exposes with
  | readStatic => rfl
  | readField => rfl
  | writeStatic => rfl
  | writeField => rfl
  | call => simp [Kind.mapLinks, Kind.withMember, Kind.operands, Option.toList_map]

theorem Faithful.map_argument? (faithful : Faithful store parameters body) (arity : arguments.length = parameters.length) :
    body.operands.map (argument? store parameters arguments) = arguments.map some := by
  have passed : body.operands.map (argument? store parameters arguments) =
      (body.operands.map (parameterRead? store parameters)).map (·.bind (arguments[·]?)) := by
    simp [argument?]
  rw [passed, faithful.operands, List.map_map, ← arity]
  refine List.ext_getElem? fun index => ?_
  by_cases inside : index < arguments.length
  · simp [inside]
  · simp [inside]

theorem Exposes.eq_of_operands (exposes : Exposes store count body accessor)
    (form : ∀ kind method object arguments, body = .call kind method object arguments →
      kind = .static ∧ object = none ∨ kind = .virtual ∧ object.isSome) {change : NodeId → NodeId}
    (expanded : accessor.expansion? member (body.operands.map change) = some kind) :
    kind = (body.mapLinks change).withMember member := by
  cases exposes with
  | readStatic =>
    cases expanded
    rfl
  | readField =>
    cases expanded
    rfl
  | writeStatic =>
    cases expanded
    rfl
  | writeField =>
    cases expanded
    rfl
  | call =>
    rcases form _ _ _ _ rfl with ⟨rfl, rfl⟩ | ⟨rfl, isSome⟩
    · cases expanded
      rfl
    · obtain ⟨object, rfl⟩ := Option.isSome_iff_exists.mp isSome
      cases expanded
      rfl

theorem Faithful.isReduct (faithful : Faithful store parameters body) (exposes : Exposes store count body accessor)
    (arity : arguments.length = parameters.length) (expanded : accessor.expansion? member arguments = some kind) :
    IsReduct store parameters arguments member body kind := by
  have mapped := faithful.map_argument? arity
  have loads : ∀ operand ∈ body.operands, (argument? store parameters arguments operand).isSome := by
    intro operand among
    have found : argument? store parameters arguments operand ∈ arguments.map some := mapped ▸ List.mem_map_of_mem among
    obtain ⟨argument, _, same⟩ := List.mem_map.mp found
    exact same ▸ rfl
  have operands : body.operands.map (fun operand => (argument? store parameters arguments operand).getD operand) = arguments := by
    refine (List.map_inj_right fun _ _ => Option.some.inj).mp ?_
    rw [List.map_map, ← mapped]
    refine List.map_congr_left fun operand among => ?_
    obtain ⟨argument, found⟩ := Option.isSome_iff_exists.mp (loads operand among)
    simp [found]
  exact ⟨loads, exposes.eq_of_operands faithful.form (operands.symm ▸ expanded)⟩

theorem IsReduct.faithful (reduct : IsReduct store parameters arguments member body kind)
    (exposes : Exposes store count body accessor) (arity : arguments.length = parameters.length)
    (expanded : accessor.expansion? member arguments = some kind) (distinct : arguments.Nodup) :
    Faithful store parameters body := by
  have operands : body.operands.map (fun operand => (argument? store parameters arguments operand).getD operand) = arguments := by
    rw [← exposes.operands_reduct, ← reduct.same, operands_expansion expanded]
  have length : body.operands.length = parameters.length := by rw [← arity, ← operands, List.length_map]
  refine ⟨List.ext_getElem (by simp [length]) fun index left _ => ?_, fun callKind method object passed called => ?_⟩
  · have inside : index < body.operands.length := by simpa using left
    obtain ⟨argument, found⟩ := Option.isSome_iff_exists.mp (reduct.loads _ (List.getElem_mem inside))
    obtain ⟨position, read, passed⟩ := Option.bind_eq_some_iff.mp found
    have own : arguments[index]? = some argument := by
      rw [← operands]
      simp [inside, found]
    have same : position = index :=
      (List.getElem?_inj (List.getElem?_eq_some_iff.mp passed).1 distinct).mp (passed.trans own.symm)
    simp [read, same]
  · subst called
    cases exposes with
    | call =>
      have same := reduct.same
      by_cases static : callKind = .static
      · subst static
        cases expanded
        cases object with
        | none => exact .inl ⟨rfl, rfl⟩
        | some receiver => cases same
      · rw [beq_eq_false_iff_ne.mpr static] at expanded
        cases arguments with
        | nil => cases expanded
        | cons first rest =>
          cases expanded
          cases object with
          | none => cases same
          | some receiver => exact .inr ⟨(Kind.call.inj same).1.symm, rfl⟩

theorem Exposes.faithful_of_read {place : Place} (exposes : Exposes store count (.read place) accessor)
    (arity : arguments.length = parameters.length) (expanded : accessor.expansion? member arguments = some kind) :
    Faithful store parameters (.read place) := by
  refine ⟨?_, nofun⟩
  cases exposes with
  | readStatic =>
    match arguments, expanded with
    | [], _ => simp [← arity, Kind.operands, Place.operands]
  | readField receiver =>
    match arguments, expanded, parameters, arity with
    | [argument], _, [parameter], _ =>
      obtain ⟨type, found⟩ := isSlot_iff.mp receiver
      simp [Kind.operands, Place.operands, parameterRead?, found, parameterAt?, List.range_succ]

end Accessor

open Accessor in
theorem ClassFile.accessorOf?_ok {file : ClassFile} {method : Method} {accessor : Accessor}
    (recognized : file.accessorOf? method = .ok (some accessor)) :
    ∃ code descriptor parameters body, method.code = some code ∧ file.pool.utf8 method.descriptorIndex = .ok descriptor ∧
      Descriptor.parameters descriptor = .ok parameters ∧ exposed? code.store code.instructions = some body ∧
      Exposes code.store parameters.length body accessor := by
  unfold accessorOf? at recognized
  split at recognized
  · cases recognized
  · obtain ⟨name, _, recognized⟩ := except_bind_ok.mp recognized
    split at recognized
    · cases recognized
    · split at recognized
      case h_1 code body =>
        obtain ⟨descriptor, described, recognized⟩ := except_bind_ok.mp recognized
        obtain ⟨parameters, taken, recognized⟩ := except_bind_ok.mp recognized
        obtain ⟨kind, exposed, exposes⟩ := exposes_of_ofBody? (Except.ok.inj recognized)
        exact ⟨code, descriptor, parameters, kind, body, mapError_ok.mp described, mapError_ok.mp taken, exposed, exposes⟩
      case h_2 => cases recognized

end ClassLift
