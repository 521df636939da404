import ClassLift.Proofs.Pool.Extension
import Mathlib.Tactic.SplitIfs

namespace ClassLift

namespace Pool

/-- A constant described by its texts, wherever its parts stand. -/
inductive Symbol where
  | utf8 (text : String)
  | classInfo (name : String)
  | string (text : String)
  | nameAndType (name descriptor : String)
  | field (owner name descriptor : String)
  | method (owner name descriptor : String)

namespace Symbol

def intern : Symbol → Interning PoolIndex
  | utf8 text => internUtf8 text
  | classInfo name => internClass name
  | string text => internString text
  | nameAndType name descriptor => internNameAndType name descriptor
  | field owner name descriptor => internField owner name descriptor
  | method owner name descriptor => internMethod owner name descriptor

def Names (pool : Pool) (index : PoolIndex) : Symbol → Prop
  | utf8 text => pool.utf8 index = .ok text
  | classInfo name => pool.className index = .ok name
  | string text => pool.string index = .ok (some text)
  | nameAndType name descriptor =>
      ∃ nameIndex descriptorIndex, pool.nameAndType index = .ok (nameIndex, descriptorIndex) ∧
        pool.utf8 nameIndex = .ok name ∧ pool.utf8 descriptorIndex = .ok descriptor
  | field owner name descriptor | method owner name descriptor =>
      ∃ nameIndex descriptorIndex, pool.member index = .ok ⟨owner, name, descriptor, nameIndex, descriptorIndex⟩

end Symbol

inductive Request where
  | push (constant : Constant)
  | intern (symbol : Symbol)

namespace Request

def perform : Request → Interning PoolIndex
  | push constant => Pool.push constant
  | intern symbol => symbol.intern

def Answers (pool : Pool) (index : PoolIndex) : Request → Prop
  | push constant => pool.get index = .ok constant
  | intern symbol => symbol.Names pool index

end Request

def serve (pool : Pool) (requests : List Request) : Pool :=
  requests.foldl (fun pool request => (request.perform pool).2) pool

variable {pool before middle after : Pool} {index : PoolIndex} {constant : Constant} {symbol : Symbol}
variable {request : Request} {requests : List Request} {related : Pool → Pool → Prop}

/-! ## What a request can do -/

theorem Symbol.intern_induction {motive : Interning PoolIndex → Prop} (one : ∀ constant, motive (Pool.intern constant))
    (chain : ∀ action next, motive action → (∀ index, motive (next index)) → motive (action >>= next)) (symbol : Symbol) :
    motive symbol.intern := by
  have owned (name : String) : motive (internClass name) := chain _ _ (one _) fun _ => one _
  have typed (name descriptor : String) : motive (internNameAndType name descriptor) :=
    chain _ _ (one _) fun _ => chain _ _ (one _) fun _ => one _
  cases symbol with
  | utf8 text => exact one _
  | classInfo name => exact owned name
  | string text => exact chain _ _ (one _) fun _ => one _
  | nameAndType name descriptor => exact typed name descriptor
  | field owner name descriptor | method owner name descriptor =>
    exact chain _ _ (owned owner) fun _ => chain _ _ (typed name descriptor) fun _ => one _

section Steps

variable [Std.Refl related]
variable (appends : ∀ (pool : Pool) (constant : Constant), pool.count + constant.slots ≤ limit →
  related pool (pool.append constant))
include appends

theorem push_preserves (constant : Constant) : Preserves related (push constant) := by
  intro pool
  unfold push
  by_cases full : pool.count + constant.slots > limit
  · simp only [if_pos full]
    exact Std.Refl.refl pool
  · simp only [if_neg full]
    exact appends pool constant (Nat.le_of_not_lt full)

theorem intern_preserves (constant : Constant) : Preserves related (intern constant) := by
  intro pool
  unfold intern
  cases pool.indexOf? constant with
  | some index => exact Std.Refl.refl pool
  | none => exact push_preserves appends constant pool

variable [IsTrans Pool related]

theorem perform_preserves (request : Request) : Preserves related request.perform := by
  cases request with
  | push constant => exact push_preserves appends constant
  | intern symbol =>
    exact symbol.intern_induction (intern_preserves appends) fun _ _ first rest => preserves_bind first rest

theorem serve_related (pool : Pool) (requests : List Request) : related pool (pool.serve requests) := by
  induction requests generalizing pool with
  | nil => exact Std.Refl.refl pool
  | cons request rest continues =>
    exact IsTrans.trans _ _ _ (perform_preserves appends request pool) (continues _)

end Steps

theorem perform_extends (request : Request) : Preserves Extends request.perform :=
  perform_preserves (fun _ _ => append_extends) request

theorem serve_extends (pool : Pool) (requests : List Request) : pool.Extends (pool.serve requests) :=
  serve_related (fun _ _ => append_extends) pool requests

def OverflowsOnly (action : Interning PoolIndex) : Prop :=
  ∀ before error after, action before = (.error error, after) → error = .overflow

theorem push_overflowsOnly (constant : Constant) : OverflowsOnly (push constant) := by
  intro before error after failed
  unfold push at failed
  split at failed <;> cases failed
  rfl

theorem perform_overflowsOnly (request : Request) : OverflowsOnly request.perform := by
  cases request with
  | push constant => exact push_overflowsOnly constant
  | intern symbol =>
    apply symbol.intern_induction
    · intro constant before error after failed
      unfold Pool.intern at failed
      split at failed
      · cases failed
      · exact push_overflowsOnly constant before error after failed
    · intro action next first rest before error after failed
      rw [run_bind] at failed
      split at failed
      · rename_i index middle _
        exact rest index middle error after failed
      · rename_i ran
        cases failed
        exact first before error after ran

/-! ## The layout -/

/-- The pool is not too large, and its empty slots are slot 0 and those right after a wide constant. -/
structure WellFormed (pool : Pool) : Prop where
  fits : pool.count ≤ limit
  vacant : ∀ slot, pool.entries[slot]? = some none ↔
    slot = 0 ∨ ∃ previous wide, slot = previous + 1 ∧ pool.entries[previous]? = some (some wide) ∧ wide.isWide

theorem entries_append (slot : Nat) :
    (pool.append constant).entries[slot]? =
      if slot < pool.count then pool.entries[slot]?
      else if slot = pool.count then some (some constant)
      else if slot = pool.count + 1 ∧ constant.isWide then some none else none := by
  unfold append count
  cases wide : constant.isWide with
  | false => grind
  | true => grind

namespace WellFormed

theorem empty : Pool.empty.WellFormed := by
  refine ⟨by decide, fun slot => ?_⟩
  cases slot with
  | zero => simp [Pool.empty]
  | succ slot => cases slot <;> simp [Pool.empty]

theorem append (formed : pool.WellFormed) (fits : pool.count + constant.slots ≤ limit) :
    (pool.append constant).WellFormed := by
  refine ⟨(append_extends fits).fits formed.fits, fun slot => ?_⟩
  have inside {position : Nat} (vacant : pool.entries[position]? = some none) : position < pool.count :=
    (Array.getElem?_eq_some_iff.mp vacant).1
  have start : 0 < pool.count := inside ((formed.vacant 0).mpr (.inl rfl))
  rcases Nat.lt_or_ge slot pool.count with old | new
  · rw [entries_append, if_pos old, formed.vacant]
    refine or_congr_right (exists_congr fun previous => exists_congr fun wide => and_congr_right fun next => ?_)
    rw [entries_append, if_pos (by omega)]
  · have behind : (pool.append constant).entries[slot]? = some none ↔ slot = pool.count + 1 ∧ constant.isWide := by
      rw [entries_append, if_neg (Nat.not_lt.mpr new)]
      split_ifs <;> simp_all
    rw [behind]
    constructor
    · rintro ⟨rfl, wide⟩
      exact .inr ⟨pool.count, constant, rfl, by simp [entries_append], wide⟩
    · rintro (rfl | ⟨previous, wide, rfl, holds, isWide⟩)
      · omega
      · rw [entries_append] at holds
        split_ifs at holds with early here upper
        · -- a wide constant of the old pool has its second slot there
          have := inside ((formed.vacant _).mpr (.inr ⟨previous, wide, rfl, holds, isWide⟩))
          omega
        · cases holds
          exact ⟨congrArg (· + 1) here, isWide⟩
        · cases holds

theorem serve (formed : pool.WellFormed) (requests : List Request) : (pool.serve requests).WellFormed := by
  let keeps (before after : Pool) : Prop := before.WellFormed → after.WellFormed
  have : Std.Refl keeps := ⟨fun _ => id⟩
  have : IsTrans Pool keeps := ⟨fun _ _ _ first second => second ∘ first⟩
  exact @serve_related keeps _ (fun _ _ fits formed => formed.append fits) _ pool requests formed

end WellFormed

/-! ## What is returned -/

theorem string_ok {text : String} :
    pool.string index = .ok (some text) ↔
      ∃ textIndex, pool.get index = .ok (.string textIndex) ∧ pool.utf8 textIndex = .ok text := by
  unfold Pool.string
  rw [except_bind_ok]
  constructor
  · rintro ⟨constant, found, read⟩
    cases constant with
    | string textIndex =>
      obtain ⟨value, named, same⟩ := except_bind_ok.mp read
      cases same
      exact ⟨textIndex, found, named⟩
    | _ => cases read
  · rintro ⟨textIndex, found, named⟩
    exact ⟨_, found, except_bind_ok.mpr ⟨text, named, rfl⟩⟩

theorem push_ok : push constant before = (.ok index, after) ↔
    before.count + constant.slots ≤ limit ∧ .ofNat before.count = index ∧ before.append constant = after := by
  unfold push
  constructor
  · intro ran
    split at ran <;> cases ran
    exact ⟨Nat.le_of_not_lt ‹_›, rfl, rfl⟩
  · rintro ⟨room, rfl, rfl⟩
    rw [if_neg (Nat.not_lt.mpr room)]

theorem Symbol.names_of_intern (ran : symbol.intern before = (.ok index, after)) (fits : after.count ≤ limit) :
    symbol.Names after index := by
  cases symbol with
  | utf8 text => exact utf8_ok.mpr (get_intern ran fits)
  | classInfo name => exact className_internClass ran fits
  | string text =>
    obtain ⟨textIndex, middle, named, info⟩ := bind_ok.mp ran
    have growth := (intern_extends _).of_run info
    have read := utf8_ok.mpr (get_intern named (Nat.le_trans growth.count_le fits))
    exact string_ok.mpr ⟨textIndex, get_intern info fits, growth.utf8 read⟩
  | nameAndType name descriptor =>
    obtain ⟨nameIndex, descriptorIndex, found, named, described⟩ := get_internNameAndType ran fits
    exact ⟨nameIndex, descriptorIndex, nameAndType_ok.mpr found, named, described⟩
  | field owner name descriptor => exact member_internField ran fits
  | method owner name descriptor => exact member_internMethod ran fits

theorem perform_answers (ran : request.perform before = (.ok index, after)) (fits : after.count ≤ limit) :
    request.Answers after index := by
  cases request with
  | push constant =>
    obtain ⟨room, rfl, rfl⟩ := push_ok.mp ran
    exact get_append room
  | intern symbol => exact Symbol.names_of_intern ran fits

/-! ## The invariant -/

def Unusable (pool : Pool) (index : PoolIndex) : Prop :=
  index.toNat < pool.count ∧ ∀ constant, pool.get index ≠ .ok constant

theorem unusable_iff : pool.Unusable index ↔ pool.entries[index.toNat]? = some none := by
  constructor
  · rintro ⟨inside, unread⟩
    cases entry : pool.entries[index.toNat]? with
    | none => exact absurd inside (Nat.not_lt.mpr (Array.getElem?_eq_none_iff.mp entry))
    | some found =>
      cases found with
      | none => rfl
      | some constant => exact absurd (get_ok.mpr entry) (unread constant)
  · intro vacant
    refine ⟨(Array.getElem?_eq_some_iff.mp vacant).1, fun constant read => ?_⟩
    rw [get_ok, vacant] at read
    cases read

theorem WellFormed.unusable_iff (formed : pool.WellFormed) :
    pool.Unusable index ↔ index = 0 ∨
      ∃ previous wide, previous.toNat + 1 = index.toNat ∧ pool.get previous = .ok wide ∧ wide.isWide := by
  rw [Pool.unusable_iff, formed.vacant]
  refine or_congr (by rw [← UInt16.toNat_inj]; rfl) ?_
  constructor
  · rintro ⟨previous, wide, next, holds, isWide⟩
    have small : previous < 65536 := by
      have := index.toNat_lt
      omega
    refine ⟨.ofNat previous, wide, ?_, get_ok.mpr ?_, isWide⟩
    · rw [UInt16.toNat_ofNat_of_lt' small, next]
    · rw [UInt16.toNat_ofNat_of_lt' small, holds]
  · rintro ⟨previous, wide, next, holds, isWide⟩
    exact ⟨previous.toNat, wide, next.symm, get_ok.mp holds, isWide⟩

theorem isWide_iff : constant.isWide ↔ (∃ value, constant = .long value) ∨ ∃ bits, constant = .double bits := by
  cases constant <;> simp [Constant.isWide]

theorem serve_append (pool : Pool) (requests more : List Request) :
    pool.serve (requests ++ more) = (pool.serve requests).serve more :=
  List.foldl_append

/-- Whatever a new pool is asked to add, it stays within its limit and keeps its layout; an index that is returned leads to
what was asked for, one that leads somewhere goes on to lead there, and a request that fails leaves at most more constants
behind. -/
theorem served_pool_invariant (requests : List Request) :
    let pool := empty.serve requests
    pool.count ≤ 65535 ∧
    (∀ index, pool.Unusable index ↔ index = 0 ∨ ∃ previous : PoolIndex, previous.toNat + 1 = index.toNat ∧
      ((∃ value, pool.get previous = .ok (.long value)) ∨ ∃ bits, pool.get previous = .ok (.double bits))) ∧
    (∀ (request : Request) index after, request.perform pool = (.ok index, after) → request.Answers after index) ∧
    (∀ constant index after, push constant pool = (.ok index, after) → index.toNat = pool.count) ∧
    (∀ index constant, pool.get index = .ok constant →
      ∀ more, (empty.serve (requests ++ more)).get index = .ok constant) ∧
    (∀ (request : Request) error after, request.perform pool = (.error error, after) → error = .overflow ∧ pool.Extends after) := by
  intro pool
  have formed : pool.WellFormed := WellFormed.empty.serve requests
  refine ⟨formed.fits, fun index => ?_, fun request index after ran => ?_, fun constant index after ran => ?_,
    fun index constant read more => ?_, fun request error after failed => ?_⟩
  · rw [formed.unusable_iff]
    refine or_congr_right (exists_congr fun previous => ?_)
    simp only [isWide_iff]
    grind
  · exact perform_answers ran (((perform_extends request).of_run ran).fits formed.fits)
  · obtain ⟨room, rfl, _⟩ := push_ok.mp ran
    exact UInt16.toNat_ofNat_of_lt' (Nat.lt_succ_of_le (Nat.le_trans (Nat.le_add_right _ _) room))
  · rw [serve_append]
    exact (serve_extends pool more).get read
  · exact ⟨perform_overflowsOnly request pool error after failed, (perform_extends request).of_run failed⟩

/-! ## A pool that is filled up -/

def beginning : List Request := [.intern (.utf8 "a"), .push (.long 7)]

def filling : List Request := beginning ++ List.replicate 65531 (.push (.integer 0))

theorem count_serve_replicate (added : Nat) (room : pool.count + added ≤ limit) :
    (pool.serve (List.replicate added (.push (.integer 0)))).count = pool.count + added := by
  induction added generalizing pool with
  | zero => rfl
  | succ added continues =>
    have step : ((Request.push (.integer 0)).perform pool).2 = pool.append (.integer 0) := by
      have fits : pool.count + (Constant.integer 0).slots ≤ limit := Nat.le_trans (by simp [Constant.slots, Constant.isWide]) room
      rw [Request.perform, push_ok.mpr ⟨fits, rfl, rfl⟩]
    have grown : (pool.append (.integer 0)).count = pool.count + 1 := by
      simp [count, append, Constant.isWide]
    rw [List.replicate_succ, serve, List.foldl_cons, step, ← serve, continues (by omega), grown]
    omega

theorem count_beginning : (empty.serve beginning).count = 4 := by decide +kernel

theorem push_filled : push (.integer 0) (empty.serve filling) = (.error .overflow, empty.serve filling) := by
  have full : (empty.serve filling).count = 65535 := by
    rw [filling, serve_append, count_serve_replicate _ (by rw [count_beginning]; exact Nat.le_refl _), count_beginning]
  unfold push
  rw [full]
  rfl

theorem filling_keeps_invariant :
    ((empty.serve beginning).get 2 = .ok (.long 7) ∧ (empty.serve filling).get 2 = .ok (.long 7)) ∧
    (empty.serve filling).Unusable 3 ∧
    (push (.integer 0) (empty.serve beginning) = (.ok 4, (empty.serve beginning).append (.integer 0)) ∧
      ((empty.serve beginning).append (.integer 0)).get 4 = .ok (.integer 0)) ∧
    push (.integer 0) (empty.serve filling) = (.error .overflow, empty.serve filling) ∧
    (empty.serve filling).Extends (empty.serve filling) := by
  obtain ⟨_, _, answers, _, stays, _⟩ := served_pool_invariant beginning
  obtain ⟨_, unusable, _, _, _, fails⟩ := served_pool_invariant filling
  have read : (empty.serve beginning).get 2 = .ok (.long 7) := get_ok.mpr (by decide +kernel)
  have ran : push (.integer 0) (empty.serve beginning) = (.ok 4, (empty.serve beginning).append (.integer 0)) :=
    push_ok.mpr ⟨by rw [count_beginning]; decide, by rw [count_beginning]; rfl, rfl⟩
  have later := stays 2 _ read (List.replicate 65531 (.push (.integer 0)))
  exact ⟨⟨read, later⟩, (unusable 3).mpr (.inr ⟨2, rfl, .inl ⟨7, later⟩⟩),
    ⟨ran, answers (.push (.integer 0)) 4 _ ran⟩, push_filled, (fails (.push (.integer 0)) _ _ push_filled).2⟩

end Pool

end ClassLift
