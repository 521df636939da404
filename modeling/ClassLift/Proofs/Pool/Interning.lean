import ClassLift.Proofs.Pool.History

namespace ClassLift

namespace Pool

variable {pool before after later : Pool} {index : PoolIndex} {constant : Constant} {symbol : Symbol}
variable {wanted listed more : List Constant} {action : Interning PoolIndex} {next : PoolIndex → Interning PoolIndex}

/-! ## Symbols in pools that grow -/

theorem Symbol.Names.extend (names : symbol.Names before index) (grown : before.Extends after) : symbol.Names after index := by
  cases symbol with
  | utf8 text => exact grown.utf8 names
  | classInfo name => exact grown.className names
  | string text =>
    obtain ⟨textIndex, found, read⟩ := string_ok.mp names
    exact string_ok.mpr ⟨textIndex, grown.get found, grown.utf8 read⟩
  | nameAndType name descriptor =>
    obtain ⟨nameIndex, descriptorIndex, found, named, described⟩ := names
    exact ⟨nameIndex, descriptorIndex, nameAndType_ok.mpr (grown.get (nameAndType_ok.mp found)), grown.utf8 named,
      grown.utf8 described⟩
  | field owner name descriptor | method owner name descriptor =>
    obtain ⟨nameIndex, descriptorIndex, found⟩ := names
    exact ⟨nameIndex, descriptorIndex, grown.member found⟩

theorem Extends.indexOf? (grown : before.Extends after) (found : before.indexOf? constant = some index) :
    after.indexOf? constant = some index := by
  obtain ⟨added, same⟩ := grown.entries
  obtain ⟨position, first, rfl⟩ := Option.map_eq_some_iff.mp found
  simp [Pool.indexOf?, same, Array.findIdx?_append, first]

theorem indexOf?_eq_none : pool.indexOf? constant = none ↔ some constant ∉ pool.entries := by
  simp only [indexOf?, Option.map_eq_none_iff, Array.findIdx?_eq_none_iff, beq_eq_false_iff_ne]
  exact ⟨fun apart held => apart _ held rfl, fun missing entry held same => missing (same ▸ held)⟩

theorem indexOf?_append (missing : pool.indexOf? constant = none) :
    (pool.append constant).indexOf? constant = some (.ofNat pool.count) := by
  have unmatched : pool.entries.findIdx? (· == some constant) = none := Option.map_eq_none_iff.mp missing
  unfold append indexOf?
  cases constant.isWide <;> simp [Array.findIdx?_push, unmatched, count]

theorem indexOf?_intern (ran : intern constant before = (.ok index, after)) : after.indexOf? constant = some index := by
  unfold intern at ran
  cases search : before.indexOf? constant with
  | some found =>
    rw [search] at ran
    cases ran
    exact search
  | none =>
    rw [search] at ran
    obtain ⟨_, rfl, rfl⟩ := push_ok.mp ran
    exact indexOf?_append search

/-- Once it has succeeded, the action finds its result in every later pool and changes nothing. -/
def Settles (action : Interning PoolIndex) : Prop :=
  ∀ before index after later, action before = (.ok index, after) → after.Extends later → action later = (.ok index, later)

theorem intern_settles (constant : Constant) : Settles (intern constant) := by
  intro before index after later ran grown
  unfold intern
  rw [grown.indexOf? (indexOf?_intern ran)]

theorem Symbol.intern_settles (symbol : Symbol) : Settles symbol.intern := by
  have both : Settles symbol.intern ∧ Preserves Extends symbol.intern := by
    apply symbol.intern_induction (motive := fun action => Settles action ∧ Preserves Extends action)
    · exact fun constant => ⟨Pool.intern_settles constant, intern_extends constant⟩
    · intro action next first rest
      refine ⟨fun before index after later ran grown => ?_, preserves_bind first.2 fun index => (rest index).2⟩
      obtain ⟨part, middle, early, final⟩ := bind_ok.mp ran
      have between := ((rest part).2).of_run final
      exact bind_ok.mpr ⟨part, later, first.1 before part middle later early (between.trans grown),
        (rest part).1 middle index after later final grown⟩
  exact both.1

/-! ## The entries of a symbol -/

def lacking (pool : Pool) (wanted : List Constant) : List Constant :=
  (wanted.filter fun constant => some constant ∉ pool.entries).eraseDups

def completed (pool : Pool) (wanted : List Constant) : Pool :=
  ⟨pool.entries ++ ((pool.lacking wanted).map some).toArray⟩

def lastPlace (pool : Pool) (wanted : List Constant) : PoolIndex :=
  (wanted.getLast?.bind (pool.completed wanted).indexOf?).getD 0

def classEntries (pool : Pool) (name : String) : List Constant :=
  let named := [.utf8 name]
  named ++ [.classInfo (pool.lastPlace named)]

def nameAndTypeEntries (pool : Pool) (wanted : List Constant) (name descriptor : String) : List Constant :=
  let named := wanted ++ [.utf8 name]
  let described := named ++ [.utf8 descriptor]
  described ++ [.nameAndType (pool.lastPlace named) (pool.lastPlace described)]

def memberEntries (pool : Pool) (reference : PoolIndex → PoolIndex → Constant) (owner name descriptor : String) :
    List Constant :=
  let owned := pool.classEntries owner
  let typed := pool.nameAndTypeEntries owned name descriptor
  typed ++ [reference (pool.lastPlace owned) (pool.lastPlace typed)]

/-- The constants that make up a symbol, each after the parts that it refers to. A part is referred to where it stands
first, or where it will stand. -/
def Symbol.entries (pool : Pool) : Symbol → List Constant
  | utf8 text => [.utf8 text]
  | classInfo name => pool.classEntries name
  | string text => [.utf8 text, .string (pool.lastPlace [.utf8 text])]
  | nameAndType name descriptor => pool.nameAndTypeEntries [] name descriptor
  | field owner name descriptor => pool.memberEntries .fieldRef owner name descriptor
  | method owner name descriptor => pool.memberEntries .methodRef owner name descriptor

@[simp] theorem completed_nil : pool.completed [] = pool := by
  simp [completed, lacking]

theorem count_completed : (pool.completed wanted).count = pool.count + (pool.lacking wanted).length := by
  simp [completed, count]

theorem mem_completed : some constant ∈ (pool.completed wanted).entries ↔ some constant ∈ pool.entries ∨ constant ∈ wanted := by
  simp only [completed, lacking, Array.mem_append, List.mem_toArray, List.mem_map, List.mem_eraseDups, List.mem_filter,
    decide_eq_true_eq, Option.some.injEq, exists_eq_right]
  grind

theorem lacking_snoc : pool.lacking (wanted ++ [constant]) =
    if some constant ∈ (pool.completed wanted).entries then pool.lacking wanted else pool.lacking wanted ++ [constant] := by
  simp only [mem_completed, lacking, List.filter_append, List.eraseDups_append]
  by_cases old : some constant ∈ pool.entries
  · simp [old]
  · by_cases listed : constant ∈ wanted
    · simp [old, listed, List.removeAll]
    · simp [old, listed, List.removeAll, List.eraseDups_cons]

theorem completed_of_held (held : some constant ∈ (pool.completed wanted).entries) :
    pool.completed (wanted ++ [constant]) = pool.completed wanted := by
  rw [completed, lacking_snoc, if_pos held, completed]

theorem completed_of_missing (narrow : constant.isWide = false) (missing : some constant ∉ (pool.completed wanted).entries) :
    pool.completed (wanted ++ [constant]) = (pool.completed wanted).append constant := by
  rw [completed, lacking_snoc, if_neg missing, append, narrow]
  simp [completed]

theorem lastPlace_snoc :
    pool.lastPlace (wanted ++ [constant]) = ((pool.completed (wanted ++ [constant])).indexOf? constant).getD 0 := by
  simp [lastPlace]

/-! ## Interning a symbol completes its entries -/

/-- The action takes the pool from one list of entries to a longer one and returns the place of the last entry, or fails
because they do not all fit. -/
structure Follows (pool : Pool) (wanted listed : List Constant) (action : Interning PoolIndex) : Prop where
  grows : (pool.completed wanted).count ≤ (pool.completed listed).count
  succeeds : (pool.completed listed).count ≤ limit →
    action (pool.completed wanted) = (.ok (pool.lastPlace listed), pool.completed listed)
  fails : (pool.completed wanted).count ≤ limit → limit < (pool.completed listed).count →
    ∃ error after, action (pool.completed wanted) = (.error error, after)

theorem Follows.bind (first : pool.Follows wanted listed action)
    (rest : pool.Follows listed more (next (pool.lastPlace listed))) : pool.Follows wanted more (action >>= next) := by
  refine ⟨Nat.le_trans first.grows rest.grows, fun fits => ?_, fun room overflows => ?_⟩
  · exact bind_ok.mpr ⟨_, _, first.succeeds (Nat.le_trans rest.grows fits), rest.succeeds fits⟩
  · rw [run_bind]
    rcases Nat.lt_or_ge limit (pool.completed listed).count with early | later
    · obtain ⟨error, after, failed⟩ := first.fails room early
      exact ⟨error, after, by rw [failed]⟩
    · obtain ⟨error, after, failed⟩ := rest.fails later overflows
      exact ⟨error, after, by rw [first.succeeds later]; exact failed⟩

theorem follows_intern (narrow : constant.isWide = false) :
    pool.Follows wanted (wanted ++ [constant]) (intern constant) := by
  have one : constant.slots = 1 := by simp [Constant.slots, narrow]
  by_cases held : some constant ∈ (pool.completed wanted).entries
  · have same := completed_of_held held
    cases search : (pool.completed wanted).indexOf? constant with
    | none => exact absurd held (indexOf?_eq_none.mp search)
    | some index =>
      refine ⟨Nat.le_of_eq (by rw [same]), fun _ => ?_, fun room overflows => ?_⟩
      · simp only [intern, search, lastPlace_snoc, same, Option.getD_some]
      · rw [same] at overflows
        omega
  · have grown := completed_of_missing narrow held
    have counted : (pool.completed (wanted ++ [constant])).count = (pool.completed wanted).count + 1 := by
      rw [grown]
      simp [append, count, narrow]
    have search := indexOf?_eq_none.mpr held
    refine ⟨by omega, fun fits => ?_, fun room overflows => ⟨.overflow, pool.completed wanted, ?_⟩⟩
    · simp only [intern, search, lastPlace_snoc]
      rw [grown, indexOf?_append search]
      exact push_ok.mpr ⟨by omega, rfl, rfl⟩
    · simp only [intern, search, push]
      rw [if_pos (by omega)]

theorem internClass_follows (name : String) : pool.Follows [] (pool.classEntries name) (internClass name) :=
  (follows_intern rfl).bind (follows_intern rfl)

theorem internNameAndType_follows (name descriptor : String) :
    pool.Follows wanted (pool.nameAndTypeEntries wanted name descriptor) (internNameAndType name descriptor) :=
  (follows_intern rfl).bind ((follows_intern rfl).bind (follows_intern rfl))

theorem Symbol.intern_follows (symbol : Symbol) : pool.Follows [] (symbol.entries pool) symbol.intern := by
  cases symbol with
  | utf8 text => exact follows_intern rfl
  | classInfo name => exact internClass_follows name
  | string text => exact (follows_intern rfl).bind (follows_intern rfl)
  | nameAndType name descriptor => exact internNameAndType_follows name descriptor
  | field owner name descriptor | method owner name descriptor =>
    exact (internClass_follows owner).bind ((internNameAndType_follows name descriptor).bind (follows_intern rfl))

/-! ## What holds of an interned symbol -/

/-- Interning a symbol in a pool with any history. The index that it returns resolves to the symbol in all extensions of the
pool, and asking again, whatever was asked in between, gives the same index and changes nothing. It succeeds exactly if the
entries of the symbol that the pool lacks fit in, and then appends just these. -/
theorem interned_symbol_resolves (requests : List Request) (symbol : Symbol) :
    let pool := empty.serve requests
    (∀ index after, symbol.intern pool = (.ok index, after) →
      after = pool.completed (symbol.entries pool) ∧
      (∀ later, after.Extends later → symbol.Names later index) ∧
      ∀ more, symbol.intern (after.serve more) = (.ok index, after.serve more)) ∧
    ((∃ error after, symbol.intern pool = (.error error, after)) ↔
      65535 < pool.count + (pool.lacking (symbol.entries pool)).length) := by
  intro pool
  have fits : pool.count ≤ limit := (WellFormed.empty.serve requests).fits
  have follows : pool.Follows [] (symbol.entries pool) symbol.intern := symbol.intern_follows
  have succeeds := follows.succeeds
  have fails := follows.fails
  rw [completed_nil] at succeeds fails
  rw [← count_completed]
  refine ⟨fun index after ran => ⟨?_, fun later grown => ?_, fun more => ?_⟩, ?_, fails fits⟩
  · rcases Nat.lt_or_ge limit (pool.completed (symbol.entries pool)).count with overflows | room
    · obtain ⟨error, left, failed⟩ := fails fits overflows
      rw [failed] at ran
      cases ran
    · rw [succeeds room] at ran
      cases ran
      rfl
  · have growth := (perform_extends (.intern symbol)).of_run ran
    exact (Symbol.names_of_intern ran (growth.fits fits)).extend grown
  · exact symbol.intern_settles _ _ _ _ ran (serve_extends after more)
  · rintro ⟨error, after, failed⟩
    refine Nat.lt_of_not_le fun room => ?_
    rw [succeeds room] at failed
    cases failed

/-- The name of the class twice, the second time as the name of a class, and not yet as the name of a field. -/
def doubled : List Request := [.push (.utf8 "x"), .push (.utf8 "x"), .push (.classInfo 2)]

def doubledField : Pool :=
  ⟨#[none, some (.utf8 "x"), some (.utf8 "x"), some (.classInfo 2), some (.classInfo 1), some (.utf8 "I"),
    some (.nameAndType 1 5), some (.fieldRef 4 6)]⟩

theorem intern_doubled : (Symbol.field "x" "x" "I").intern (empty.serve doubled) = (.ok 7, doubledField) := by
  with_unfolding_all rfl

theorem doubled_field_resolves :
    (Symbol.field "x" "x" "I").intern (empty.serve doubled) = (.ok 7, doubledField) ∧
    (∃ nameIndex descriptorIndex, doubledField.member 7 = .ok ⟨"x", "x", "I", nameIndex, descriptorIndex⟩) ∧
    (Symbol.field "x" "x" "I").intern (doubledField.serve doubled) = (.ok 7, doubledField.serve doubled) := by
  obtain ⟨_, names, again⟩ := (interned_symbol_resolves doubled (.field "x" "x" "I")).1 7 doubledField intern_doubled
  exact ⟨intern_doubled, names doubledField (.refl _), again doubled⟩

end Pool

end ClassLift
