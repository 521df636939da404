import ClassLift.Signature
import Mathlib.Data.List.TakeWhile

namespace ClassLift

namespace Signature

inductive Reads : Reader → List Char → Found → Prop
  | stop {reader : Reader} {text : List Char} (move : reader.move text = .stop) : Reads reader text .stopped
  | done {reader : Reader} {text rest : List Char} {names : List String} (move : reader.move text = .done names rest) :
      Reads reader text (names, some rest)
  | become {reader next : Reader} {text rest : List Char} {found : Found} (move : reader.move text = .become next rest)
      (reads : Reads next rest found) : Reads reader text found
  | halt {reader inner next : Reader} {text rest : List Char} {names : List String}
      (move : reader.move text = .letFirst inner rest next) (first : Reads inner rest (names, none)) :
      Reads reader text (names, none)
  | letFirst {reader inner next : Reader} {text rest after : List Char} {names : List String} {found : Found}
      (move : reader.move text = .letFirst inner rest next) (first : Reads inner rest (names, some after))
      (second : Reads next after found) : Reads reader text (names ++ found.1, found.2)

variable {reader : Reader} {text : List Char} {found again : Found}

theorem Reads.unique (one : Reads reader text found) (other : Reads reader text again) : found = again := by
  induction one generalizing again with
  | stop move =>
    cases other with
    | stop _ => rfl
    | _ => simp_all
  | done move =>
    cases other with
    | done same =>
      cases move.symm.trans same
      rfl
    | _ => simp_all
  | become move _ continues =>
    cases other with
    | become same reads =>
      cases move.symm.trans same
      exact continues reads
    | _ => simp_all
  | halt move _ first =>
    cases other with
    | halt same reads =>
      cases move.symm.trans same
      exact first reads
    | letFirst same reads _ =>
      cases move.symm.trans same
      cases first reads
    | _ => simp_all
  | letFirst move _ _ first second =>
    cases other with
    | halt same reads =>
      cases move.symm.trans same
      cases first reads
    | letFirst same reads further =>
      cases move.symm.trans same
      cases first reads
      rw [second further]
    | _ => simp_all

/-! ## Progress -/

/-- Readers that turn into each other without reading a character, in order. -/
def Reader.weight : Reader → Nat
  | type | suffix _ | moreBounds | thrown => 1
  | className _ | arguments | bound | formals | parameters | .result | types => 2
  | body => 3
  | signature => 4

/-- How many characters the reader takes at least before it is done. -/
def Reader.least : Reader → Nat
  | type | className _ | suffix _ => 1
  | _ => 0

def Reader.depth (reader : Reader) (text : List Char) : Nat := 2 * text.length + reader.weight

/-- The move takes as many characters as the reader has to, and leads to tasks of less depth. What follows an inner reader
starts behind the characters that this one takes. -/
def Move.Progresses (reader : Reader) (text : List Char) : Move → Prop
  | stop => True
  | done _ rest => rest.length + reader.least ≤ text.length
  | become next rest => rest.length + reader.least ≤ text.length + next.least ∧ next.depth rest < reader.depth text
  | letFirst inner rest next =>
      rest.length + reader.least ≤ text.length + inner.least + next.least ∧ inner.depth rest < reader.depth text ∧
        next.depth rest < reader.depth text + 2 * inner.least

theorem length_dropMark_le (mark : Char) (text : List Char) : (dropMark mark text).length ≤ text.length := by
  cases text with
  | nil => exact Nat.le_refl _
  | cons letter rest =>
    rw [dropMark]
    split
    · exact Nat.le_succ _
    · exact Nat.le_refl _

theorem length_lt_of_dropWhile {p : Char → Bool} {letter : Char} {rest : List Char} (cut : text.dropWhile p = letter :: rest) :
    rest.length < text.length := by
  have shorter := (List.dropWhile_sublist p (l := text)).length_le
  rw [cut] at shorter
  exact shorter

theorem progresses_of_move {move : Move} (made : reader.move text = move) : move.Progresses reader text := by
  subst made
  fun_cases Reader.move reader text
  -- the readers that stop
  case case1 | case4 | case7 | case12 | case16 | case22 => trivial
  -- those that go on behind a letter they looked for
  case case5 | case8 | case23 =>
    rename_i cut
    have := length_lt_of_dropWhile cut
    simp only [Move.Progresses, Reader.least, Reader.depth, Reader.weight, List.length_cons]
    omega
  case case9 =>
    have := (List.dropWhile_sublist (!endsName ·) (l := text)).length_le
    simp only [Move.Progresses, Reader.least, Reader.depth, Reader.weight]
    omega
  case case15 =>
    have := Nat.le_trans (length_dropMark_le '-' (dropMark '+' text)) (length_dropMark_le '+' text)
    simp only [Move.Progresses, Reader.least, Reader.depth, Reader.weight]
    omega
  all_goals
    simp only [Move.Progresses, Reader.least, Reader.depth, Reader.weight, List.length_cons]
    omega

theorem Reads.length_le {rest : List Char} (reads : Reads reader text found) (left : found.2 = some rest) :
    rest.length + reader.least ≤ text.length := by
  induction reads generalizing rest with
  | stop => cases left
  | done move =>
    cases left
    exact progresses_of_move move
  | become move _ continues =>
    have progress := (progresses_of_move move).1
    have := continues left
    omega
  | halt => cases left
  | letFirst move _ _ first second =>
    have progress := (progresses_of_move move).1
    have := first rfl
    have := second left
    omega

theorem reads_readWithin {depth : Nat} (enough : reader.depth text ≤ depth) :
    Reads reader text (reader.readWithin depth text) := by
  induction depth generalizing reader text with
  | zero =>
    have positive : 0 < reader.depth text := by cases reader <;> simp [Reader.depth, Reader.weight]
    omega
  | succ depth continues =>
    unfold Reader.readWithin
    cases move : reader.move text with
    | stop => exact .stop move
    | done names rest => exact .done move
    | become next rest =>
      have progress := (progresses_of_move move).2
      exact .become move (continues (by omega))
    | letFirst inner rest next =>
      obtain ⟨_, first, second⟩ := progresses_of_move move
      have reads : Reads inner rest (inner.readWithin depth rest) := continues (by omega)
      change Reads reader text ((inner.readWithin depth rest).andThen (next.readWithin depth))
      cases taken : inner.readWithin depth rest with
      | mk names left =>
        rw [taken] at reads
        cases left with
        | none => exact .halt move reads
        | some after =>
          have shorter := reads.length_le rfl
          have enough : next.depth after ≤ depth := by
            unfold Reader.depth at second enough ⊢
            omega
          exact .letFirst move reads (continues enough)

theorem reads_classNames (signature : String) :
    ∃ rest, Reads .signature signature.toList (classNames signature, rest) :=
  ⟨_, reads_readWithin (Nat.le_refl _)⟩

/-! ## Names -/

def PlainText (text : List Char) : Prop := ∀ letter ∈ text, endsName letter = false

def Reader.Plain : Reader → Prop
  | className name | suffix name => PlainText name
  | _ => True

def Move.Plain : Move → Prop
  | stop => True
  | done names _ => ∀ name ∈ names, PlainText name.toList
  | become next _ => next.Plain
  | letFirst inner _ next => inner.Plain ∧ next.Plain

theorem PlainText.append {other : List Char} (first : PlainText text) (second : PlainText other) : PlainText (text ++ other) :=
  fun letter inside => (List.mem_append.mp inside).elim (first letter) (second letter)

theorem plainText_takeWhile (text : List Char) : PlainText (text.takeWhile (!endsName ·)) := by
  intro letter inside
  simpa using List.mem_takeWhile_imp inside

theorem plain_of_move {move : Move} (plain : reader.Plain) (made : reader.move text = move) : move.Plain := by
  subst made
  fun_cases Reader.move reader text
  case case8 => exact ⟨trivial, plain.append (plainText_takeWhile text)⟩
  case case9 => exact plain.append (plainText_takeWhile text)
  case case10 => exact plain.append (by simp [PlainText, endsName])
  case case11 => simpa [Move.Plain, Reader.Plain] using plain
  all_goals simp [Move.Plain, Reader.Plain, PlainText]

theorem Reads.plain (reads : Reads reader text found) (plain : reader.Plain) : ∀ name ∈ found.1, PlainText name.toList := by
  induction reads with
  | stop => simp [Found.stopped]
  | done move => exact plain_of_move plain move
  | become move _ continues => exact continues (plain_of_move plain move)
  | halt move _ first => exact first (plain_of_move plain move).1
  | letFirst move _ _ first second =>
    obtain ⟨inner, next⟩ := plain_of_move plain move
    intro name among
    exact (List.mem_append.mp among).elim (first inner name) (second next name)

end Signature

end ClassLift
