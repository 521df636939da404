import ClassLift.Descriptor
import Mathlib.Data.List.TakeWhile

namespace ClassLift

/-! ## The last mark of a text -/

namespace Text

variable {mark : Char} {text front back : List Char}

theorem eq_mark_of_dropWhile {first : Char} (dropped : text.dropWhile (· != mark) = first :: back) : first = mark := by
  have stops := List.head_dropWhile_not (· != mark) (l := text) (by simp [dropped])
  simpa [dropped] using stops

theorem afterLast_append (absent : mark ∉ back) : afterLast mark (front ++ mark :: back) = back := by
  have unlike : ∀ letter ∈ back.reverse, (letter != mark) = true := by
    intro letter among
    rw [bne_iff_ne]
    rintro rfl
    exact absent (List.mem_reverse.mp among)
  unfold afterLast
  rw [List.reverse_append, List.reverse_cons, List.append_assoc, List.takeWhile_append_of_pos unlike]
  simp

theorem append_mark_afterLast (marked : mark ∈ text) : beforeLast mark text ++ mark :: afterLast mark text = text := by
  have parts := List.takeWhile_append_dropWhile (p := (· != mark)) (l := text.reverse)
  cases rest : text.reverse.dropWhile (· != mark) with
  | nil =>
    have unlike := List.dropWhile_eq_nil_iff.mp rest mark (List.mem_reverse.mpr marked)
    simp at unlike
  | cons first others =>
    cases eq_mark_of_dropWhile rest
    rw [rest] at parts
    rw [beforeLast, afterLast, rest, List.tail_cons]
    simpa using congrArg List.reverse parts

end Text

namespace Descriptor

/-! ## Field descriptors -/

/-- A primitive letter, or a name between `L` and `;`, behind any number of `[`. -/
inductive IsField : List Char → Prop
  | primitive {letter : Char} (listed : letter ∈ ['B', 'C', 'D', 'F', 'I', 'J', 'S', 'Z']) : IsField [letter]
  | object (name : List Char) (plain : ';' ∉ name) : IsField ('L' :: name ++ [';'])
  | array {element : List Char} (field : IsField element) : IsField ('[' :: element)

variable {text piece rest : List Char} {pieces : List (List Char)} {bound : Nat}

theorem IsField.ne_nil (field : IsField piece) : piece ≠ [] := by
  cases field <;> simp

theorem IsField.append_ne_closing (field : IsField piece) : piece ++ text ≠ ')' :: rest := by
  cases field with
  | primitive listed =>
    rintro ⟨⟩
    simp at listed
  | object => simp
  | array => simp

theorem cut_field (field : IsField piece) (rest : List Char) : cut (piece ++ rest) = some (.ok (piece, rest)) := by
  induction field with
  | primitive listed =>
    simp only [List.mem_cons, List.not_mem_nil, or_false] at listed
    rcases listed with rfl | rfl | rfl | rfl | rfl | rfl | rfl | rfl <;> rfl
  | object name plain =>
    have unlike : ∀ letter ∈ name, (letter != ';') = true := by
      intro letter among
      rw [bne_iff_ne]
      rintro rfl
      exact plain among
    simp only [List.cons_append, List.append_assoc, List.nil_append]
    unfold cut
    simp [List.takeWhile_append_of_pos unlike, List.dropWhile_append_of_pos unlike]
  | array _ continues =>
    rw [List.cons_append, cut, continues]
    rfl

theorem eq_append_of_cut (found : cut text = some (.ok (piece, rest))) : piece ≠ [] ∧ text = piece ++ rest := by
  induction text generalizing piece with
  | nil => cases found
  | cons first others continues =>
    unfold cut at found
    split at found
    case h_1 same => cases same
    case h_2 inner same =>
      cases same
      simp only [Option.map_eq_some_iff] at found
      obtain ⟨outcome, cutInner, mapped⟩ := found
      cases outcome with
      | error => cases mapped
      | ok parts =>
        cases mapped
        obtain ⟨_, same⟩ := continues cutInner
        exact ⟨List.cons_ne_nil _ _, by rw [same, List.cons_append]⟩
    case h_3 inner same =>
      cases same
      split at found
      · cases found
      · rename_i mark left dropped
        cases found
        cases Text.eq_mark_of_dropWhile dropped
        refine ⟨List.cons_ne_nil _ _, ?_⟩
        simpa [dropped] using (List.takeWhile_append_dropWhile (p := (· != ';')) (l := others)).symm
    case h_4 same =>
      cases same
      split at found
      · cases found
        exact ⟨List.cons_ne_nil _ _, rfl⟩
      · cases found

/-! ## Lists of field descriptors -/

theorem cutAll_fields (fields : ∀ piece ∈ pieces, IsField piece) (room : pieces.flatten.length ≤ bound) :
    cutAll bound (pieces.flatten ++ ')' :: rest) = .ok pieces := by
  induction pieces generalizing bound with
  | nil => cases bound <;> rfl
  | cons piece others continues =>
    have field := fields piece List.mem_cons_self
    have some : 0 < piece.length := List.length_pos_iff.mpr field.ne_nil
    rw [List.flatten_cons, List.length_append] at room
    obtain ⟨bound, rfl⟩ : ∃ less, bound = less + 1 := ⟨bound - 1, by omega⟩
    have found := cut_field field (others.flatten ++ ')' :: rest)
    rw [List.flatten_cons, List.append_assoc]
    unfold cutAll
    split
    case h_1 same => cases same
    case h_2 _ _ nothing => simp [field.ne_nil] at nothing
    case h_3 _ _ closed => exact absurd closed field.append_ne_closing
    case h_4 same _ _ =>
      cases same
      have later := continues (fun piece among => fields piece (.tail _ among)) (show others.flatten.length ≤ bound by omega)
      simp only [found, later]
      rfl

theorem prefix_of_cutAll (found : cutAll bound text = .ok pieces) : (∀ piece ∈ pieces, piece ≠ []) ∧ pieces.flatten <+: text := by
  induction bound generalizing text pieces with
  | zero =>
    cases found
    simp
  | succ bound continues =>
    unfold cutAll at found
    split at found
    case h_1 same => cases same
    case h_2 =>
      cases found
      simp
    case h_3 =>
      cases found
      simp
    case h_4 same _ _ =>
      cases same
      split at found
      · cases found
        simp
      · cases found
      · rename_i piece left cutOff
        cases others : cutAll bound left with
        | error =>
          rw [others] at found
          cases found
        | ok more =>
          rw [others] at found
          cases found
          obtain ⟨some, same⟩ := eq_append_of_cut cutOff
          obtain ⟨all, start⟩ := continues others
          refine ⟨fun one among => ?_, ?_⟩
          · rcases List.mem_cons.mp among with rfl | among
            · exact some
            · exact all one among
          · rw [same, List.flatten_cons]
            exact List.prefix_append_right_inj _ |>.mpr start

theorem prefix_of_parameters {method : String} {pieces : List String} (found : parameters method = .ok pieces) :
    (∀ piece ∈ pieces, piece ≠ "") ∧ (∀ text, method = "(" ++ text → ∃ rest, text = String.join pieces ++ rest) ∧
      ((∀ text, method ≠ "(" ++ text) → pieces = []) := by
  unfold parameters at found
  split at found
  case h_1 text opened =>
    have same : method = "(" ++ String.ofList text := String.toList_injective (by simp [opened])
    cases cutOff : cutAll text.length text with
    | error =>
      rw [cutOff] at found
      cases found
    | ok parts =>
      rw [cutOff] at found
      cases found
      obtain ⟨all, rest, start⟩ := prefix_of_cutAll cutOff
      refine ⟨fun piece among => ?_, fun other given => ⟨String.ofList rest, ?_⟩, fun unopened => absurd same (unopened _)⟩
      · obtain ⟨part, listed, rfl⟩ := List.mem_map.mp among
        simpa using all part listed
      · apply String.toList_injective
        rw [given] at opened
        have tail : other.toList = text := by simpa using opened
        simp [tail, ← start, List.flatMap_map, List.flatMap_id']
  case h_2 unopened =>
    cases found
    refine ⟨by simp, fun text given => ?_, fun _ => rfl⟩
    exact absurd (by simp [given]) (unopened text.toList)

/-- The parameters of a method descriptor are the field descriptors that were put in parentheses, and what is returned follows
the parentheses. Of any text, the pieces are not empty and together they are a first part of what the parenthesis opens. -/
theorem parameters_split (fields : List String) (result : String) (wellFormed : ∀ field ∈ fields, IsField field.toList)
    (closed : ')' ∉ result.toList) :
    parameters ("(" ++ String.join fields ++ ")" ++ result) = .ok fields ∧
      returned ("(" ++ String.join fields ++ ")" ++ result) = result ∧
      ∀ method pieces, parameters method = .ok pieces →
        (∀ piece ∈ pieces, piece ≠ "") ∧ (∀ text, method = "(" ++ text → ∃ rest, text = String.join pieces ++ rest) ∧
          ((∀ text, method ≠ "(" ++ text) → pieces = []) := by
  have text : ("(" ++ String.join fields ++ ")" ++ result).toList =
      '(' :: ((fields.map String.toList).flatten ++ ')' :: result.toList) := by
    simp [List.flatMap]
  refine ⟨?_, ?_, fun _ _ => prefix_of_parameters⟩
  · have room : (fields.map String.toList).flatten.length ≤ ((fields.map String.toList).flatten ++ ')' :: result.toList).length := by
      simp
    have all : ∀ piece ∈ fields.map String.toList, IsField piece := by simpa using wellFormed
    unfold parameters
    rw [text]
    simp only [cutAll_fields all room]
    simp [Except.map]
  · simp only [returned, text]
    rw [if_pos (by simp), ← List.cons_append, Text.afterLast_append closed, String.ofList_toList]

/-- Neither a closing parenthesis in a class name nor letters outside ASCII get in the way. -/
theorem parameters_oddNames :
    parameters "([[Lπ/a);JLb;Z)[I" = .ok ["[[Lπ/a);", "J", "Lb;", "Z"] ∧ returned "([[Lπ/a);JLb;Z)[I" = "[I" := by
  have fields : ∀ field ∈ ["[[Lπ/a);", "J", "Lb;", "Z"], IsField field.toList := by
    intro field among
    simp only [List.mem_cons, List.not_mem_nil, or_false] at among
    rcases among with rfl | rfl | rfl | rfl
    · exact .array (.array (.object ['π', '/', 'a', ')'] (by decide)))
    · exact .primitive (by decide)
    · exact .object ['b'] (by decide)
    · exact .primitive (by decide)
  obtain ⟨split, back, _⟩ := parameters_split ["[[Lπ/a);", "J", "Lb;", "Z"] "[I" fields (by decide)
  exact ⟨split, back⟩

end Descriptor

end ClassLift
