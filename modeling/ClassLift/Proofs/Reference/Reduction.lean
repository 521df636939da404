import ClassLift.Proofs.Signature.Descriptor
import ClassLift.Reference.Map

namespace ClassLift

namespace ClassName

theorem eq_of_parts {name other : String} (packaged : package name ≠ "") (samePackage : package other = package name)
    (sameSimple : simple other = simple name) : other = name := by
  have marked (name : String) (packaged : package name ≠ "") : '/' ∈ name.toList := by
    refine Classical.byContradiction fun unmarked => packaged ?_
    have unlike : name.toList.reverse.dropWhile (· != '/') = [] := by
      refine List.dropWhile_eq_nil_iff.mpr fun letter among => ?_
      rw [bne_iff_ne]
      rintro rfl
      exact unmarked (List.mem_reverse.mp among)
    rw [package, Text.beforeLast, unlike]
    rfl
  have before := String.ofList_injective samePackage
  have after := String.ofList_injective sameSimple
  apply String.toList_injective
  rw [← Text.append_mark_afterLast (marked name packaged), ← Text.append_mark_afterLast (marked other (samePackage ▸ packaged)),
    before, after]

end ClassName

namespace ReferenceMap

variable {references : ReferenceMap} {current name : String}

theorem mem_names : name ∈ references.names ↔ references.contains name = true := Std.TreeMap.mem_keys

theorem mem_localNames {simple : String} :
    simple ∈ references.localNames current ↔ simple = ClassName.simple current ∨
      ∃ other, references.contains other = true ∧ ClassName.package other = ClassName.package current ∧
        ClassName.simple other = simple := by
  simp [localNames, mem_names, and_assoc]

/-- The name is not dropped: it belongs to the current package, or its simple name means no class of that package. -/
def Importable (references : ReferenceMap) (current name : String) : Prop :=
  ClassName.package name = ClassName.package current ∨ ClassName.simple name ≠ ClassName.simple current ∧
    ∀ other, references.contains other = true → ClassName.package other = ClassName.package current →
      ClassName.simple other ≠ ClassName.simple name

theorem importable_iff :
    references.Importable current name ↔
      (ClassName.package name = ClassName.package current || !(references.localNames current).contains (ClassName.simple name)) =
        true := by
  simp [Importable, mem_localNames]

theorem getElem?_reduce {count : Nat} :
    (references.reduce current).counts[name]? = some count ↔
      references.counts[name]? = some count ∧ references.Importable current name := by
  rw [reduce, Std.TreeMap.getElem?_filter', Option.filter_eq_some_iff, importable_iff]

theorem contains_iff : references.contains name = true ↔ ∃ count, references.counts[name]? = some count := by
  rw [contains, Std.TreeMap.contains_eq_isSome_getElem?, Option.isSome_iff_exists]

theorem contains_reduce :
    (references.reduce current).contains name = true ↔ references.contains name = true ∧ references.Importable current name := by
  simp only [contains_iff, getElem?_reduce, exists_and_right]

theorem Importable.reduce (importable : references.Importable current name) : (references.reduce current).Importable current name :=
  importable.imp_right fun apart => ⟨apart.1, fun other kept => apart.2 other (contains_reduce.mp kept).1⟩

theorem toList_reduce_reduce (references : ReferenceMap) (current : String) :
    ((references.reduce current).reduce current).toList = (references.reduce current).toList := by
  refine Std.TreeMap.toList_filter.trans (List.filter_eq_self.mpr fun entry listed => ?_)
  have there := getElem?_reduce.mp (Std.TreeMap.mem_toList_iff_getElem?_eq_some.mp listed)
  exact importable_iff.mp there.2.reduce

theorem isAmbiguous_iff :
    references.isAmbiguous name = true ↔
      ∃ other, references.contains other = true ∧ other ≠ name ∧ ClassName.simple other = ClassName.simple name := by
  simp [isAmbiguous, mem_names]

theorem isAmbiguous_of_package (packaged : ClassName.package current ≠ "") (kept : (references.reduce current).contains name = true)
    (home : ClassName.package name = ClassName.package current) : (references.reduce current).isAmbiguous name = false := by
  refine Bool.eq_false_iff.mpr fun ambiguous => ?_
  obtain ⟨other, alsoKept, apart, same⟩ := isAmbiguous_iff.mp ambiguous
  rcases (contains_reduce.mp alsoKept).2 with together | ⟨_, untaken⟩
  · exact apart (ClassName.eq_of_parts (home ▸ packaged) (together.trans home.symm) same)
  · exact untaken name (contains_reduce.mp kept).1 home same.symm

/-- A reduction keeps the entries of the current package and those whose simple name means no class of it, with their counts. Nothing
is left for a second one. A kept class of the package is not ambiguous, and another one is just when a second class with its
simple name is kept. -/
theorem reduce_exact (references : ReferenceMap) (current : String) (packaged : ClassName.package current ≠ "") :
    (∀ name, (references.reduce current).contains name = true ↔ references.contains name = true ∧
      (ClassName.package name = ClassName.package current ∨ ClassName.simple name ≠ ClassName.simple current ∧
        ∀ other, references.contains other = true → ClassName.package other = ClassName.package current →
          ClassName.simple other ≠ ClassName.simple name)) ∧
    (∀ name, (references.reduce current).contains name = true → (references.reduce current).count name = references.count name) ∧
    ((references.reduce current).reduce current).toList = (references.reduce current).toList ∧
    ∀ name, (references.reduce current).contains name = true →
      (ClassName.package name = ClassName.package current → (references.reduce current).isAmbiguous name = false) ∧
      (ClassName.package name ≠ ClassName.package current → ((references.reduce current).isAmbiguous name = true ↔
        ∃ other, (references.reduce current).contains other = true ∧ other ≠ name ∧
          ClassName.simple other = ClassName.simple name)) := by
  refine ⟨fun _ => contains_reduce, fun name kept => ?_, toList_reduce_reduce references current, fun name kept => ⟨?_, ?_⟩⟩
  · obtain ⟨count, found⟩ := contains_iff.mp kept
    rw [ReferenceMap.count, ReferenceMap.count, Std.TreeMap.getD_eq_getD_getElem?, Std.TreeMap.getD_eq_getD_getElem?, found,
      (getElem?_reduce.mp found).1]
  · exact isAmbiguous_of_package packaged kept
  · exact fun _ => isAmbiguous_iff

/-- `B` means `a/B` in the package `a`, and `E` could mean two classes of other packages. -/
def clashing : ReferenceMap := ReferenceMap.empty.addAll ["a/B", "c/B", "d/E", "f/E", "f/E"]

theorem reduce_clashing :
    (clashing.reduce "a/A").toList = [("a/B", 1), ("d/E", 1), ("f/E", 2)] ∧
      ((clashing.reduce "a/A").reduce "a/A").toList = [("a/B", 1), ("d/E", 1), ("f/E", 2)] ∧
      (clashing.reduce "a/A").isAmbiguous "a/B" = false ∧ (clashing.reduce "a/A").isAmbiguous "d/E" = true := by
  have reduced : (clashing.reduce "a/A").toList = [("a/B", 1), ("d/E", 1), ("f/E", 2)] := by decide +kernel
  have kept (name : String) (listed : name ∈ ["a/B", "d/E", "f/E"]) : (clashing.reduce "a/A").contains name = true := by
    simp only [List.mem_cons, List.not_mem_nil, or_false] at listed
    rcases listed with rfl | rfl | rfl <;> decide +kernel
  obtain ⟨_, _, again, ambiguous⟩ := reduce_exact clashing "a/A" (by decide)
  refine ⟨reduced, again.trans reduced, (ambiguous "a/B" (kept _ (by decide))).1 (by decide), ?_⟩
  exact ((ambiguous "d/E" (kept _ (by decide))).2 (by decide)).mpr ⟨"f/E", kept _ (by decide), by decide, by decide⟩

end ReferenceMap

end ClassLift
