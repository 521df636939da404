import ClassLift.Idiom.Draft

/-!
# Array literals

`new int[] {a, b}` is compiled to an allocation and one write for each element:
`dup := new int[2]; dup[0] = a; dup[1] = b; … dup …`. Inner literals are folded before the outer one is looked at, since the
statements are visited from the last to the first.
-/

namespace ClassLift

namespace ArrayLiteral

def length? (store : Store) (array : NodeId) : Option Nat :=
  match store.kind? array with
  | some (.newArray _ length) | some (.newObjectArray _ length) =>
      match store.kind? length with
      | some (.literal (.int length)) => if 0 < length then some length.toInt.toNat else none
      | _ => none
  | _ => none

def element? (store : Store) (source statement : NodeId) (index : Nat) : Option NodeId :=
  match store.kind? statement with
  | some (.write (.element _ array position) value) =>
      match store.kind? position with
      | some (.literal (.int number)) =>
          if store.isDupLoadOf array source ∧ number.toInt = index then some value else none
      | _ => none
  | _ => none

/-- The elements from `index` on, so many of them, with the statements after their writes. -/
def elements? (store : Store) (source : NodeId) : Nat → Nat → List NodeId → Option (List NodeId × List NodeId)
  | _, 0, rest => some ([], rest)
  | _, _ + 1, [] => none
  | index, count + 1, statement :: rest => do
      let value ← element? store source statement index
      let (values, rest) ← elements? store source (index + 1) count rest
      return (value :: values, rest)

/-- The elements of the array held by the current statement and its single use outside of their writes. -/
def match? (store : Store) (spot : Spot) (array : NodeId) : Option (List NodeId × NodeId × List NodeId) := do
  let (values, rest) ← elements? store spot.current 0 (← length? store array) spot.after
  match store.dupLoads spot.current (spot.before.reverse ++ spot.current :: rest) with
  | [(_, use)] => return (values, use, rest)
  | _ => none

def step (store : Store) (spot : Spot) : Store × Cursor :=
  match store.kind? spot.current with
  | some (.dupStore array) =>
      match match? store spot array with
      | some (values, use, rest) => (store.replace use (.arrayLiteral array values), ⟨spot.before, rest⟩)
      | none => (store, spot.keep)
  | _ => (store, spot.keep)

def recover (draft : Draft) : Draft := Id.run (draft.sweep fun store spot => pure (step store spot))

end ArrayLiteral

end ClassLift
