import ClassLift.Idiom.Draft

/-!
# Assignments used as values

`dup := c; b = dup; … dup …` is a chained assignment `… (b = c) …` when both uses are on one line. On different lines it was
written as two statements, `b = c; … b …`. A missing line number counts as the same line.
-/

namespace ClassLift

namespace Assignment

/-- A read of `place` that shares no operands with a write to it. The copy of an array stays when its index cannot be copied. -/
def separateRead (store : Store) : Place → Option Place × Store
  | .field field object =>
      match store.duplicate object with
      | none => (none, store)
      | some (object, store) => (some (.field field object), store)
  | .element type array index =>
      match store.duplicate array with
      | none => (none, store)
      | some (array, store) =>
          match store.duplicate index with
          | none => (none, store)
          | some (index, store) => (some (.element type array index), store)
  | place => (some place, store)

def sameLine (store : Store) (one other : NodeId) : Bool :=
  match store.line? one, store.line? other with
  | some line, some otherLine => line == otherLine
  | _, _ => true

/-- The write of the value held by the current statement right after it, with the single other use of the value: the place
written, the statement of the use and the use itself. -/
def match? (store : Store) (spot : Spot) (put : NodeId) (rest : List NodeId) : Option (Place × NodeId × NodeId) :=
  match store.kind? put with
  | some (.write place stored) =>
      if store.isDupLoadOf stored spot.current then
        match store.dupLoads spot.current (spot.before.reverse ++ [spot.current]), store.dupLoads spot.current rest with
        | [], [(statement, use)] => some (place, statement, use)
        | _, _ => none
      else none
  | _ => none

def fold (store : Store) (spot : Spot) (value : NodeId) : Store × Cursor :=
  match spot.after with
  | [] => (store, spot.keep)
  | put :: rest =>
      match match? store spot put rest with
      | none => (store, spot.keep)
      | some (place, statement, use) =>
          if sameLine store put statement then
            let (target, store) := store.allocate put (.read place)
            (store.replace use (.assign .plain target value), ⟨spot.before, rest⟩)
          else
            match separateRead store place with
            | (none, store) => (store, spot.keep)
            | (some read, store) =>
                ((store.replace put (.write place value)).replace use (.read read), ⟨spot.before, put :: rest⟩)

def step (store : Store) (spot : Spot) : Store × Cursor :=
  match store.kind? spot.current with
  | some (.dupStore value) => fold store spot value
  | _ => (store, spot.keep)

def recover (draft : Draft) : Draft := Id.run (draft.sweep fun store spot => pure (step store spot))

end Assignment

end ClassLift
