import ClassLift.Idiom.Draft

/-!
# Increments

An increment by one whose value is used:

* `dup := x; x = dup + 1; … dup …` is `… x++ …`
* `dup := x + 1; x = dup; … dup …` is `… ++x …`
* a separate increment of a local variable belongs to the next statement that reads it, before or after the read.

An increment of a field or an element also holds the object or the array, which goes back to its place.
-/

namespace ClassLift

/-- The offsets that control can reach other than from the statement before. -/
def Draft.jumpTargets (draft : Draft) (handlers : List Handler) : List Offset :=
  let ofKind : Kind → List Offset
    | .switch _ default cases => default :: cases.map (·.2)
    | kind => kind.target?.toList
  draft.statements.flatMap (fun id => (draft.store.kind? id).elim [] ofKind) ++
    handlers.flatMap fun handler => [handler.start, handler.stop, handler.entry]

namespace Increment

/-- `lhs + 1` or `lhs - 1`, with the difference. -/
def stepOf? (store : Store) (id : NodeId) : Option (NodeId × Int32) :=
  let isOne (id : NodeId) : Bool :=
    match store.kind? id with
    | some (.literal value) => value.isOne
    | _ => false
  match store.kind? id with
  | some (.binary .add lhs rhs) => if isOne rhs then some (lhs, 1) else none
  | some (.binary .sub lhs rhs) => if isOne rhs then some (lhs, -1) else none
  | _ => none

/-- `x = dup + 1`, where `dup` holds `value`, a read of `x`. -/
def post? (store : Store) (source value : NodeId) (place : Place) (stored : NodeId) : Option (NodeId × Int32) :=
  (stepOf? store stored).bind fun (lhs, delta) =>
    if store.isDupLoadOf lhs source && store.readsPlace place value then some (value, delta) else none

/-- `x = dup`, where `dup` holds `value`, which is `x + 1`. -/
def pre? (store : Store) (source value : NodeId) (place : Place) (stored : NodeId) : Option (NodeId × Int32) :=
  (stepOf? store value).bind fun (lhs, delta) =>
    if store.isDupLoadOf stored source && store.readsPlace place lhs then some (lhs, delta) else none

def held? (store : Store) (source value put : NodeId) : Option (Kind × NodeId) :=
  match store.kind? put with
  | some (.write place stored) =>
      match post? store source value place stored with
      | some (target, delta) => some (.increment .post target delta, target)
      | none =>
          (pre? store source value place stored).map fun (target, delta) => (.increment .pre target delta, target)
  | _ => none

/-- Folds a held value and the write after it into the only other use of the value, or into the write itself. -/
def foldHeld (store : Store) (spot : Spot) (value : NodeId) : Store × Cursor :=
  match spot.after with
  | [] => (store, spot.keep)
  | put :: rest =>
      match held? store spot.current value put with
      | none => (store, spot.keep)
      | some (increment, target) =>
          match store.dupLoads spot.current (spot.before.reverse ++ spot.current :: rest) with
          | [] => (store.replace put increment).inlineHeldBelow ⟨spot.before, put :: rest⟩ target
          | [(_, use)] => (store.replace use increment).inlineHeldBelow ⟨spot.before, rest⟩ target
          | _ => (store, spot.keep)

/-- Whether a read belongs to an increment of the same variable, and how. A read at a smaller offset comes before the
increment; one after it has to be on the same line. -/
def position? (increment read : Node) : Option IncrementPosition :=
  if read.offset < increment.offset then some .post
  else if read.line = increment.line then some .pre
  else none

/-- Folds an increment of a local variable into the first read of it in the next statement, unless that statement can also be
reached without the increment. -/
def foldBump (targets : List Offset) (store : Store) (spot : Spot) (bump : Node) (slot : Slot) (delta : Int32) :
    Store × Cursor :=
  match spot.after with
  | [] => (store, spot.keep)
  | next :: _ =>
      let start := store.startOffset next
      if start > bump.offset && targets.contains start then (store, spot.keep)
      else
        match store.find? (fun node => node.kind.isSlot slot) next with
        | none => (store, spot.keep)
        | some load =>
            match store.node? load with
            | none => (store, spot.keep)
            | some read =>
                match position? bump read with
                | none => (store, spot.keep)
                | some position =>
                    let (target, store) := store.allocate load read.kind
                    (store.replace load (.increment position target delta), ⟨spot.before, spot.after⟩)

def step (targets : List Offset) (store : Store) (spot : Spot) : Store × Cursor :=
  match store.node? spot.current with
  | some node =>
      match node.kind with
      | .dupStore value => foldHeld store spot value
      | .bump slot delta =>
          if delta = 1 ∨ delta = -1 then foldBump targets store spot node slot delta else (store, spot.keep)
      | _ => (store, spot.keep)
  | none => (store, spot.keep)

def recover (handlers : List Handler) (draft : Draft) : Draft :=
  let targets := draft.jumpTargets handlers
  Id.run (draft.sweep fun store spot => pure (step targets store spot))

end Increment

end ClassLift
