import ClassLift.Proofs.Body.Store

namespace ClassLift

namespace Kind

def isStructured : Kind → Bool
  | ifElse .. | loop .. | switchArms .. | tryCatch .. | breakOut | continueLoop => true
  | _ => false

def controls : Kind → List NodeId
  | ifElse condition .. => [condition]
  | loop form _ => form.operands
  | _ => []

end Kind

/-- Whether the statements around a body can be left by a `break` and repeated by a `continue`. -/
structure Scope where
  leaves : Bool := false
  repeats : Bool := false
  deriving DecidableEq

namespace Scope

def enter (scope : Scope) : Kind → Scope
  | .loop .. => ⟨true, true⟩
  | .switchArms .. => { scope with leaves := true }
  | _ => scope

def admits (scope : Scope) : Kind → Bool
  | .breakOut => scope.leaves
  | .continueLoop => scope.repeats
  | _ => true

structure Leaf (scope : Scope) (kind : Kind) : Prop where
  admitted : scope.admits kind = true
  noControls : kind.controls = []
  noBodies : kind.bodies = []

theorem leaf_of_not_isStructured {kind : Kind} (scope : Scope) (raw : kind.isStructured = false) : scope.Leaf kind := by
  cases kind with
  | ifElse | loop | switchArms | tryCatch | breakOut | continueLoop => cases raw
  | _ => exact ⟨rfl, rfl, rfl⟩

end Scope

namespace Store

/-- The statements of a body, each followed by its controls and by the outline of its bodies. -/
inductive Outlined (store : Store) : Scope → List NodeId → List NodeId → Prop
  | nil (scope : Scope) : Outlined store scope [] []
  | cons {scope : Scope} {id : NodeId} {rest within others : List NodeId} {kind : Kind} (found : store.kind? id = some kind)
      (admitted : scope.admits kind = true) (inner : Outlined store (scope.enter kind) kind.bodies.flatten within)
      (later : Outlined store scope rest others) :
      Outlined store scope (id :: rest) (id :: (kind.controls ++ within) ++ others)

namespace Outlined

variable {store after : Store} {scope : Scope} {id : NodeId} {kind : Kind} {body more outline within : List NodeId}

theorem append {others : List NodeId} (first : store.Outlined scope body outline) (second : store.Outlined scope more others) :
    store.Outlined scope (body ++ more) (outline ++ others) := by
  induction first with
  | nil => exact second
  | cons found admitted inner _ _ continues =>
    rw [List.cons_append, List.append_assoc]
    exact .cons found admitted inner (continues second)

theorem append_inv (outlined : store.Outlined scope (body ++ more) outline) :
    ∃ first second, store.Outlined scope body first ∧ store.Outlined scope more second ∧ outline = first ++ second := by
  induction body generalizing outline with
  | nil => exact ⟨[], outline, .nil scope, outlined, rfl⟩
  | cons id rest continues =>
    cases outlined with
    | cons found admitted inner later =>
      obtain ⟨first, second, left, right, rfl⟩ := continues later
      exact ⟨_, second, .cons found admitted inner left, right, (List.append_assoc ..).symm⟩

theorem single (found : store.kind? id = some kind) (admitted : scope.admits kind = true)
    (inner : store.Outlined (scope.enter kind) kind.bodies.flatten within) :
    store.Outlined scope [id] (id :: (kind.controls ++ within)) := by
  simpa using Outlined.cons found admitted inner (.nil scope)

theorem leaf (found : store.kind? id = some kind) (leaf : scope.Leaf kind) : store.Outlined scope [id] [id] := by
  have inner : store.Outlined (scope.enter kind) kind.bodies.flatten [] := by
    rw [leaf.noBodies]
    exact .nil _
  simpa [leaf.noControls] using single found leaf.admitted inner

theorem unique {other : List NodeId} (outlined : store.Outlined scope body outline) (again : store.Outlined scope body other) :
    other = outline := by
  induction outlined generalizing other with
  | nil =>
    cases again
    rfl
  | cons found _ _ _ sameInner sameLater =>
    cases again with
    | cons foundAgain _ inner later =>
      cases found.symm.trans foundAgain
      rw [sameInner inner, sameLater later]

theorem congr (outlined : store.Outlined scope body outline)
    (same : ∀ id ∈ outline, ∀ kind, store.kind? id = some kind → after.kind? id = some kind) :
    after.Outlined scope body outline := by
  induction outlined with
  | nil scope => exact .nil scope
  | cons found admitted _ _ continuesInner continuesLater =>
    refine .cons (same _ (by simp) _ found) admitted (continuesInner fun id member => ?_)
      (continuesLater fun id member => ?_)
    · exact same id (by simp [member])
    · exact same id (by simp [member])

end Outlined

end Store

end ClassLift
