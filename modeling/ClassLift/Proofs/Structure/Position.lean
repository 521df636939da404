import ClassLift.Proofs.Class.Development
import ClassLift.Proofs.Structure.Rework
import ClassLift.Structure.Method

namespace ClassLift

theorem Region.build_grows (store : Store) (statements : List NodeId) (handlers : List Handler) (maxLocals : Slot) :
    store.Grows (build store statements handlers maxLocals).2 :=
  let listing := Listing.ofStatements store statements maxLocals
  (regionFrom_reworks listing listing.size 0 listing.size {} [] ⟨store, handlers⟩).grows

namespace Declaration

theorem declare?_grows {first : Slot} {store changed : Store} {declared visible : List Slot} {id : NodeId}
    (declares : declare? first store declared id = some (changed, visible)) : store.Grows changed := by
  unfold declare? at declares
  split at declares
  · split at declares
    · cases declares
    · cases declares
      exact .replace store id _
  · cases declares

section Block

variable {first : Slot} {block : Store → List Slot → List NodeId → Store}
  (blocks : ∀ (store : Store) declared body, store.Grows (block store declared body))
include blocks

theorem nested_grows (store : Store) (declared : List Slot) (kind : Kind) :
    store.Grows (nested first block store declared kind) := by
  have all {α : Type} (step : Store → α → Store) (steps : ∀ (store : Store) element, store.Grows (step store element))
      (elements : List α) (store : Store) : store.Grows (elements.foldl step store) := by
    exact List.foldlRecOn elements step (.refl store) fun _ grows element _ => grows.trans (steps _ element)
  unfold nested
  split
  · rename_i start _ _ body
    cases declares : declare? first store declared start with
    | none => exact blocks store declared body
    | some found => exact (declare?_grows declares).trans (blocks found.1 found.2 body)
  · exact ((blocks store _ _).trans (all _ (fun store _ => blocks store _ _) _ _)).trans (blocks _ _ _)
  · exact all _ (fun store _ => blocks store declared _) _ store

theorem statement_grows (store : Store) (declared : List Slot) (id : NodeId) :
    store.Grows (statement first block store declared id).1 := by
  unfold statement
  cases declares : declare? first store declared id with
  | some found => exact declare?_grows declares
  | none =>
    cases store.kind? id with
    | none => exact .refl store
    | some kind => exact nested_grows blocks store declared kind

end Block

theorem blockWithin_grows (first : Slot) (depth : Nat) (store : Store) (declared : List Slot) (body : List NodeId) :
    store.Grows (blockWithin first depth store declared body) := by
  induction depth generalizing store declared body with
  | zero => exact .refl store
  | succ depth deeper =>
    refine List.foldlRecOn (motive := fun state : Store × List Slot => store.Grows state.1) body _ (.refl store) ?_
    exact fun state grows id _ => grows.trans (statement_grows deeper state.1 state.2 id)

theorem declareLocals_grows (store : Store) (body : List NodeId) (first : Slot) : store.Grows (declareLocals store body first) :=
  blockWithin_grows first store.size store [] body

end Declaration

namespace ClassFile

theorem structureCode_develops (config : Config) (file : ClassFile) (method : Method) (code : Code) :
    code.Develops True (file.structureCode config method code).2 := by
  have grows := Region.build_grows code.store code.statements code.handlers code.maxLocals
  unfold structureCode
  cases file.pool.utf8 method.descriptorIndex with
  | error error => exact .refl code
  | ok descriptor =>
    generalize Region.build code.store code.statements code.handlers code.maxLocals = built at grows
    obtain ⟨result, store⟩ := built
    have reworked : code.Develops True { code with store } := ⟨rfl, rfl, rfl, grows, .inl trivial⟩
    cases result with
    | error error => exact reworked
    | ok body =>
      dsimp only
      cases file.trim config method store body with
      | error error => exact reworked
      | ok body =>
        dsimp only
        cases Descriptor.parameters descriptor with
        | error error => exact reworked
        | ok parameters =>
          exact ⟨rfl, rfl, rfl, grows.trans (Declaration.declareLocals_grows store body _), .inl trivial⟩

end ClassFile

end ClassLift
