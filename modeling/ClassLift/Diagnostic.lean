import ClassLift.Class.Table
import ClassLift.Descriptor
import ClassLift.Pool.Intern

/-!
# Errors and warnings

Most trouble is confined to one method: it is flagged, a warning says why, and the analysis goes on. A descriptor that cannot
be split stops the analysis altogether. What an action changed before it failed stays changed, so the actions here keep their
state beside the outcome.
-/

namespace ClassLift

inductive StructureError where
  | handlerOutside (entry : Offset)
  | handlerInside (entry : Offset)
  deriving DecidableEq, Inhabited

def StructureError.message : StructureError → String
  | handlerOutside entry => s!"Exception handler at offset {entry} lies outside of the enclosing block"
  | handlerInside entry => s!"Exception handler at offset {entry} lies inside the block it protects"

inductive MethodError where
  | pool (error : PoolError)
  | structuring (error : StructureError)
  /-- The cache of a class literal is filled, but the value is not used where it should be. -/
  | unreadCache
  /-- No statement follows the first value of a `?:`. -/
  | unconsumedConditional
  deriving DecidableEq, Inhabited

def MethodError.message : MethodError → String
  | pool error => "Malformed constant pool: " ++ error.message
  | structuring error => "While structuring control flow: " ++ error.message
  | unreadCache => "Internal invariant violated: class literal cache is not read after its guard"
  | unconsumedConditional => "Internal invariant violated: ternary operator has no consumer"

inductive Failure where
  | method (error : MethodError)
  | descriptor (error : DescriptorError)
  deriving DecidableEq, Inhabited

/-- Something that was skipped. A method whose name cannot be read has none. -/
inductive Warning where
  | flagged (method : Option String) (error : MethodError)
  | staticInitializers (error : PoolError)
  | instanceInitializers (error : PoolError)
  | enumOrder (error : PoolError)
  | outerField (error : PoolError)
  | references (method : Option String) (error : PoolError)
  deriving DecidableEq, Inhabited

def Warning.text : Warning → String
  | flagged method error => "In method `" ++ method.getD "??" ++ "`: " ++ error.message
  | staticInitializers error => "Skipping static field initializers: " ++ error.message
  | instanceInitializers error => "Skipping instance field initializers: " ++ error.message
  | enumOrder error => "Skipping enum analysis: " ++ error.message
  | outerField error => "Cannot resolve the outer-this field: " ++ error.message
  | references method error =>
      "Skipping references in the body of `" ++ method.getD "??" ++ "`: " ++ error.message

instance : MonadLift (Except PoolError) (Except Failure) where
  monadLift result := result.mapError fun error => .method (.pool error)

instance : MonadLift (Except DescriptorError) (Except Failure) where
  monadLift result := result.mapError .descriptor

abbrev OnClass := ExceptT Failure (StateM ClassFile)

abbrev OnTable := ExceptT Failure (StateM ClassTable)

instance : MonadLift (Except Failure) OnClass where
  monadLift result := fun file => (result, file)

instance : MonadLift (Except Failure) OnTable where
  monadLift result := fun table => (result, table)

def OnClass.interning {α : Type} (action : Interning α) : OnClass α := fun file =>
  let (result, pool) := action file.pool
  (result.mapError fun error => .method (.pool error), { file with pool })

namespace ClassFile

def methodName? (file : ClassFile) (index : Nat) : Option String :=
  file.methods[index]?.bind fun method => (file.pool.utf8 method.nameIndex).toOption

def flag (file : ClassFile) (index : Nat) (error : MethodError) : ClassFile × Warning :=
  (file.modifyMethod index fun method => { method with flagged := true }, .flagged (file.methodName? index) error)

end ClassFile

end ClassLift
