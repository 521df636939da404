import ClassLift.Survey.Accessor
import ClassLift.Survey.LocalNames
import ClassLift.Survey.OuterField
import ClassLift.Survey.SwitchMap

/-!
# Surveying a class

Before any body changes, every class is surveyed for the facts that later steps rely on: accessors, switch maps, the field of
the enclosing instance, names of local variables. Trouble with a method flags that method only.
-/

namespace ClassLift

/-- What the analysis may change for the sake of readable output. -/
structure Config where
  /-- Make up names for methods without a local variable table. -/
  nameLocals : Bool := true
  /-- Move assignments shared by all constructors into field declarations. -/
  liftInitializers : Bool := true
  /-- Drop `super()` calls without arguments. -/
  dropSuperCall : Bool := true
  /-- Drop a `return;` at the end. -/
  dropFinalReturn : Bool := true
  deriving DecidableEq, Inhabited

namespace ClassFile

def markField (file : ClassFile) (isMarked : Field → Bool) : ClassFile :=
  match file.fields.findIdx? isMarked with
  | some index => file.modifyField index Field.markSynthetic
  | none => file

/-- The switch map of a method is cached in a field of the same name, which is compiler-made too. -/
def recordSwitchTable (file : ClassFile) (method : Method) (key : PoolIndex) (constants : List PoolIndex) : ClassFile :=
  let sameName (field : Field) : Bool :=
    match file.pool.utf8 method.nameIndex with
    | .ok name => field.hasName file.pool name
    | .error _ => false
  let file := file.markField sameName
  { file with switchMaps := file.switchMaps.insert key constants }

end ClassFile

def surveyMethod (config : Config) (index : Nat) : OnClass Unit := do
  let some method := (← get).methods[index]? | return
  if let some accessor ← (← get).accessorOf? method then
    modify (·.modifyMethod index fun method => { method.markSynthetic with accessor := some accessor })
  let some method := (← get).methods[index]? | return
  if let some (key, constants) ← (← get).switchTableOf? method then
    modify (·.recordSwitchTable method key constants)
  if (← get).isAnonymous && method.isConstructor (← get).pool then
    if let some count ← (← get).superArguments? method then
      modify (·.modifyMethod index fun method => { method with superArguments := count })
  if config.nameLocals then nameLocals index

namespace ClassFile

def scanConstructors (file : ClassFile) : List Nat → Except (Nat × PoolError) (List OuterStore)
  | [] => .ok []
  | index :: rest =>
      match file.methods[index]? with
      | none => scanConstructors file rest
      | some method =>
          if method.flagged || !method.isConstructor file.pool then scanConstructors file rest
          else
            match OuterStore.ofConstructor file method with
            | .error error => .error (index, error)
            | .ok found => (found :: ·) <$> scanConstructors file rest

def exposes (file : ClassFile) (outerField : OuterField) (method : Method) : Bool :=
  match method.accessor, file.fields[outerField.field]? with
  | some (.readField index), some field =>
      match file.pool.member index with
      | .ok read => field.hasName file.pool read.name
      | .error _ => false
  | _, _ => false

def recordOuterField (file : ClassFile) (outerField : OuterField) : ClassFile :=
  let marked := file.modifyField outerField.field Field.markSynthetic
  { marked with
    outerField := some outerField
    methods := file.methods.map fun method => if file.exposes outerField method then method.markSynthetic else method }

def surveyOuterField (file : ClassFile) : ClassFile × List Warning :=
  if !file.isInner then (file, [])
  else
    match file.scanConstructors (List.range file.methods.size) with
    | .error (index, error) =>
        let (file, warning) := file.flag index (.pool error)
        (file, [warning])
    | .ok scans =>
        match file.resolveOuterField? scans with
        | .error error => (file, [.outerField error])
        | .ok none => (file, [])
        | .ok (some outerField) => (file.recordOuterField outerField, [])

def surveyMethods (config : Config) (file : ClassFile) : List Nat → Except DescriptorError (ClassFile × List Warning)
  | [] => .ok (file, [])
  | index :: rest =>
      match surveyMethod config index file with
      | (.ok _, file) => surveyMethods config file rest
      | (.error (.descriptor error), _) => .error error
      | (.error (.method error), file) => do
          let (file, warning) := file.flag index error
          let (file, warnings) ← surveyMethods config file rest
          return (file, warning :: warnings)

def survey (config : Config) (file : ClassFile) : Except DescriptorError (ClassFile × List Warning) := do
  let (file, warnings) ← file.surveyMethods config (List.range file.methods.size)
  let (file, more) := file.surveyOuterField
  return (file, warnings ++ more)

end ClassFile

end ClassLift
