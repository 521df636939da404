import ClassLift.EnumOrder
import ClassLift.Idiom.Recover
import ClassLift.Initializer
import ClassLift.Reference.Count
import ClassLift.Structure.Method

/-!
# The whole analysis

`ClassTable.analyze` takes a class and the classes nested in it from raw bodies to nested statements and counts the classes
that its text has to import. All classes are surveyed before any body changes, since recovering a body consults facts about
the enclosing classes. Initializers are lifted while bodies are still flat, the order of an enum is read off a lifted
initializer, and only then is control flow structured.
-/

namespace ClassLift

inductive AnalysisError where
  | metadata (error : PoolError)
  deriving DecidableEq, Inhabited

def AnalysisError.message : AnalysisError → String
  | metadata error => "Failed to read class metadata: " ++ error.message

structure Analysis where
  table : ClassTable
  warnings : List Warning
  references : Except AnalysisError ReferenceMap

namespace ClassFile

/-- Lifts both kinds of initializers. What cannot be read leaves the class as it is. -/
def liftInitializers (file : ClassFile) : ClassFile × List Warning :=
  let (file, warnings) : ClassFile × List Warning :=
    match file.liftStaticInitializers with
    | .ok lifted => (lifted, [])
    | .error error => (file, [.staticInitializers error])
  match file.liftInstanceInitializers with
  | .ok lifted => (lifted, warnings)
  | .error error => (file, warnings ++ [.instanceInitializers error])

def readEnumOrder (file : ClassFile) : ClassFile × List Warning :=
  match decodeEnum file with
  | (.ok _, file) => (file, [])
  | (.error error, file) => (file, [.enumOrder error])

def finish (config : Config) (file : ClassFile) : Except DescriptorError (ClassFile × List Warning) := do
  let (file, lifting) := if config.liftInitializers then file.liftInitializers else (file, [])
  let (file, ordering) := file.readEnumOrder
  let (file, structuring) ← file.structureBodies config
  return (file, lifting ++ ordering ++ structuring)

end ClassFile

namespace ClassTable

def update (table : ClassTable) (id : ClassId) (change : ClassFile → Except DescriptorError (ClassFile × List Warning)) :
    Except DescriptorError (ClassTable × List Warning) := do
  let some file := table.get? id | return (table, [])
  let (file, warnings) ← change file
  return (table.set id file, warnings)

def survey (config : Config) (table : ClassTable) (id : ClassId) : Except DescriptorError (ClassTable × List Warning) :=
  table.update id (ClassFile.survey config)

def rebuild (config : Config) (table : ClassTable) (id : ClassId) : Except DescriptorError (ClassTable × List Warning) := do
  let (table, recovering) ← table.recover id
  let (table, finishing) ← table.update id (ClassFile.finish config)
  return (table, recovering ++ finishing)

def forEach (step : ClassTable → ClassId → Except DescriptorError (ClassTable × List Warning)) (table : ClassTable) :
    List ClassId → Except DescriptorError (ClassTable × List Warning)
  | [] => .ok (table, [])
  | id :: rest => do
      let (table, warnings) ← step table id
      let (table, more) ← forEach step table rest
      return (table, warnings ++ more)

def imports (table : ClassTable) (root : ClassId) : Tally :=
  let tally := table.countReferences root .empty
  match tally.outcome, (table.get? root).map ClassFile.name with
  | .ok _, some (.ok name) => { tally with references := tally.references.reduce name }
  | .ok _, some (.error error) => { tally with outcome := .error error }
  | _, _ => tally

def analyze (config : Config) (table : ClassTable) (root : ClassId) : Except DescriptorError Analysis := do
  let classes := table.subtree root
  let (table, surveying) ← table.forEach (survey config) classes
  let (table, rebuilding) ← table.forEach (rebuild config) classes
  let tally := table.imports root
  return {
    table
    warnings := surveying ++ rebuilding ++ tally.warnings
    references := (tally.outcome.mapError .metadata).map fun _ => tally.references }

end ClassTable

end ClassLift
