import ClassLift.Diagnostic
import ClassLift.Reference.Map
import ClassLift.Reference.Mention

/-!
# Counting references

Counts the classes that a class and the classes nested in it mention, except for those classes themselves. A mention that
cannot be read stops the count, but what was counted before it stays.
-/

namespace ClassLift

/-- What was counted, what was skipped on the way, and whether the count came to its end. -/
structure Tally where
  references : ReferenceMap
  warnings : List Warning := []
  outcome : Except PoolError Unit := .ok ()

namespace ReferenceMap

def addForeign (own : List String) (references : ReferenceMap) (names : List String) : ReferenceMap :=
  references.addAll (names.filter (!own.contains ·))

def countMentions (own : List String) (pool : Pool) (references : ReferenceMap) :
    List Mention → ReferenceMap × Except PoolError Unit
  | [] => (references, .ok ())
  | mention :: rest =>
      match mention.names pool with
      | .error error => (references, .error error)
      | .ok names => countMentions own pool (references.addForeign own names) rest

end ReferenceMap

namespace Tally

def passage (own : List String) (pool : Pool) (tally : Tally) (part : Passage) : Tally :=
  match tally.outcome, part with
  | .error _, _ => tally
  | .ok _, .declaration mentions =>
      let (references, outcome) := tally.references.countMentions own pool mentions
      { tally with references, outcome }
  | .ok _, .body name mentions =>
      match tally.references.countMentions own pool mentions with
      | (references, .ok _) => { tally with references }
      | (references, .error error) =>
          { tally with
            references
            warnings := tally.warnings ++ [.references (pool.utf8 name).toOption error] }

def classFile (own : List String) (tally : Tally) (file : ClassFile) : Tally :=
  file.passages.foldl (passage own file.pool) tally

end Tally

namespace ClassTable

def subtreeFiles (table : ClassTable) (root : ClassId) : List ClassFile := (table.subtree root).filterMap table.get?

def countReferences (table : ClassTable) (root : ClassId) (references : ReferenceMap) : Tally :=
  let files := table.subtreeFiles root
  match files.mapM ClassFile.name with
  | .error error => { references, outcome := .error error }
  | .ok own => files.foldl (Tally.classFile own) { references }

end ClassTable

end ClassLift
