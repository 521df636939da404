import ClassLift.Class.Basic
import ClassLift.Signature

/-!
# Mentions

A mention is a place in a class file that refers to classes through the pool. `ClassFile.passages` lists the mentions of a
class in order, and `Mention.names` reads the names behind one of them.
-/

namespace ClassLift

inductive Mention where
  /-- The superclass, which is never an array. -/
  | parent (index : PoolIndex)
  | classRef (index : PoolIndex)
  /-- A descriptor or a generic signature. -/
  | signature (index : PoolIndex)
  /-- A loaded constant, which may be a class. -/
  | constant (index : PoolIndex)
  /-- A member, which mentions its owner. -/
  | member (index : PoolIndex)
  deriving DecidableEq, Inhabited

namespace Mention

/-- An array class goes by its descriptor. -/
def ofClassName (name : String) : List String := if name.startsWith "[" then Signature.classNames name else [name]

def names (pool : Pool) : Mention → Except PoolError (List String)
  | parent index => (fun name => [name]) <$> pool.className index
  | classRef index => ofClassName <$> pool.className index
  | signature index => Signature.classNames <$> pool.utf8 index
  | constant index => do
      match ← pool.get index with
      | .classInfo _ => ofClassName <$> pool.className index
      | _ => return []
  | member index => (fun member => ofClassName member.owner) <$> pool.member index

/-- A handler of any exception mentions no class. -/
def ofExceptionType (type : PoolIndex) : List Mention := if type = 0 then [] else [classRef type]

end Mention

mutual

def ElementValue.mentions : ElementValue → List Mention
  | .const .. => []
  | .enum type _ => [.signature type]
  | .classInfo descriptor => [.signature descriptor]
  | .nested type elements => .signature type :: elementMentions elements
  | .array values => valueMentions values

def elementMentions : List (PoolIndex × ElementValue) → List Mention
  | [] => []
  | (_, value) :: rest => value.mentions ++ elementMentions rest

def valueMentions : List ElementValue → List Mention
  | [] => []
  | value :: rest => value.mentions ++ valueMentions rest

end

def Annotation.mentions (found : Annotation) : List Mention :=
  .signature found.type :: elementMentions found.elements

def LocalVariable.mentions (entries : Option (List LocalVariable)) : List Mention :=
  (entries.getD []).map fun entry => .signature entry.signature

def Place.mentions : Place → List Mention
  | .static index | .field index _ => [.member index]
  | _ => []

/-- The mentions of a node itself, without those of the nodes below it. -/
def Kind.mentions : Kind → List Mention
  | .allocate type | .outerThis type => [.classRef type]
  | .cast type _ | .instanceOf type _ => [.classRef type]
  | .newObjectArray type _ | .newMultiArray type _ => [.classRef type]
  | .caught type => Mention.ofExceptionType type
  | .constant index => [.constant index]
  | .read place => place.mentions
  | .write place _ => place.mentions
  | .call _ index _ _ => [.member index]
  | .construct index _ => [.member index]
  | .tryCatch _ catches _ => catches.flatMap fun clause => Mention.ofExceptionType clause.type
  | _ => []

def Store.mentions (store : Store) (roots : List NodeId) : List Mention :=
  (roots.flatMap store.preorder).flatMap fun id => (store.kind? id).elim [] Kind.mentions

/-- Part of a class. Trouble in a body loses only the rest of that body. -/
inductive Passage where
  | declaration (mentions : List Mention)
  | body (name : PoolIndex) (mentions : List Mention)
  deriving DecidableEq, Inhabited

namespace Field

def mentions (file : ClassFile) (field : Field) : List Mention :=
  let initial (initializer : Initializer) : List Mention :=
    (file.code? initializer.method).elim [] fun code => code.store.mentions [initializer.value]
  .signature (field.signatureIndex.getD field.descriptorIndex) ::
    field.annotations.flatMap Annotation.mentions ++ field.initializer.elim [] initial

end Field

namespace Method

def declarationMentions (method : Method) : List Mention :=
  .signature (method.signatureIndex.getD method.descriptorIndex) ::
    method.exceptions.map .classRef ++ method.annotations.flatMap Annotation.mentions ++
    method.parameterAnnotations.flatten.flatMap Annotation.mentions ++ LocalVariable.mentions method.localVariables

/-- A flagged method is shown with its raw body. -/
def bodyMentions (method : Method) (code : Code) : List Mention :=
  LocalVariable.mentions code.localVariables ++
    (code.handlers.flatMap fun handler => Mention.ofExceptionType handler.type) ++
    code.store.mentions (if method.flagged then code.instructions else code.statements)

def passages (method : Method) : List Passage :=
  .declaration method.declarationMentions ::
    method.code.elim [] fun code => [.body method.nameIndex (method.bodyMentions code)]

end Method

namespace ClassFile

def ownMentions (file : ClassFile) : List Mention :=
  (if file.superIndex = 0 then [] else [.parent file.superIndex]) ++ file.interfaces.map .classRef ++
    file.signatureIndex.toList.map .signature ++ file.annotations.flatMap Annotation.mentions

def passages (file : ClassFile) : List Passage :=
  .declaration file.ownMentions :: (file.fields.toList.map fun field => .declaration (field.mentions file)) ++
    file.methods.toList.flatMap Method.passages

end ClassFile

end ClassLift
