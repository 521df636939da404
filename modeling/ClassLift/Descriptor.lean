import ClassLift.ClassName
import ClassLift.Operator

/-!
# Descriptors

A field descriptor is a primitive letter or `L…;`, behind any number of `[`. A method descriptor is a list of field
descriptors in parentheses followed by a return descriptor. The readers here take any text and do what they can with it;
`Descriptor.parameters` alone can fail.
-/

namespace ClassLift

/-- A primitive descriptor is one byte long. A character of several bytes in its place leaves no way to go on. -/
inductive DescriptorError where
  | splitCharacter
  deriving DecidableEq, Inhabited

namespace Descriptor

/-- Cuts the first field descriptor off a text. There is none when the text ends within it. -/
def cut : List Char → Option (Except DescriptorError (List Char × List Char))
  | [] => none
  | '[' :: rest => (cut rest).map fun found => found.map fun (piece, rest) => ('[' :: piece, rest)
  | 'L' :: rest =>
      match rest.dropWhile (· != ';') with
      | [] => none
      | _ :: left => some (.ok ('L' :: rest.takeWhile (· != ';') ++ [';'], left))
  | letter :: rest => some (if letter.utf8Size = 1 then .ok ([letter], rest) else .error .splitCharacter)

/-- The field descriptors up to the closing parenthesis or an unfinished one. A descriptor takes at least one
character, so the length of the text bounds their number. -/
def cutAll : Nat → List Char → Except DescriptorError (List (List Char))
  | 0, _ => .ok []
  | _ + 1, [] => .ok []
  | _ + 1, ')' :: _ => .ok []
  | bound + 1, text =>
      match cut text with
      | none => .ok []
      | some (.error error) => .error error
      | some (.ok (piece, rest)) => (cutAll bound rest).map (piece :: ·)

def parameters (method : String) : Except DescriptorError (List String) :=
  match method.toList with
  | '(' :: text => (cutAll text.length text).map fun pieces => pieces.map String.ofList
  | _ => .ok []

def returned (method : String) : String :=
  let text := method.toList
  .ofList (if text.contains ')' then Text.afterLast ')' text else [])

def slots (parameter : String) : Nat := if parameter = "J" ∨ parameter = "D" then 2 else 1

def objectName? : List Char → Option (List Char)
  | 'L' :: text => if text.getLast? = some ';' then some text.dropLast else none
  | _ => none

/-- The class named by an object descriptor or by the elements of an array descriptor. -/
def className? (descriptor : String) : Option String :=
  (objectName? (descriptor.toList.dropWhile (· == '['))).map String.ofList

/-- The part of a class name that makes a readable variable name. An anonymous class has none. -/
def nestedName (name : List Char) : List Char :=
  match Text.afterLast '$' (Text.afterLast '/' name) with
  | [] => "Object".toList
  | first :: rest => if first.isDigit then "Object".toList else first :: rest

def baseNameChars : List Char → List Char
  | '[' :: element => "ArrayOf".toList ++ baseNameChars element
  | 'B' :: _ => "Byte".toList
  | 'C' :: _ => "Char".toList
  | 'D' :: _ => "Double".toList
  | 'F' :: _ => "Float".toList
  | 'I' :: _ => "Int".toList
  | 'J' :: _ => "Long".toList
  | 'S' :: _ => "Short".toList
  | 'Z' :: _ => "Boolean".toList
  | 'L' :: name => nestedName ((objectName? ('L' :: name)).getD "Object".toList)
  | _ => "Object".toList

/-- A readable word for a type: `Int` for `I`, `ArrayOfString` for `[Ljava/lang/String;`. -/
def baseName (descriptor : String) : String := .ofList (baseNameChars descriptor.toList)

def valueType (descriptor : String) : ValueType :=
  match descriptor.toList with
  | 'I' :: _ => .int
  | 'J' :: _ => .long
  | 'F' :: _ => .float
  | 'D' :: _ => .double
  | 'B' :: _ => .byte
  | 'C' :: _ => .char
  | 'S' :: _ => .short
  | 'Z' :: _ => .boolean
  | _ => .reference

def ofValueType : ValueType → String
  | .int => "I"
  | .long => "J"
  | .float => "F"
  | .double => "D"
  | .reference => "Ljava/lang/Object;"
  | .byte => "B"
  | .char => "C"
  | .short => "S"
  | .boolean => "Z"

end Descriptor

end ClassLift
