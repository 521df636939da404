/-!
# Generic signatures

`Signature.classNames` lists the classes that a descriptor or a class, method or field signature mentions, in the order in
which their closing `;` appears. A nested type `LOuter<TT;>.Inner;` is `Outer$Inner`. Reading stops at the first character
that fits nothing and keeps what it found.

There is a reader for each part of a signature. It looks at the text in front of it and makes a move: it stops, is done, turns
into another reader, or lets another reader go first.
-/

namespace ClassLift

namespace Signature

/-- The names a reader found and, unless it stopped, the text after what it read. -/
abbrev Found := List String × Option (List Char)

namespace Found

def stopped : Found := ([], none)

def andThen (found : Found) (next : List Char → Found) : Found :=
  match found with
  | (names, none) => (names, none)
  | (names, some rest) =>
      let (more, last) := next rest
      (names ++ more, last)

end Found

def isPrimitive (letter : Char) : Bool := "BCDFIJSZV".toList.contains letter

def beginsBound (letter : Char) : Bool := letter == 'L' || letter == '[' || letter == 'T'

def endsName (letter : Char) : Bool := letter == '<' || letter == ';' || letter == '.'

def dropMark (mark : Char) : List Char → List Char
  | letter :: rest => if letter == mark then rest else letter :: rest
  | [] => []

inductive Reader where
  | type
  /-- A class type whose name so far is `name`. -/
  | className (name : List Char)
  /-- What may follow a piece of a class name: `.` and another piece, or the closing `;`. -/
  | suffix (name : List Char)
  /-- Type arguments up to and with the closing `>`. -/
  | arguments
  /-- A bound of a type parameter, behind its `:`. It may be empty. -/
  | bound
  | moreBounds
  /-- Formal type parameters up to and with the closing `>`. -/
  | formals
  /-- Types up to and with a closing `)`. -/
  | parameters
  | result
  /-- Thrown types, each behind a `^`. Anything else ends them. -/
  | thrown
  /-- Types up to the end of the text. -/
  | types
  /-- A method signature after its type parameters, or the types of a class or field signature. -/
  | body
  | signature

inductive Move where
  | stop
  | done (names : List String) (rest : List Char)
  | become (next : Reader) (rest : List Char)
  | letFirst (inner : Reader) (rest : List Char) (next : Reader)

namespace Reader

def move : Reader → List Char → Move
  | type, [] => .stop
  | type, letter :: rest =>
      if isPrimitive letter then .done [] rest
      else if letter == '[' then .become type rest
      else if letter == 'T' then
        match rest.dropWhile (· != ';') with
        | [] => .stop
        | _ :: rest => .done [] rest
      else if letter == 'L' then .become (className []) rest
      else .stop
  | className name, text =>
      let name := name ++ text.takeWhile (!endsName ·)
      match text.dropWhile (!endsName ·) with
      | '<' :: rest => .letFirst arguments rest (suffix name)
      | rest => .become (suffix name) rest
  | suffix name, '.' :: rest => .become (className (name ++ ['$'])) rest
  | suffix name, ';' :: rest => .done [.ofList name] rest
  | suffix _, _ => .stop
  | arguments, '>' :: rest => .done [] rest
  | arguments, '*' :: rest => .become arguments rest
  | arguments, text => .letFirst type (dropMark '-' (dropMark '+' text)) arguments
  | bound, [] => .stop
  | bound, letter :: rest =>
      if beginsBound letter then .letFirst type (letter :: rest) moreBounds else .become moreBounds (letter :: rest)
  | moreBounds, ':' :: rest => .become bound rest
  | moreBounds, rest => .done [] rest
  | formals, '>' :: rest => .done [] rest
  | formals, text =>
      match text.dropWhile (· != ':') with
      | [] => .stop
      | _ :: rest => .letFirst bound rest formals
  | parameters, ')' :: rest => .done [] rest
  | parameters, text => .letFirst type text parameters
  | result, text => .letFirst type text thrown
  | thrown, '^' :: rest => .letFirst type rest thrown
  | thrown, rest => .done [] rest
  | types, [] => .done [] []
  | types, text => .letFirst type text types
  | body, '(' :: rest => .letFirst parameters rest result
  | body, text => .become types text
  | signature, '<' :: rest => .letFirst formals rest body
  | signature, text => .become body text

/-- Makes moves until the reader is done. The number bounds the depth of the recursion. -/
def readWithin : Nat → Reader → List Char → Found
  | 0, _, _ => .stopped
  | depth + 1, reader, text =>
      match reader.move text with
      | .stop => .stopped
      | .done names rest => (names, some rest)
      | .become next rest => readWithin depth next rest
      | .letFirst inner rest next => (readWithin depth inner rest).andThen (readWithin depth next)

end Reader

/-- The classes a signature mentions. Of two moves that lead deeper at least one reads a character, so that the depth is at
most twice the length of the text and a little more. -/
def classNames (signature : String) : List String :=
  let text := signature.toList
  (Reader.signature.readWithin (2 * text.length + 4) text).1

end Signature

end ClassLift
