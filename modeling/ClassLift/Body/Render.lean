import ClassLift.Body.Store
import ClassLift.Decimal

/-!
# Text of a body

A compact rendering for diagnostics. References into the pool stay numbers, written `#index`.
-/

namespace ClassLift

def Literal.text : Literal → String
  | int value => toString value
  | long value => toString value ++ "L"
  | float bits => Decimal.single.text bits.toNat ++ "F"
  | double bits => Decimal.double.text bits.toNat ++ "D"
  | null => "null"

namespace Render

def lines (node : NodeId → String) (body : List NodeId) : String :=
  String.join (body.map fun id => node id ++ "\n")

def block (node : NodeId → String) (body : List NodeId) : String :=
  "\x7b\n" ++ lines node body ++ "\x7d"

def list (node : NodeId → String) (values : List NodeId) : String := ", ".intercalate (values.map node)

def place (node : NodeId → String) : Place → String
  | .slot _ slot => s!"local{slot}"
  | .static field => s!"static #{field}"
  | .field field object => "(" ++ node object ++ s!").#{field}"
  | .element _ array index => "(" ++ node array ++ ")[" ++ node index ++ "]"

def test (node : NodeId → String) : Test → String
  | .zero comparison value => "(" ++ node value ++ ") " ++ comparison.text ++ " 0"
  | .pair comparison lhs rhs => "(" ++ node lhs ++ ") " ++ comparison.text ++ " (" ++ node rhs ++ ")"
  | .null comparison value => "(" ++ node value ++ ") " ++ comparison.text ++ " null"

def loop (node : NodeId → String) (body : List NodeId) : LoopForm → String
  | .whileDo condition => "while [" ++ node condition ++ "] " ++ block node body
  | .doWhile condition => "do " ++ block node body ++ " while [" ++ node condition ++ "];"
  | .counted start condition update =>
      "for (" ++ node start ++ "; [" ++ node condition ++ "]; " ++ node update ++ ") " ++ block node body
  | .forever => "loop " ++ block node body

def arm (node : NodeId → String) (arm : SwitchArm) : String :=
  String.join (arm.values.map fun value => s!"case {value}: ") ++ (if arm.isDefault then "default: " else "") ++
    block node arm.body ++ "\n"

def clause (node : NodeId → String) (clause : CatchClause) : String :=
  s!" catch (#{clause.type} local{clause.slot}) " ++ block node clause.body

/-- A block behind a word, or nothing for an empty block. -/
def optional (node : NodeId → String) (word : String) (body : List NodeId) : String :=
  if body.isEmpty then "" else s!" {word} " ++ block node body

/-- The text of a kind, given the text of the nodes it names, its own offset and the offset of a node. -/
def kind (node : NodeId → String) (offsetOf : NodeId → Offset) (offset : Offset) : Kind → String
  | .read source => place node source
  | .caught type => s!"exception #{type}"
  | .literal value => value.text
  | .constant index => s!"ldc #{index}"
  | .arrayLength array => "(" ++ node array ++ ").length"
  | .binary op lhs rhs => "(" ++ node lhs ++ ") " ++ op.text ++ " (" ++ node rhs ++ ")"
  | .negate value => "-(" ++ node value ++ ")"
  | .convert type value => "(" ++ type.text ++ ")(" ++ node value ++ ")"
  | .cast type object => s!"(#{type})(" ++ node object ++ ")"
  | .instanceOf type object => "(" ++ node object ++ s!") instanceof #{type}"
  | .call kind method object arguments =>
      (object.elim "" fun object => "(" ++ node object ++ ").") ++ kind.text ++ s!" #{method}(" ++
        list node arguments ++ ")"
  | .allocate type => s!"new uninitialized #{type}"
  | .construct method arguments => s!"new #{method}(" ++ list node arguments ++ ")"
  | .newArray type length => "new " ++ type.text ++ "[" ++ node length ++ "]"
  | .newObjectArray type length => s!"new #{type}[" ++ node length ++ "]"
  | .newMultiArray type dimensions =>
      s!"new #{type}" ++ String.join (dimensions.map fun dimension => "[" ++ node dimension ++ "]")
  | .arrayLiteral array values => node array ++ " \x7b" ++ list node values ++ "\x7d"
  | .dupStore value => s!"dup{offset} := " ++ node value
  | .dupLoad store => s!"dup{offsetOf store}"
  | .outerThis type => s!"#{type}.this"
  | .conditional condition ifTrue ifFalse =>
      "(" ++ node condition ++ ") ? (" ++ node ifTrue ++ ") : (" ++ node ifFalse ++ ")"
  | .pendingConditional value second => "ternary " ++ node value ++ s!" | @{second}"
  | .assign op target value => node target ++ " " ++ op.text ++ " " ++ node value
  | .increment position target delta =>
      let sign := if delta > 0 then "++" else "--"
      match position with
      | .pre => sign ++ node target
      | .post => node target ++ sign
  | .branch condition target => "if (" ++ test node condition ++ s!") goto @{target}"
  | .goto target => s!"goto @{target}"
  | .switch key default cases =>
      "switch (" ++ node key ++ ") " ++
        String.join (cases.map fun (value, target) => s!"{value} -> @{target}, ") ++ s!"default -> @{default}"
  | .write target value => place node target ++ " = " ++ node value
  | .bump slot delta => s!"local{slot} += {delta}"
  | .discard value => node value ++ ";"
  | .ret none => "return;"
  | .ret (some value) => "return " ++ node value ++ ";"
  | .throw value => "throw " ++ node value ++ ";"
  | .monitorEnter object => "lock " ++ node object ++ ";"
  | .monitorExit object => "unlock " ++ node object ++ ";"
  | .ifElse condition onTrue onFalse =>
      "if [" ++ node condition ++ "] " ++ block node onTrue ++ optional node "else" onFalse
  | .loop form body => loop node body form
  | .switchArms key arms =>
      "switch (" ++ node key ++ ") \x7b\n" ++ String.join (arms.map (arm node)) ++ "\x7d"
  | .tryCatch body catches cleanup =>
      "try " ++ block node body ++ String.join (catches.map (clause node)) ++ optional node "finally" cleanup
  | .declare slot none => s!"var local{slot};"
  | .declare slot (some value) => s!"var local{slot} = " ++ node value ++ ";"
  | .breakOut => "break;"
  | .continueLoop => "continue;"

end Render

namespace Store

def offsetOf (store : Store) (id : NodeId) : Offset := ((store.node? id).map Node.offset).getD 0

def renderWithin (store : Store) : Nat → NodeId → String
  | 0, _ => ""
  | depth + 1, id =>
      match store.node? id with
      | none => ""
      | some node => Render.kind (renderWithin store depth) store.offsetOf node.offset node.kind

def render (store : Store) (id : NodeId) : String := store.renderWithin store.size id

def renderList (store : Store) (ids : List NodeId) : String := Render.lines store.render ids

end Store

end ClassLift
