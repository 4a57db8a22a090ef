import LslFront.Decimal.Shortest
import LslFront.Json
import LslFront.Script

/-!
# Scripts as JSON

The written form of a script that has been read.  Tables are objects whose keys are the names, in
the order of declaration; every named entry repeats its name inside.  A double is written with
the fewest digits, and one that is not finite as null.
-/

namespace LslFront

def BinaryOp.jsonName : BinaryOp → String
  | add => "Add"
  | sub => "Sub"
  | mul => "Mul"
  | div => "Div"
  | mod => "Mod"
  | shl => "Shl"
  | shr => "Shr"
  | bitAnd => "BitAnd"
  | bitOr => "BitOr"
  | bitXor => "BitXor"
  | and => "And"
  | or => "Or"
  | eq => "Eq"
  | ne => "Ne"
  | lt => "Lt"
  | gt => "Gt"
  | le => "Le"
  | ge => "Ge"
  | member => "Member"
  | assign => "Assign"
  | addAssign => "AddAssign"
  | subAssign => "SubAssign"
  | mulAssign => "MulAssign"
  | divAssign => "DivAssign"
  | modAssign => "ModAssign"

def Ty.toJson (ty : Ty) : Json :=
  .text ty.word

/-- A cast is an object that names its type, and every other operator a string. -/
def UnaryOp.toJson : UnaryOp → Json
  | plus => .text "Plus"
  | neg => .text "Neg"
  | not => .text "Not"
  | bitNot => .text "BitNot"
  | increment => .text "PreIncrement"
  | decrement => .text "PreDecrement"
  | cast ty => .record [("Cast", ty.toJson)]

def SuffixOp.toJson : SuffixOp → Json
  | increment => .text "Increment"
  | decrement => .text "Decrement"

/-! ### Expressions -/

/-- A double as a number, and as null if it is not finite. -/
def floatJson (x : Float) : Json :=
  .optional .number (shortestText? x)

def Constant.valueJson : Constant → Json
  | integer i => .integer i.toInt
  | float f => floatJson f
  | string s => .text s
  | vector v => .record [("x", floatJson v.x), ("y", floatJson v.y), ("z", floatJson v.z)]
  | rotation r =>
      .record [("x", floatJson r.x), ("y", floatJson r.y), ("z", floatJson r.z),
        ("s", floatJson r.s)]

def Constant.toJson (value : Constant) : Json :=
  .record [("kind", value.kind.toJson), ("value", value.valueJson)]

namespace Resolved

/-- A node that is kept for the running script. -/
def keptJson (node : String) (fields : List (String × Json)) : Json :=
  .record [("resolved", .text "retained"), ("value", .record (("node", .text node) :: fields))]

mutual

def toJson : Resolved → Json
  | constant value => .record [("resolved", .text "constant"), ("value", value.toJson)]
  | .variable name => keptJson "variable" [("name", .text name)]
  | binary op left right =>
      keptJson "binary"
        [("op", .text op.jsonName), ("left", left.toJson), ("right", right.toJson)]
  | member object name =>
      keptJson "member" [("object", object.toJson), ("member", .text name)]
  | unary op operand => keptJson "unary" [("op", op.toJson), ("operand", operand.toJson)]
  | suffix op operand => keptJson "postfix" [("op", op.toJson), ("operand", operand.toJson)]
  | call name args => keptJson "call" [("name", .text name), ("args", .array (allToJson args))]
  | list items => keptJson "list" [("items", .array (allToJson items))]
  | vector components => keptJson "vector" [("components", .array (allToJson components))]
  | rotation components => keptJson "rotation" [("components", .array (allToJson components))]

def allToJson : List Resolved → List Json
  | [] => []
  | first :: rest => first.toJson :: allToJson rest

end

def listJson (all : List Resolved) : Json :=
  .array (allToJson all)

end Resolved

/-! ### Statements -/

def statementJson (line : Nat) (kind : String) (fields : List (String × Json)) : Json :=
  .record [("line", .natural line), ("kind", .record (("statement", .text kind) :: fields))]

mutual

def Statement.toJson : Statement → Json
  | .expression line value => statementJson line "expression" [("expr", value.toJson)]
  | .declaration line ty name value =>
      statementJson line "declaration"
        [("ty", ty.toJson), ("name", .text name), ("value", .optional Resolved.toJson value)]
  | .ret line value =>
      statementJson line "return" [("value", .optional Resolved.toJson value)]
  | .stateChange line target => statementJson line "state_change" [("state", .text target)]
  | .jump line label => statementJson line "jump" [("label", .text label)]
  | .label line name => statementJson line "label" [("label", .text name)]
  | .block line body => statementJson line "block" [("block", body.toJson)]
  | .ifThen line condition thenBranch =>
      statementJson line "if"
        [("condition", condition.toJson), ("then_branch", thenBranch.toJson),
          ("else_branch", .null)]
  | .ifElse line condition thenBranch elseBranch =>
      statementJson line "if"
        [("condition", condition.toJson), ("then_branch", thenBranch.toJson),
          ("else_branch", elseBranch.toJson)]
  | .whileLoop line condition body =>
      statementJson line "while" [("condition", condition.toJson), ("body", body.toJson)]
  | .doWhile line body condition =>
      statementJson line "do_while" [("body", body.toJson), ("condition", condition.toJson)]
  | .forLoop line start condition step body =>
      statementJson line "for"
        [("init", Resolved.listJson start), ("condition", .optional Resolved.toJson condition),
          ("step", Resolved.listJson step), ("body", body.toJson)]
  | .empty line => statementJson line "empty" []

def Block.toJson : Block → Json
  | .mk line braced statements =>
      .record [("line", .natural line), ("braced", .bool braced),
        ("statements", .array (statementsToJson statements))]

def statementsToJson : List Statement → List Json
  | [] => []
  | first :: rest => first.toJson :: statementsToJson rest

end

/-! ### Declarations -/

def Table.toJson {α : Type} (write : String → α → Json) (table : Table α) : Json :=
  .record (table.entries.map fun (name, value) => (name, write name value))

/-- A line, with its number repeated for each token. -/
def Line.toJson (line : Line) : Json :=
  .record [("line", .natural line.number),
    ("tokens",
      .array (line.placed.map fun (token, number) =>
        .record [("text", .text token), ("line", .natural number)]))]

def Parameter.toJson (param : Parameter) : Json :=
  .record [("ty", param.ty.toJson), ("name", .text param.name)]

def Global.toJson (name : String) (global : Global) : Json :=
  .record [("name", .text name), ("ty", global.ty.toJson), ("line", .natural global.line),
    ("initializer", .optional Line.toJson global.initializer),
    ("value", .optional Resolved.toJson global.value)]

def Function.toJson (name : String) (function : Function) : Json :=
  .record [("name", .text name), ("return_type", .optional Ty.toJson function.returnType),
    ("params", .array (function.params.map Parameter.toJson)),
    ("body", function.body.toJson), ("line", .natural function.line)]

def Handler.toJson (name : String) (handler : Handler) : Json :=
  .record [("name", .text name), ("params", .array (handler.params.map Parameter.toJson)),
    ("body", handler.body.toJson), ("line", .natural handler.line)]

def ScriptState.toJson (name : String) (state : ScriptState) : Json :=
  .record [("name", .text name), ("line", .natural state.line),
    ("events", state.events.toJson Handler.toJson)]

def Script.toJson (script : Script) : Json :=
  .record [("flags", .text script.dialect.listed), ("globals", script.globals.toJson Global.toJson),
    ("functions", script.functions.toJson Function.toJson),
    ("states", script.states.toJson ScriptState.toJson),
    ("includes", .array (script.includes.map .text))]

end LslFront
