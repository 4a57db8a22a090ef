import LslFront.Builtin.Word
import LslFront.Expr
import LslFront.Fault
import LslFront.Token

/-!
# Parsing expressions

The grammar, from the operators that bind loosest to those that bind tightest: assignments, to
the right; nine levels of binary operators, to the left; operators and casts before an operand;
operators and member names after it; and the closed forms, which are leaves, groups, lists, angle
literals and calls.

Between `<` and `>` the parser is in *angle mode*: there `>`, `>=` and `>>` are no operators, so
that the first `>` closes the literal.  Inside a group, a list or a call the mode is off again.

Every function that calls itself through others counts down a budget.  The longest chain of calls
that takes no token has fifteen members, so a budget of sixteen for each token is never used up;
`parseExpression` and `parseList` provide it.
-/

namespace LslFront

/-! ### Operators by their symbols -/

namespace BinaryOp

def assignments : List BinaryOp :=
  [assign, addAssign, subAssign, mulAssign, divAssign, modAssign]

def levels : List (List BinaryOp) :=
  [[and, or], [bitOr], [bitXor], [bitAnd], [eq, ne], [lt, gt, le, ge], [shl, shr], [add, sub],
   [mul, div, mod]]

/-- Operators that would swallow the end of an angle literal. -/
def closesAngle : BinaryOp → Bool
  | gt | ge | shr => true
  | _ => false

/-- The operator among `ops` that a token writes; in angle mode some are left out. -/
def ofToken? (ops : List BinaryOp) (angle : Bool) (token : String) : Option BinaryOp :=
  ops.find? fun op => op.symbol == token && !(angle && op.closesAngle)

end BinaryOp

/-- The operator or cast that a token writes before an operand. -/
def UnaryOp.ofToken? : String → Option UnaryOp
  | "-" => some .neg
  | "+" => some .plus
  | "!" => some .not
  | "~" => some .bitNot
  | "++" => some .increment
  | "--" => some .decrement
  | token => (Ty.ofCast? token).map .cast

def SuffixOp.ofToken? : String → Option SuffixOp
  | "++" => some .increment
  | "--" => some .decrement
  | _ => none

/-! ### The parser -/

def expect (token : String) : List String → Except SyntaxCause (List String)
  | [] => .error (.expected token none)
  | found :: rest =>
      if found = token then .ok rest else .error (.expected token (some found))

def expectEnd {α : Type} : α × List String → Except SyntaxCause α
  | (result, []) => .ok result
  | (_, token :: _) => .error (.unexpected token)

/-- Operators and member names after an operand. -/
def parseSuffixes (operand : Expr) : List String → Except SyntaxCause (Expr × List String)
  | [] => .ok (operand, [])
  | token :: rest =>
      match SuffixOp.ofToken? token with
      | some op => parseSuffixes (.suffix op operand) rest
      | none =>
          if token = "." then
            match rest with
            | [] => .error (.memberName none)
            | name :: after =>
                if isIdentifier name then
                  parseSuffixes (.binary .member operand (.value name)) after
                else .error (.memberName (some name))
          else .ok (operand, token :: rest)

mutual

def parseAssignment (budget : Nat) (angle : Bool) (tokens : List String) :
    Except SyntaxCause (Expr × List String) :=
  match budget with
  | 0 => .error .unexpectedEnd
  | budget + 1 => do
      let (left, rest) ← parseLevels budget angle BinaryOp.levels tokens
      match rest with
      | [] => return (left, [])
      | token :: after =>
          match BinaryOp.ofToken? BinaryOp.assignments false token with
          | none => return (left, rest)
          | some op =>
              let (right, rest) ← parseAssignment budget angle after
              return (.binary op left right, rest)

/-- Operands joined by the operators of the given levels. -/
def parseLevels (budget : Nat) (angle : Bool) (levels : List (List BinaryOp))
    (tokens : List String) : Except SyntaxCause (Expr × List String) :=
  match budget with
  | 0 => .error .unexpectedEnd
  | budget + 1 =>
      match levels with
      | [] => parseUnary budget angle tokens
      | level :: tighter => do
          let (left, rest) ← parseLevels budget angle tighter tokens
          parseJoined budget angle level tighter left rest

/-- More operands of one level, after `left`. -/
def parseJoined (budget : Nat) (angle : Bool) (level : List BinaryOp)
    (tighter : List (List BinaryOp)) (left : Expr) (tokens : List String) :
    Except SyntaxCause (Expr × List String) :=
  match budget with
  | 0 => .error .unexpectedEnd
  | budget + 1 =>
      match tokens with
      | [] => .ok (left, [])
      | token :: after =>
          match BinaryOp.ofToken? level angle token with
          | none => .ok (left, tokens)
          | some op => do
              let (right, rest) ← parseLevels budget angle tighter after
              parseJoined budget angle level tighter (.binary op left right) rest

def parseUnary (budget : Nat) (angle : Bool) (tokens : List String) :
    Except SyntaxCause (Expr × List String) :=
  match budget with
  | 0 => .error .unexpectedEnd
  | budget + 1 =>
      match tokens with
      | [] => .error .unexpectedEnd
      | token :: after =>
          match UnaryOp.ofToken? token with
          | some op => do
              let (operand, rest) ← parseUnary budget angle after
              return (.unary op operand, rest)
          | none => do
              let (operand, rest) ← parseClosed budget token after
              parseSuffixes operand rest

/-- A closed form that begins with `token`. -/
def parseClosed (budget : Nat) (token : String) (tokens : List String) :
    Except SyntaxCause (Expr × List String) :=
  match budget with
  | 0 => .error .unexpectedEnd
  | budget + 1 =>
      if token = "(" then do
        let (child, rest) ← parseAssignment budget false tokens
        return (.group [child], ← expect ")" rest)
      else if token = "[" then do
        let (items, rest) ← parseItems budget "]" tokens
        return (.list items, rest)
      else if token = "<" then do
        let (components, rest) ← parseSeparated budget true tokens
        return (.angle components, ← expect ">" rest)
      else if isIdentifier token then
        if Builtin.isReserved token then .error (.keyword token)
        else
          match tokens with
          | [] => .ok (.value token, [])
          | next :: after =>
              if next = "(" then do
                let (args, rest) ← parseItems budget ")" after
                return (.call token args, rest)
              else .ok (.value token, tokens)
      else if isNumeric token || isQuoted token then .ok (.value token, tokens)
      else .error (.unexpected token)

/-- Expressions up to a closing token; there may be none. -/
def parseItems (budget : Nat) (close : String) (tokens : List String) :
    Except SyntaxCause (List Expr × List String) :=
  match budget with
  | 0 => .error .unexpectedEnd
  | budget + 1 =>
      if tokens.head? = some close then .ok ([], tokens.tail)
      else do
        let (items, rest) ← parseSeparated budget false tokens
        return (items, ← expect close rest)

/-- One or more expressions with commas between them. -/
def parseSeparated (budget : Nat) (angle : Bool) (tokens : List String) :
    Except SyntaxCause (List Expr × List String) :=
  match budget with
  | 0 => .error .unexpectedEnd
  | budget + 1 => do
      let (first, rest) ← parseAssignment budget angle tokens
      match rest with
      | [] => return ([first], [])
      | token :: after =>
          if token = "," then
            let (others, rest) ← parseSeparated budget angle after
            return (first :: others, rest)
          else return ([first], rest)

end

/-- A budget that no chain of calls on these tokens exceeds. -/
def parseBudget (tokens : List String) : Nat :=
  16 * (tokens.length + 1)

/-- The expression that all the tokens make. -/
def parseExpression (tokens : List String) : Except SyntaxCause Expr :=
  parseAssignment (parseBudget tokens) false tokens >>= expectEnd

/-- The expressions, separated by commas, that all the tokens make; no tokens make none. -/
def parseList (tokens : List String) : Except SyntaxCause (List Expr) :=
  if tokens.isEmpty then .ok []
  else parseSeparated (parseBudget tokens) false tokens >>= expectEnd

end LslFront
