import LslFront.Builtin.Constant
import LslFront.Constant.Convert
import LslFront.Constant.Fold
import LslFront.Expr.Casts
import LslFront.Expr.Parser
import LslFront.Resolved

/-!
# Resolving expressions

An expression is resolved from its leaves upwards.  Where all operands of an operator are
constants it is computed, and an operator that is not defined on them is an error; otherwise the
operator is kept with its operands.  What a name stands for is asked of a `Scope`: a variable is
kept, and a built-in constant that the dialect shows is replaced by its value.

Two places look at the tree below an operator before it is resolved.  A minus directly before the
literal `2147483648` gives the least integer, which the literal alone could not; and the right
side of a member access is a name and not an operand.
-/

namespace LslFront

/-- What names mean where an expression stands. -/
structure Scope where
  dialect : Dialect
  isVariable : String → Bool

/-- The constant that a name stands for.  A variable hides a constant of its name. -/
def Scope.constant? (scope : Scope) (name : String) : Option Constant :=
  if scope.isVariable name then none
  else (Builtin.constant? name scope.dialect).map (·.value)

/-- The literal that is too large by one for an integer, unless a minus stands before it. -/
def leastIntegerDigits : String := "2147483648"

namespace Resolved

/-! ### One operator -/

def refuse {α : Type} (cause : ResolutionCause) : Except Cause α :=
  .error (.resolution cause)

/-- A leaf by its token. -/
def ofToken (scope : Scope) (token : String) : Except Cause Resolved :=
  if isQuoted token then
    match stringOfLiteral? token with
    | some text => .ok (constant (.string text))
    | none => refuse (.literal token)
  else if token.toList.head?.any (fun c => c.isDigit || c == '.') then
    match numberOfLiteral? token with
    | some number => .ok (constant number)
    | none => refuse (.number token)
  else
    match scope.constant? token with
    | some value => .ok (constant value)
    | none => .ok (.variable token)

/-- The text of a list all of whose items are constants. -/
def joinedText? (items : List Resolved) : Option String :=
  (items.mapM constant?).map fun values => String.join (values.map Constant.elementText)

/-- A cast of a resolved operand.  A cast to list is always kept, and so is one of anything but a
    constant, except that a list of constants can be cast to string. -/
def castTo (target : Ty) (operand : Resolved) : Except Cause Resolved :=
  let kept := unary (.cast target) operand
  match operand with
  | constant value =>
      if target = .list then .ok kept
      else
        match value.castTo? target with
        | some result => .ok (constant result)
        | none => refuse (.castKind value.kind target)
  | list items =>
      if target = .string then
        match joinedText? items with
        | some text => .ok (constant (.string text))
        | none => .ok kept
      else .ok kept
  | _ => .ok kept

def unaryConstant (op : UnaryOp) (value : Constant) : Except Cause Constant :=
  match op, value with
  | .plus, value => .ok value
  | .neg, value =>
      match value.negated? with
      | some result => .ok result
      | none => refuse (.negation value.kind)
  | .bitNot, .integer i => .ok (.integer (~~~i))
  | .not, .integer i => .ok (.ofBool (i == 0))
  | .increment, _ => refuse .steppedConstant
  | .decrement, _ => refuse .steppedConstant
  | op, value => refuse (.unaryKind op value.kind)

def ofUnary (op : UnaryOp) (operand : Resolved) : Except Cause Resolved :=
  match op with
  | .cast target => castTo target operand
  | op =>
      match operand with
      | constant value => (unaryConstant op value).map constant
      | operand => .ok (unary op operand)

def ofSuffix (op : SuffixOp) (operand : Resolved) : Except Cause Resolved :=
  if operand.isConstant then refuse .steppedConstant else .ok (suffix op operand)

def ofMember (object : Resolved) (name : String) : Except Cause Resolved :=
  match object with
  | constant value =>
      if value.hasComponents then
        match value.component? name with
        | some x => .ok (constant (.float x))
        | none => refuse (.component value.kind name)
      else refuse (.memberKind value.kind)
  | object => .ok (member object name)

/-- A binary operator, other than a member access or an assignment, between resolved operands. -/
def ofBinary (op : BinaryOp) (left right : Resolved) : Except Cause Resolved :=
  match left, right with
  | constant a, constant b =>
      match op.fold a b with
      | .value result => .ok (constant result)
      | .atRunTime => .ok (binary op left right)
      | .mismatch => refuse (.binaryKinds op a.kind b.kind)
  | left, right => .ok (binary op left right)

/-- An angle literal with resolved components.  Numbers make a constant. -/
def ofComponents (components : List Resolved) : Resolved :=
  match components.mapM (fun c => c.constant?.bind Constant.number?) with
  | some [x, y, z] => constant (.vector ⟨x, y, z⟩)
  | some [x, y, z, s] => constant (.rotation ⟨x, y, z, s⟩)
  | _ => if components.length = 3 then vector components else rotation components

end Resolved

/-! ### Trees -/

mutual

/-- The resolved form of an expression, or the first cause, from left to right, why it has
    none. -/
def Expr.resolve (scope : Scope) : Expr → Except Cause Resolved
  | .value token => Resolved.ofToken scope token
  | .group children =>
      match children with
      | [child] => child.resolve scope
      | _ => .error (.syntactic .groupArity)
  | .list items => return .list (← Expr.resolveAll scope items)
  | .call name args => return .call name (← Expr.resolveAll scope args)
  | .angle components =>
      if components.length = 3 ∨ components.length = 4 then
        return Resolved.ofComponents (← Expr.resolveAll scope components)
      else Resolved.refuse (.angleArity components.length)
  | .unary op operand =>
      if op = .neg ∧ operand.isLeaf leastIntegerDigits then
        .ok (.constant (.integer Int32.minValue))
      else do
        Resolved.ofUnary op (← operand.resolve scope)
  | .suffix op operand => do
      Resolved.ofSuffix op (← operand.resolve scope)
  | .binary op left right => do
      let first ← left.resolve scope
      if op = .member then
        match right with
        | .value name => Resolved.ofMember first name
        | _ => .error (.defect .unnamedMember)
      else if op.isAssignment then
        if first.isConstant then Resolved.refuse .assignedConstant
        else return .binary op first (← right.resolve scope)
      else Resolved.ofBinary op first (← right.resolve scope)

def Expr.resolveAll (scope : Scope) : List Expr → Except Cause (List Resolved)
  | [] => .ok []
  | expr :: rest => do
      let first ← expr.resolve scope
      return first :: (← Expr.resolveAll scope rest)

end

/-! ### Tokens -/

/-- The resolved form of the expression that the tokens make. -/
def resolveTokens (scope : Scope) (tokens : List String) : Except Cause Resolved := do
  let tokens ← (recombineCasts tokens).mapError .resolution
  let expr ← (parseExpression tokens).mapError .syntactic
  expr.resolve scope

/-- The resolved forms of the expressions, separated by commas, that the tokens make. -/
def resolveTokenList (scope : Scope) (tokens : List String) : Except Cause (List Resolved) := do
  let tokens ← (recombineCasts tokens).mapError .resolution
  let exprs ← (parseList tokens).mapError .syntactic
  Expr.resolveAll scope exprs

end LslFront
