import LslFront.Operator

/-!
# Faults

The first fault ends a compilation, so a fault is one cause and the line it is laid to.  There is
one type of causes for each activity that can go wrong; `Cause` joins them, and fixes which label
is printed and how the cause is worded.  Nothing else in the library words an error.

A `Notice` is what is left of a fault when it is reported: label, line and text.
-/

namespace LslFront

/-! ### What is reported -/

/-- The label under which an error is reported. -/
inductive FaultKind where
  | lexical
  | declaration
  | structural
  | syntactic
  | resolution
  | defect
  | io
deriving DecidableEq, Repr

def FaultKind.label : FaultKind → String
  | lexical => "lexer"
  | declaration => "declaration"
  | structural => "structure"
  | syntactic => "syntax"
  | resolution => "resolver"
  | defect => "internal"
  | io => "io"

/-- An error as it is shown. -/
structure Notice where
  kind : FaultKind
  line : Nat
  text : String
deriving DecidableEq, Repr

namespace Notice

def display (notice : Notice) : String :=
  s!"[{notice.kind.label}] line {notice.line}: {notice.text}"

/-- The error as a message about a file. -/
def inFile (notice : Notice) (file : String) : String :=
  s!"{file}({notice.line}): {notice.kind.label} error: {notice.text}"

/-- A defect of the compiler itself says so in its text. -/
def ofDefect (text : String) (line : Nat) : Notice :=
  ⟨.defect, line, s!"internal compiler error: {text}"⟩

/-- A source that cannot be read has no line yet, which is written as line 0. -/
def ofUnreadable (name reason : String) : Notice :=
  ⟨.io, 0, s!"cannot read '{name}': {reason}"⟩

end Notice

/-! ### Causes -/

/-- Why a text has no logical lines. -/
inductive LexicalCause where
  | unmatchedClose
  | openParenthesis
  | openComment
  | openLiteral
  | openIncludeName
deriving DecidableEq, Repr

def LexicalCause.text : LexicalCause → String
  | unmatchedClose => "Mismatched parenthesis: unexpected ')'"
  | openParenthesis => "Premature end of input: unclosed parenthesis"
  | openComment => "Premature end of input: unterminated block comment"
  | openLiteral => "Unterminated string literal"
  | openIncludeName => "Unterminated include name"

/-- Why tokens form no expression. -/
inductive SyntaxCause where
  | unexpectedEnd
  | unexpected (token : String)
  | keyword (name : String)
  | expected (token : String) (found : Option String)
  | memberName (found : Option String)
  | groupArity
deriving DecidableEq, Repr

def SyntaxCause.text : SyntaxCause → String
  | unexpectedEnd => "Unexpected end of expression"
  | unexpected token => s!"Unexpected token '{token}'"
  | keyword name => s!"Unexpected keyword '{name}'"
  | expected token (some found) => s!"Expected '{token}' but found '{found}'"
  | expected token none => s!"Expected '{token}' at end of expression"
  | memberName (some found) => s!"Expected member name after '.', found '{found}'"
  | memberName none => "Expected member name after '.'"
  | groupArity => "Parenthesis must hold exactly one expression"

/-- Why an expression has no resolved form.  Kinds of constants are given by their types. -/
inductive ResolutionCause where
  | notAType (name : String)
  | literal (token : String)
  | number (token : String)
  | angleArity (count : Nat)
  | negation (kind : Ty)
  | unaryKind (op : UnaryOp) (kind : Ty)
  | steppedConstant
  | assignedConstant
  | castKind (source target : Ty)
  | memberKind (kind : Ty)
  | component (kind : Ty) (name : String)
  | binaryKinds (op : BinaryOp) (left right : Ty)
deriving DecidableEq, Repr

def ResolutionCause.text : ResolutionCause → String
  | notAType name => s!"Invalid typecast '({name})'"
  | literal token => s!"Malformed string literal {token}"
  | number token => s!"Invalid numeric literal '{token}'"
  | angleArity count =>
      s!"Angle-bracket literal has {count} components, which is neither 3 nor 4"
  | negation kind => s!"Unary '-' is not supported on {kind.word}"
  | unaryKind op kind =>
      s!"Mismatching type: unary '{op.symbol}' is not supported on {kind.word}"
  | steppedConstant => "Cannot increment or decrement a constant"
  | assignedConstant => "Cannot assign to a constant"
  | castKind source target => s!"Unsupported cast from {source.word} to {target.word}"
  | memberKind kind => s!"Mismatching type: operator '.' is not supported on {kind.word}"
  | component kind name => s!"{kind.word} has no component '{name}'"
  | binaryKinds op left right =>
      s!"Mismatching type: operator '{op.symbol}' is not supported between "
        ++ s!"{left.word} and {right.word}"

/-- What a new name can collide with. -/
inductive Holder where
  | reservedWord
  | builtinFunction
  | builtinConstant
  | global
  | function
  | local
deriving DecidableEq, Repr

def Holder.text : Holder → String
  | reservedWord => "a reserved word"
  | builtinFunction => "a built-in function"
  | builtinConstant => "a built-in constant"
  | global => "a global variable"
  | function => "a function"
  | .local => "a variable in this block"

/-- Why a declaration is refused.  Whole lines are given by their printed form. -/
inductive DeclarationCause where
  | notIdentifier (name : String)
  | collision (name : String) (holder : Holder)
  | malformedLocal (ty : Ty)
  | malformedGlobal (line : String)
  | lateGlobal (name : String)
  | lateFunction (name : String)
  | malformedHeader
  | headerBrace (name : String)
  | parameterType (word : String)
  | parameterShape
  | directive (name : String)
  | includeShape
  | includeDepth (limit : Nat) (name : String)
  | defaultBrace
  | stateHeader
  | strayBrace
  | strayLine (line : String)
  | secondDefault
  | stateNamedDefault
  | stateBeforeDefault (name : String)
  | secondState (name : String)
  | secondEvent (event state : String)
  | emptyState (name : String)
  | notAnEvent (state line : String)
  | unknownEvent (name : String)
  | eventTypes (name : String) (expected found : List Ty)
  | noDefault
  | unknownState (name : String)
deriving DecidableEq, Repr

def DeclarationCause.text : DeclarationCause → String
  | notIdentifier name => s!"'{name}' is not a valid identifier"
  | collision name holder =>
      s!"Name collision: '{name}' is already defined as {holder.text}"
  | malformedLocal ty => s!"Malformed {ty.word} declaration"
  | malformedGlobal line => s!"Malformed global declaration '{line}'"
  | lateGlobal name => s!"Global variable '{name}' must be declared before the first state"
  | lateFunction name => s!"Function '{name}' must be declared before the first state"
  | malformedHeader => "Expected '<name> ( <parameters> ) \x7b'"
  | headerBrace name => s!"Expected '\x7b' after the header of '{name}'"
  | parameterType word => s!"Unknown parameter type '{word}'"
  | parameterShape => "Parameters must be '<type> <name>'"
  | directive name => s!"Unsupported preprocessor directive '{name}'"
  | includeShape => "Expected '#include \"name\"' or '#include <name>'"
  | includeDepth limit name => s!"Include depth limit of {limit} exceeded by '{name}'"
  | defaultBrace => "Expected '\x7b' after 'default'"
  | stateHeader => "Expected 'state <name> \x7b'"
  | strayBrace => "Unexpected '\x7d' at top level"
  | strayLine line => s!"Unexpected '{line}' at top level"
  | secondDefault => "Duplicate 'default' state"
  | stateNamedDefault =>
      "The default state is declared as 'default', not 'state default'"
  | stateBeforeDefault name => s!"State '{name}' declared before the default state"
  | secondState name => s!"Duplicate state '{name}'"
  | secondEvent event state => s!"Duplicate event '{event}' in state '{state}'"
  | emptyState name => s!"State '{name}' has no event handlers"
  | notAnEvent state line =>
      s!"Only event handlers are allowed inside state '{state}', found '{line}'"
  | unknownEvent name => s!"Unknown event '{name}'"
  | eventTypes name expected found =>
      s!"Event '{name}' expects ({Ty.listed expected}), found ({Ty.listed found})"
  | noDefault => "Script has no default state"
  | unknownState name => s!"Unknown state '{name}'"

/-- Why lines form no statement block. -/
inductive StructureCause where
  | openBlock (line : Nat)
  | openState (name : String) (line : Nat)
  | missingSemicolon (found : String)
  | noStatement
  | noBody
  | strayElse
  | strayBrace
  | headerParenthesis (keyword : String)
  | headerKeyword (word keyword : String)
  | openHeader (keyword : String)
  | functionStateChange
  | nameShape (keyword : String)
  | directive (name : String)
  | bareDeclaration
  | forParts
  | doBrace
  | doWhile
  | doSemicolon
deriving DecidableEq, Repr

def StructureCause.text : StructureCause → String
  | openBlock line =>
      s!"Unclosed block: end of input before the '\x7d' for the block opened on line {line}"
  | openState name line =>
      s!"Unclosed block: end of input inside state '{name}' opened on line {line}"
  | missingSemicolon found => s!"Expected ';' at end of statement, found '{found}'"
  | noStatement => "Expected a statement"
  | noBody => "Missing body after control statement"
  | strayElse => "'else' without a matching 'if'"
  | strayBrace => "Unexpected '\x7d'"
  | headerParenthesis keyword => s!"'{keyword}' must be followed by '('"
  | headerKeyword word keyword => s!"'{word}' is not allowed inside the '{keyword}' header"
  | openHeader keyword => s!"Unterminated '{keyword}' header"
  | functionStateChange => "State changes are only allowed inside event handlers"
  | nameShape keyword => s!"Expected '{keyword} <name>;'"
  | directive name => s!"'{name}' is only allowed at top level"
  | bareDeclaration =>
      "A declaration cannot be the body of a control statement; use braces"
  | forParts => "'for' header needs three ';'-separated parts"
  | doBrace => "'do' must be followed by a braced block"
  | doWhile => "Expected 'while' after 'do' block"
  | doSemicolon => "Expected ';' after 'do ... while (...)'"

/-- States that no script leads to. -/
inductive DefectCause where
  | noScopeToClose
  | localOutsideScope
  | unnamedMember
  | emptyGlobal
  | untypedGlobal
  | emptyHeader
deriving DecidableEq, Repr

def DefectCause.text : DefectCause → String
  | noScopeToClose => "scope stack is empty on block exit"
  | localOutsideScope => "local declared outside any scope"
  | unnamedMember => "member access without a member name"
  | emptyGlobal => "empty global declaration line"
  | untypedGlobal => "global declaration without a type"
  | emptyHeader => "empty function header"

/-- Why the text of a source could not be had. -/
inductive ReadFailure where
  | includesDisabled
  | noSource (name : String)
  | notInDirectories (name : String) (count : Nat)
  | missing
  | isDirectory
  | notDirectory
  | nameTooLong
  | forbidden
  | notText
  /-- Nobody has looked at the path yet. -/
  | unseen (path : String)
deriving DecidableEq, Repr

def ReadFailure.text : ReadFailure → String
  | includesDisabled => "includes are disabled"
  | noSource name => s!"no source named '{name}'"
  | notInDirectories name count => s!"'{name}' not found in {count} search directories"
  | missing => "No such file or directory (os error 2)"
  | isDirectory => "Is a directory (os error 21)"
  | notDirectory => "Not a directory (os error 20)"
  | nameTooLong => "File name too long (os error 36)"
  | forbidden => "Permission denied (os error 13)"
  | notText => "stream did not contain valid UTF-8"
  | unseen path => s!"'{path}' has not been looked at"

/-! ### All causes together -/

/-- A cause of any activity.  A lexical cause found in an included source names it. -/
inductive Cause where
  | lexical (cause : LexicalCause) (source : Option String)
  | syntactic (cause : SyntaxCause)
  | resolution (cause : ResolutionCause)
  | declaration (cause : DeclarationCause)
  | structural (cause : StructureCause)
  | defect (cause : DefectCause)
  | unreadable (name : String) (failure : ReadFailure)
deriving DecidableEq, Repr

def Cause.kind : Cause → FaultKind
  | lexical .. => .lexical
  | syntactic _ => .syntactic
  | resolution _ => .resolution
  | declaration _ => .declaration
  | structural _ => .structural
  | defect _ => .defect
  | unreadable .. => .io

def Cause.notice (cause : Cause) (line : Nat) : Notice :=
  match cause with
  | lexical cause none => ⟨.lexical, line, cause.text⟩
  | lexical cause (some source) => ⟨.lexical, line, s!"{cause.text} (in '{source}')"⟩
  | syntactic cause => ⟨.syntactic, line, cause.text⟩
  | resolution cause => ⟨.resolution, line, cause.text⟩
  | declaration cause => ⟨.declaration, line, cause.text⟩
  | structural cause => ⟨.structural, line, cause.text⟩
  | defect cause => .ofDefect cause.text line
  | unreadable name failure => { Notice.ofUnreadable name failure.text with line := line }

/-- A cause and the line it is laid to. -/
structure Fault where
  cause : Cause
  line : Nat
deriving DecidableEq, Repr

namespace Fault

def kind (fault : Fault) : FaultKind :=
  fault.cause.kind

def notice (fault : Fault) : Notice :=
  fault.cause.notice fault.line

theorem notice_kind (fault : Fault) : fault.notice.kind = fault.kind := by
  obtain ⟨cause, line⟩ := fault
  cases cause with
  | lexical cause source => cases source <;> rfl
  | _ => rfl

end Fault

/-- Lay the cause of a failure to a line. -/
def onLine (line : Nat) (result : Except Cause α) : Except Fault α :=
  result.mapError (Fault.mk · line)

end LslFront
