import LslFront.Fault
import LslFront.Line
import LslFront.Token.Split

/-!
# Reading logical lines

The lexer is a machine that takes a source character by character.  A `Scan` is its state inside
one logical line: what has been gathered of the line, what kind of text it is in, the number of
the current source line, and how many round parentheses are open.  `Scan.step` takes one
character and says whether the line goes on, is complete, or cannot be continued.

Outside comments and literals a line is complete at `;` when no parenthesis is open, at `{` and
at `}`, and, when its first token begins with `#`, at a line feed that no `\` token precedes.  The
count of open parentheses is kept from line to line.

A `Lexer` is a place in a source.  It moves past the characters of each line it hands out, so
reading all lines ends.
-/

namespace LslFront

/-! ### A line under way -/

/-- What has been gathered of a logical line: complete tokens, and a raw word not yet split. -/
structure Draft where
  tokens : List String
  word : String
  first : Option Nat
deriving DecidableEq, Repr

namespace Draft

def empty : Draft := ⟨[], "", none⟩

/-- The line begins where its first character stands. -/
def mark (draft : Draft) (line : Nat) : Draft :=
  { draft with first := draft.first <|> some line }

def push (draft : Draft) (c : Char) (line : Nat) : Draft :=
  { draft.mark line with word := draft.word.push c }

def flush (draft : Draft) : Draft :=
  { draft with tokens := draft.tokens ++ splitWord draft.word, word := "" }

def emit (draft : Draft) (token : String) (line : Nat) : Draft :=
  let draft := (draft.flush).mark line
  { draft with tokens := draft.tokens ++ [token] }

/-- The line begins with a `#` token. -/
def isPreprocessor (draft : Draft) : Bool :=
  draft.tokens.head?.any isDirective

/-- The line is an include directive, whose word may still be unsplit. -/
def isInclude (draft : Draft) : Bool :=
  let first := draft.tokens.head?.getD draft.word
  first == "#include" || first == "#include_once"

def line? (draft : Draft) : Option Line :=
  match draft.first, draft.tokens with
  | some number, _ :: _ => some ⟨number, draft.tokens⟩
  | _, _ => none

end Draft

/-! ### The machine -/

/-- The kind of text that the next character belongs to. -/
inductive ScanMode where
  | code
  /-- After a `/` that may begin a comment. -/
  | slash
  | lineComment
  | blockComment
  /-- In a block comment, after a `*` that may end it. -/
  | blockStar
  | literal (quote : Char) (start : Nat) (text : String)
  /-- In a literal, after the backslash that protects the next character. -/
  | escape (quote : Char) (start : Nat) (text : String)
  | includeName (start : Nat) (name : String)
deriving DecidableEq, Repr

/-- The state inside one logical line. -/
structure Scan where
  mode : ScanMode
  draft : Draft
  line : Nat
  depth : Nat
deriving DecidableEq, Repr

/-- What one character makes of the line under way. -/
inductive ScanStep where
  /-- The character is taken and the line goes on. -/
  | more (next : Scan)
  /-- The character is taken and completes the line. -/
  | done (last : Scan)
  /-- The character is not taken. -/
  | refused (cause : LexicalCause)

namespace Scan

def lineAfter (scan : Scan) (c : Char) : Nat :=
  if c = '\n' then scan.line + 1 else scan.line

def emitChar (scan : Scan) (c : Char) : Scan :=
  { scan with draft := scan.draft.emit (String.singleton c) scan.line }

/-- A line feed ends a word; it ends a preprocessor line unless a backslash token stands before
    it, which is dropped. -/
def lineFeed (scan : Scan) : ScanStep :=
  let draft := scan.draft.flush
  let next : Scan := { scan with mode := .code, line := scan.line + 1 }
  if draft.isPreprocessor then
    if draft.tokens.getLast? = some "\\" then
      .more { next with draft := { draft with tokens := draft.tokens.dropLast } }
    else .done { next with draft }
  else .more { next with draft }

def codeStep (scan : Scan) (c : Char) : ScanStep :=
  match c with
  | ' ' | '\t' | '\r' => .more { scan with draft := scan.draft.flush }
  | '\n' => scan.lineFeed
  | '/' => .more { scan with mode := .slash }
  | '"' | '\'' => .more { scan with mode := .literal c scan.line (String.singleton c) }
  | ';' => if scan.depth = 0 then .done (scan.emitChar c) else .more (scan.emitChar c)
  | '\x7b' | '\x7d' => .done (scan.emitChar c)
  | '(' => .more { scan.emitChar c with depth := scan.depth + 1 }
  | ')' =>
      if scan.depth = 0 then .refused .unmatchedClose
      else .more { scan.emitChar c with depth := scan.depth - 1 }
  | '@' | ',' | '~' | '?' | '\\' | '[' | ']' => .more (scan.emitChar c)
  | _ =>
      if c = '<' && scan.draft.isInclude then .more { scan with mode := .includeName scan.line "" }
      else .more { scan with draft := scan.draft.push c scan.line }

/-- The slash before the current character was no comment after all. -/
def keepSlash (scan : Scan) : Scan :=
  { scan with mode := .code, draft := scan.draft.push '/' scan.line }

def step (scan : Scan) (c : Char) : ScanStep :=
  match scan.mode with
  | .code => scan.codeStep c
  | .slash =>
      match c with
      | '/' => .more { scan with mode := .lineComment, draft := scan.draft.flush }
      | '*' => .more { scan with mode := .blockComment, draft := scan.draft.flush }
      | _ => scan.keepSlash.codeStep c
  | .lineComment => if c = '\n' then scan.lineFeed else .more scan
  | .blockComment =>
      .more { scan with mode := if c = '*' then .blockStar else .blockComment,
                        line := scan.lineAfter c }
  | .blockStar =>
      match c with
      | '/' => .more { scan with mode := .code }
      | '*' => .more scan
      | _ => .more { scan with mode := .blockComment, line := scan.lineAfter c }
  | .literal quote start text =>
      let text := text.push c
      if c = quote then .more { scan with mode := .code, draft := scan.draft.emit text start }
      else
        .more { scan with mode := if c = '\\' then .escape quote start text
                                  else .literal quote start text,
                          line := scan.lineAfter c }
  | .escape quote start text =>
      .more { scan with mode := .literal quote start (text.push c), line := scan.lineAfter c }
  | .includeName start name =>
      match c with
      | '>' => .more { scan with mode := .code, draft := scan.draft.emit s!"\"{name}\"" start }
      | '\n' => .refused .openIncludeName
      | _ => .more { scan with mode := .includeName start (name.push c) }

/-- The line that the end of the source completes. -/
def atEnd (scan : Scan) : Except LexicalCause (Option Line) :=
  match scan.mode with
  | .blockComment | .blockStar => .error .openComment
  | .literal .. | .escape .. => .error .openLiteral
  | .includeName .. => .error .openIncludeName
  | .slash =>
      if scan.depth = 0 then .ok (scan.keepSlash.draft.flush.line?) else .error .openParenthesis
  | .code | .lineComment =>
      if scan.depth = 0 then .ok (scan.draft.flush.line?) else .error .openParenthesis

/-- Where the reading of one line ended: its result, and the place and counts after it. -/
structure Outcome where
  result : Except LexicalCause (Option Line)
  rest : List Char
  line : Nat
  depth : Nat

/-- Run the machine to the end of the logical line.  A line that the last character of the source
    completes still answers for parentheses left open. -/
def run (scan : Scan) : List Char → Outcome
  | [] => ⟨scan.atEnd, [], scan.line, scan.depth⟩
  | c :: rest =>
      match scan.step c with
      | .more next => next.run rest
      | .done last =>
          if rest.isEmpty && last.depth != 0 then
            ⟨.error .openParenthesis, rest, last.line, last.depth⟩
          else ⟨.ok (last.draft.line?), rest, last.line, last.depth⟩
      | .refused cause => ⟨.error cause, c :: rest, scan.line, scan.depth⟩

theorem run_rest_le (scan : Scan) (source : List Char) :
    (scan.run source).rest.length ≤ source.length := by
  induction source generalizing scan with
  | nil => simp [run]
  | cons c rest ih =>
      rw [run]
      split
      · exact Nat.le_succ_of_le (ih _)
      · split <;> simp
      · simp

/-- A line that comes out of a run has cost at least one character, unless the machine was
    already holding something of it. -/
theorem run_rest_lt {scan : Scan} {source : List Char} {line : Line}
    (idle : scan.atEnd ≠ .ok (some line))
    (h : (scan.run source).result = .ok (some line)) :
    (scan.run source).rest.length < source.length := by
  cases source with
  | nil => exact absurd h idle
  | cons c rest =>
      rw [run] at h ⊢
      split at h
      · exact Nat.lt_succ_of_le (run_rest_le _ _)
      · split <;> simp
      · simp at h

end Scan

/-! ### Places in a source -/

/-- A place in a source: the characters to come, the number of the current source line and the
    count of open parentheses.  `failed` remembers that an error has been reported, and `name`
    is what an included source was asked for by. -/
structure Lexer where
  rest : List Char
  line : Nat
  depth : Nat
  failed : Bool
  name : Option String
deriving DecidableEq, Repr

namespace Lexer

def ofText (source : String) (name : Option String) : Lexer :=
  ⟨source.toList, 1, 0, false, name⟩

def fresh (lexer : Lexer) : Scan :=
  ⟨.code, .empty, lexer.line, lexer.depth⟩

/-- The logical line that begins here, or `none` at the end of the source, and the place after
    it. -/
def nextLine (lexer : Lexer) : Except Fault (Option Line) × Lexer :=
  let outcome := lexer.fresh.run lexer.rest
  let after := { lexer with rest := outcome.rest, line := outcome.line, depth := outcome.depth }
  match outcome.result with
  | .ok line => (.ok line, after)
  | .error cause =>
      (.error ⟨.lexical cause lexer.name, outcome.line⟩, { after with failed := true })

/-- The next line as an iterator gives it: nothing more once an error has been reported. -/
def next (lexer : Lexer) : Except Fault (Option Line) × Lexer :=
  if lexer.failed then (.ok none, lexer) else lexer.nextLine

theorem nextLine_rest_lt {lexer after : Lexer} {line : Line}
    (h : lexer.nextLine = (.ok (some line), after)) :
    after.rest.length < lexer.rest.length := by
  simp only [nextLine] at h
  split at h
  · rename_i found ok
    obtain ⟨rfl, rfl⟩ : found = some line ∧ _ = after := by simpa using h
    refine @Scan.run_rest_lt _ _ line ?_ ok
    simp only [fresh, Scan.atEnd, Draft.empty, Draft.flush, Draft.line?]
    by_cases depth : lexer.depth = 0 <;> simp [depth]
  · simp at h

/-- All lines from here on, up to the end of the source. -/
def lines (lexer : Lexer) : Except Fault (List Line) :=
  match h : lexer.nextLine with
  | (.error fault, _) => .error fault
  | (.ok none, _) => .ok []
  | (.ok (some line), after) =>
      have := nextLine_rest_lt h
      after.lines.map (line :: ·)
termination_by lexer.rest.length

end Lexer

def tokenize (source : String) : Except Fault (List Line) :=
  (Lexer.ofText source none).lines

end LslFront
