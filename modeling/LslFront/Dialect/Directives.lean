import LslFront.Dialect

/-!
# Directives

A script chooses its dialect in the block of `//` comments and blank lines that it begins with.
A line `//#!Mode:name` names a mode and a line `//#!Enable:name` an extension; key and name may
be in any letter case and have blanks around them.  What is not understood is passed over, and
the first line of any other kind ends the block.

Several modes are joined, and so are several extensions, so the order of the lines does not
matter.
-/

namespace LslFront

inductive Directive where
  | mode (dialect : Dialect)
  | enable (dialect : Dialect)
deriving DecidableEq, Repr

namespace Directive

/-- The directive written on a line without blanks around it. -/
def ofLine? (line : List Char) : Option Directive := do
  let body ← "//#!".toList.isPrefixOf? line
  let (key, value) ← Text.splitFirst? ':' body
  match String.ofList (Text.lower (Text.trim key)) with
  | "mode" => (Dialect.ofMode? value).map mode
  | "enable" => (Dialect.ofExtension? value).map enable
  | _ => none

def mode? : Directive → Option Dialect
  | mode dialect => some dialect
  | enable _ => none

def enabled? : Directive → Option Dialect
  | mode _ => none
  | enable dialect => some dialect

end Directive

/-- May the line, without its blanks, stand in the leading block? -/
def isLeadingLine (line : List Char) : Bool :=
  line.isEmpty || "//".toList.isPrefixOf line

/-- The lines that a script begins with, up to the first that is neither blank nor a comment. -/
def leadingLines (source : String) : List (List Char) :=
  ((source.toList.splitOn '\n').map Text.trim).takeWhile isLeadingLine

structure Directives where
  /-- All modes that are named together, if any is. -/
  mode : Option Dialect
  enabled : Dialect
deriving DecidableEq, Repr

namespace Directives

def ofList (directives : List Directive) : Directives where
  mode :=
    match directives.filterMap Directive.mode? with
    | [] => none
    | modes => some (Dialect.unions modes)
  enabled := Dialect.unions (directives.filterMap Directive.enabled?)

/-- The directives of a script. -/
def ofSource (source : String) : Directives :=
  ofList ((leadingLines source).filterMap Directive.ofLine?)

/-- The dialect in force, given the one for scripts that name no mode. -/
def accepted (directives : Directives) (baseline : Dialect) : Dialect :=
  (directives.mode.getD baseline).union directives.enabled

end Directives

end LslFront
