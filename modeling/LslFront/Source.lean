import LslFront.Line.Lexer

/-!
# Sources with includes

The lines of a main source, with each included source spliced in where it is asked for.  Open
sources form a stack; when the innermost has no line left it is dropped and the one below goes
on.  No more than `limit` sources may be included into each other, which is part of the type.

The names of included sources are remembered in the order in which they were first included.
-/

namespace LslFront

/-- The text of a source by its name, or why it cannot be had. -/
abbrev Loader := String → Except ReadFailure String

def Loader.none : Loader :=
  fun _ => .error .includesDisabled

def Loader.ofList (sources : List (String × String)) : Loader :=
  fun name =>
    match sources.lookup name with
    | some text => .ok text
    | .none => .error (.noSource name)

/-! ### The stack of open sources -/

/-- The next line of a stack of sources, innermost first, and the stack after it.  Sources without
    lines are dropped, all but the last. -/
def pullLine (top : Lexer) :
    List Lexer → Except Fault (Option Line) × Lexer × List Lexer
  | [] =>
      let (result, top) := top.nextLine
      (result, top, [])
  | below :: rest =>
      match top.nextLine with
      | (.ok none, _) => pullLine below rest
      | (result, top) => (result, top, below :: rest)

theorem pullLine_length_le (top : Lexer) (below : List Lexer) :
    (pullLine top below).2.2.length ≤ below.length := by
  induction below generalizing top with
  | nil => simp [pullLine]
  | cons next rest ih =>
      rw [pullLine]
      split
      · exact Nat.le_succ_of_le (ih next)
      · simp

/-- The main source with the sources included into it. -/
structure Source (limit : Nat) where
  /-- The innermost open source. -/
  top : Lexer
  /-- The sources that wait for it, innermost first. -/
  below : List Lexer
  /-- The names that have been included. -/
  included : List String
  /-- The number of the line handed out last. -/
  lastLine : Nat
  shallow : below.length ≤ limit

namespace Source

variable {limit : Nat}

def ofText (text : String) (limit : Nat) : Source limit :=
  ⟨.ofText text none, [], [], 1, Nat.zero_le _⟩

def depth (source : Source limit) : Nat :=
  source.below.length + 1

/-- The next line, or `none` at the end of the main source, and the place after it. -/
def nextLine (source : Source limit) : Except Fault (Option Line) × Source limit :=
  let pulled := pullLine source.top source.below
  let after : Source limit :=
    { source with
      top := pulled.2.1
      below := pulled.2.2
      shallow := Nat.le_trans (pullLine_length_le _ _) source.shallow }
  match pulled.1 with
  | .ok (some line) => (.ok (some line), { after with lastLine := line.number })
  | result => (result, after)

/-- Open the named source at this place.  `once` asks for a source only if it has not been
    included before; the answer says whether it was opened. -/
def splice (source : Source limit) (loader : Loader) (name : String) (once : Bool) :
    Except Cause (Bool × Source limit) :=
  if once && source.included.contains name then .ok (false, source)
  else if room : source.below.length < limit then
    match loader name with
    | .error failure => .error (.unreadable name failure)
    | .ok text =>
        .ok (true,
          { source with
            top := .ofText text name
            below := source.top :: source.below
            included :=
              if source.included.contains name then source.included
              else source.included ++ [name]
            shallow := room })
  else .error (.declaration (.includeDepth limit name))

end Source

end LslFront
