import LslFront.Block.Reader
import LslFront.Builtin.Event
import LslFront.Dialect.Directives
import LslFront.Script.Header

/-!
# Reading scripts

The lines of a script outside of all bodies are include directives, declarations of global
variables, headers of functions, and headers of states.  Functions and globals come before the
first state, which is `default`; the lines of a state are headers of event handlers.  Bodies are
read where they stand.

A function is entered before its body is read, so it can call itself, and a state only when it is
complete.  The initializers of globals are resolved at the very end, when all globals are known.
-/

namespace LslFront

/-- A state of which some handlers have been read. -/
structure OpenState where
  name : String
  line : Nat
  events : Table Handler
deriving Repr

/-- Where the next line of a script stands. -/
inductive Place where
  | topLevel
  | functionBody (name : String) (line : Nat) (body : Body)
  | inState (state : OpenState)
  | handlerBody (state : OpenState) (signature : Signature) (line : Nat) (body : Body)
deriving Repr

/-- A script under way. -/
structure Reading where
  symbols : Symbols
  place : Place
deriving Repr

namespace Reading

def refuse {α : Type} (cause : DeclarationCause) : Except Cause α :=
  .error (.declaration cause)

/-- States have been declared, so globals and functions may not follow. -/
def hasStates (symbols : Symbols) : Bool :=
  !symbols.script.states.isEmpty

/-! ### Globals -/

/-- The name and the initializer of a global variable, from what follows its type. -/
def splitGlobal? (tokens : List String) : Option (String × Option (List String)) :=
  match tokens with
  | name :: rest =>
      if rest = [";"] then some (name, none)
      else
        match rest with
        | equals :: value =>
            if equals = "=" ∧ value.getLast? = some ";" ∧ value.length > 1 then
              some (name, some value.dropLast)
            else none
        | [] => none
  | [] => none

/-- A declaration of a global variable, which begins with its type. -/
def readGlobal (symbols : Symbols) (line : Line) : Except Cause Symbols :=
  match line.tokens with
  | [] => .error (.defect .emptyGlobal)
  | word :: tokens =>
      match Ty.ofWord? word with
      | none => .error (.defect .untypedGlobal)
      | some ty =>
          match splitGlobal? tokens with
          | none => refuse (.malformedGlobal line.text)
          | some (name, value) =>
              if hasStates symbols then refuse (.lateGlobal name)
              else do
                symbols.checkNew name
                let initializer := value.map (Line.mk line.number)
                let globals :=
                  symbols.script.globals.insert name ⟨ty, line.number, initializer, none⟩
                return { symbols with script := { symbols.script with globals } }

/-! ### Bodies -/

/-- Open the scope of a body and declare its parameters there. -/
def enterBody (symbols : Symbols) (params : List Parameter) : Except Cause Symbols :=
  symbols.openScope.declareAll params

/-- The return type at the front of a line, if it gives one, and the header after it. -/
def splitReturnType : List String → Except Cause (Option Ty × List String)
  | [] => .error (.defect .emptyHeader)
  | word :: rest =>
      if word = "void" then .ok (none, rest)
      else
        match Ty.ofWord? word with
        | some ty => .ok (some ty, rest)
        | none => .ok (none, word :: rest)

def readFunction (symbols : Symbols) (line : Line) : Except Cause Reading := do
  let (returnType, header) ← splitReturnType line.tokens
  let signature ← (readSignature header).mapError .declaration
  if hasStates symbols then refuse (.lateFunction signature.name)
  else
    symbols.checkNew signature.name
    let functions :=
      symbols.script.functions.insert signature.name
        ⟨returnType, signature.params, .bare line.number, line.number⟩
    let symbols := { symbols with script := { symbols.script with functions } }
    let symbols ← enterBody symbols signature.params
    return ⟨symbols, .functionBody signature.name line.number (.opened line.number)⟩

def finishFunction (symbols : Symbols) (name : String) (body : Block) : Symbols :=
  let functions := symbols.script.functions.modify name ({ · with body })
  { symbols with script := { symbols.script with functions } }

/-! ### States -/

/-- The name of the state that a script begins in. -/
def defaultState : String := "default"

def readState (symbols : Symbols) (line : Nat) (name : String) : Except Cause Reading :=
  if name = defaultState then refuse .stateNamedDefault
  else if !symbols.script.states.contains defaultState then refuse (.stateBeforeDefault name)
  else if symbols.script.states.contains name then refuse (.secondState name)
  else .ok ⟨symbols, .inState ⟨name, line, .empty⟩⟩

def readDefault (symbols : Symbols) (line : Nat) : Except Cause Reading :=
  if symbols.script.states.contains defaultState then refuse .secondDefault
  else .ok ⟨symbols, .inState ⟨defaultState, line, .empty⟩⟩

/-- A line inside a state, which must begin an event handler. -/
def readHandler (symbols : Symbols) (state : OpenState) (line : Line) : Except Cause Reading :=
  match readSignature line.tokens with
  | .error _ => refuse (.notAnEvent state.name line.text)
  | .ok signature =>
      match Builtin.event? signature.name with
      | none => refuse (.unknownEvent signature.name)
      | some expected => do
          let found := signature.params.map Parameter.ty
          if found = expected then
            let symbols ← enterBody symbols signature.params
            return ⟨symbols, .handlerBody state signature line.number (.opened line.number)⟩
          else refuse (.eventTypes signature.name expected found)

/-- Give a state a handler, unless it has one for the event. -/
def finishHandler (state : OpenState) (signature : Signature) (line : Nat) (body : Block) :
    Except Cause OpenState :=
  if state.events.contains signature.name then
    refuse (.secondEvent signature.name state.name)
  else
    let handler : Handler := ⟨signature.params, body, line⟩
    .ok { state with events := state.events.insert signature.name handler }

/-- The `}` of a state.  It is laid to the line of its header if it has no handler. -/
def finishState (symbols : Symbols) (state : OpenState) : Except Fault Symbols :=
  if state.events.isEmpty then .error ⟨.declaration (.emptyState state.name), state.line⟩
  else
    let states := symbols.script.states.insert state.name ⟨state.line, state.events⟩
    .ok { symbols with script := { symbols.script with states } }

/-! ### Include directives -/

/-- The name that an include directive gives, between double quotes. -/
def includeName? : List String → Option String
  | [token] => do
      let name ← Text.between? '"' '"' token.toList
      if name.isEmpty then none else some (.ofList name)
  | _ => none

/-- A line that begins with a `#` token: the name to include, and whether only once. -/
def readDirective (word : String) (rest : List String) : Except Cause (String × Bool) :=
  if word = "#include" ∨ word = "#include_once" then
    match includeName? rest with
    | some name => .ok (name, word = "#include_once")
    | none => refuse .includeShape
  else refuse (.directive word)

/-! ### Lines at top level -/

/-- A declaration at top level, by the first tokens of its line. -/
def readDeclaration (symbols : Symbols) (line : Line) : Except Cause Reading :=
  match line.tokens with
  | [] => refuse (.strayLine line.text)
  | first :: rest =>
      if first = "default" then
        if rest = ["\x7b"] then readDefault symbols line.number else refuse .defaultBrace
      else if first = "state" then
        match rest with
        | [name, brace] =>
            if brace = "\x7b" then readState symbols line.number name else refuse .stateHeader
        | _ => refuse .stateHeader
      else if first = "\x7d" then refuse .strayBrace
      else
        if (Ty.ofWord? first).isSome then
          if rest[1]? = some "(" then readFunction symbols line
          else (readGlobal symbols line).map (Reading.mk · .topLevel)
        else if (first = "void" ∧ rest[1]? = some "(") ∨ rest.head? = some "(" then
          readFunction symbols line
        else refuse (.strayLine line.text)

def readTopLevel (symbols : Symbols) (line : Line) : Except Cause (Next Reading Script) :=
  match line.tokens with
  | [] => refuse (.strayLine line.text)
  | word :: rest =>
      if isDirective word then do
        let (name, once) ← readDirective word rest
        return .splice ⟨symbols, .topLevel⟩ name once
      else (readDeclaration symbols line).map .more

/-! ### The whole script -/

def step (reading : Reading) (line : Line) : Except Fault (Next Reading Script) :=
  match reading.place with
  | .topLevel => onLine line.number (readTopLevel reading.symbols line)
  | .inState state =>
      if line.tokens = ["\x7d"] then do
        let symbols ← finishState reading.symbols state
        return .more ⟨symbols, .topLevel⟩
      else (onLine line.number (readHandler reading.symbols state line)).map .more
  | .functionBody name opening body => do
      match ← body.step reading.symbols .function line with
      | .more symbols body => return .more ⟨symbols, .functionBody name opening body⟩
      | .finished symbols block =>
          let symbols ← onLine opening symbols.closeScope
          return .more ⟨finishFunction symbols name block, .topLevel⟩
  | .handlerBody state signature opening body => do
      match ← body.step reading.symbols .event line with
      | .more symbols body => return .more ⟨symbols, .handlerBody state signature opening body⟩
      | .finished symbols block =>
          let symbols ← onLine opening symbols.closeScope
          let state ← onLine opening (finishHandler state signature opening block)
          return .more ⟨symbols, .inState state⟩

/-- The first state change to a state that the script does not have. -/
def checkTargets (script : Script) : Except Fault Unit :=
  let handlers := script.states.values.flatMap fun state => state.events.values
  let changes := handlers.flatMap fun handler => handler.body.stateChanges
  match changes.find? fun (target, _) => !script.states.contains target with
  | some (target, line) => .error ⟨.declaration (.unknownState target), line⟩
  | none => .ok ()

/-- Resolve the initializers of globals, in order. -/
def resolveGlobals (scope : Scope) :
    List (String × Global) → Except Fault (List (String × Global))
  | [] => .ok []
  | (name, global) :: rest => do
      let value ←
        match global.initializer with
        | none => pure global.value
        | some line => (onLine line.number (resolveTokens scope line.tokens)).map some
      let rest ← resolveGlobals scope rest
      return (name, { global with value }) :: rest

/-- The source ends at top level. -/
def finish (symbols : Symbols) (lastLine : Nat) : Except Fault Script := do
  let script := symbols.script
  if script.states.contains defaultState then
    checkTargets script
    let globals ← resolveGlobals symbols.scope script.globals.entries
    return { script with globals := ⟨globals⟩ }
  else .error ⟨.declaration .noDefault, lastLine⟩

/-- The source ends.  The number is that of the last line. -/
def atEnd (reading : Reading) (lastLine : Nat) : Except Fault Script :=
  match reading.place with
  | .topLevel => finish reading.symbols lastLine
  | .inState state => .error ⟨.structural (.openState state.name state.line), lastLine⟩
  | .functionBody _ _ body => .error (body.atEnd lastLine)
  | .handlerBody _ _ _ body => .error (body.atEnd lastLine)

def machine : Machine Reading Script :=
  ⟨step, atEnd⟩

end Reading

/-! ### Compiling -/

structure Options where
  /-- What a script sees that names no mode. -/
  baseline : Dialect
  /-- How many sources may be included into each other. -/
  includeLimit : Nat
deriving DecidableEq, Repr

def Options.standard : Options :=
  ⟨.standard, 8⟩

def compile (source : String) (options : Options) (loader : Loader) : Except Fault Script := do
  let dialect := (Directives.ofSource source).accepted options.baseline
  let (script, after) ←
    (Source.ofText source options.includeLimit).run Reading.machine loader
      ⟨.ofDialect dialect, .topLevel⟩
  return { script with includes := after.included }

end LslFront
