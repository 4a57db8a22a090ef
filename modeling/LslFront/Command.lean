import LslFront.Files
import LslFront.Script.Json
import LslFront.Settings

/-!
# Commands

What the program does for its arguments: print the logical lines of a script, check scripts, or
print a script that has been read.  A command is a function of the arguments, the environment and
a view of the files; its report holds all that is printed and the exit code.

Several scripts may be checked at the same time.  Each outcome is known by the number of its
script, and the report puts the outcomes in the order of the arguments, whatever order they come
in.
-/

namespace LslFront

/-- What a run prints and how it ends.  Both texts consist of whole lines. -/
structure Report where
  code : Nat
  out : String
  /-- What goes to the error output. -/
  err : String
deriving DecidableEq, Repr

namespace Report

def success (out : String) : Report :=
  ⟨0, out, ""⟩

/-- A run that printed nothing but an error. -/
def failure (text : String) : Report :=
  ⟨1, "", s!"error: {text}\n"⟩

def usage : String :=
  "usage: lslc [--config-dir DIR] tokens FILE | check FILE... | dump FILE [--compact]"

def misuse : Report :=
  ⟨2, "", usage ++ "\n"⟩

end Report

/-! ### Arguments -/

inductive Verb where
  | tokens (file : String)
  | check (files : List String)
  | dump (file : String) (compact : Bool)
deriving DecidableEq, Repr

/-- The arguments, sorted into options and the rest.  How much is logged, and in which form, is
    accepted and has no effect on what is printed. -/
structure Arguments where
  configDir : Option String := none
  compact : Bool := false
  /-- The words that are no options, in order. -/
  words : List String := []
deriving DecidableEq, Repr

namespace Arguments

/-- What an option `--name=value` gives for a name. -/
def valueOf? (name arg : String) : Option String :=
  (s!"{name}=".toList.isPrefixOf? arg.toList).map .ofList

/-- A word of short options, each of which is about logging. -/
def isLoggingWord (arg : String) : Bool :=
  match arg.toList with
  | '-' :: c :: rest => (c :: rest).all fun c => c == 'v' || c == 'q'
  | _ => false

def logFormats : List String := ["pretty", "json"]

/-- Sort the arguments; after `--` every word is taken as it is. -/
def parse? (found : Arguments) : List String → Option Arguments
  | [] => some found
  | [arg] =>
      if arg = "--" then some found
      else if arg = "--config-dir" ∨ arg = "--log-format" then none
      else single? found arg
  | arg :: next :: rest =>
      if arg = "--" then some { found with words := found.words ++ next :: rest }
      else if arg = "--config-dir" then parse? { found with configDir := some next } rest
      else if arg = "--log-format" then
        if logFormats.contains next then parse? found rest else none
      else (single? found arg).bind fun found => parse? found (next :: rest)
where
  /-- An argument that stands for itself. -/
  single? (found : Arguments) (arg : String) : Option Arguments :=
    if isLoggingWord arg ∨ arg = "--verbose" ∨ arg = "--quiet" then some found
    else if arg = "--compact" then
      if found.words.isEmpty then none else some { found with compact := true }
    else
      match valueOf? "--config-dir" arg, valueOf? "--log-format" arg with
      | some dir, _ => some { found with configDir := some dir }
      | none, some format => if logFormats.contains format then some found else none
      | none, none =>
          if arg.toList.head? = some '-' ∧ arg ≠ "-" then none
          else some { found with words := found.words ++ [arg] }

/-- What the words ask for.  An empty word is no file. -/
def verb? (arguments : Arguments) : Option Verb :=
  if arguments.words.contains "" ∨ arguments.configDir = some "" then none
  else
    match arguments.words with
    | ["tokens", file] => if arguments.compact then none else some (.tokens file)
    | "check" :: file :: files => if arguments.compact then none else some (.check (file :: files))
    | ["dump", file] => some (.dump file arguments.compact)
    | _ => none

end Arguments

/-! ### Settings of a run -/

def environmentValue? (environment : List (String × String)) (name : String) : Option String :=
  (environment.lookup name).filter (!·.isEmpty)

/-- Where the settings are looked for if no directory is given. -/
def defaultConfigDir (environment : List (String × String)) : String :=
  match environmentValue? environment "XDG_CONFIG_HOME" with
  | some config => joinPath config "lslc"
  | none =>
      match environmentValue? environment "HOME" with
      | some home => joinPath (joinPath home ".config") "lslc"
      | none => "."

def settingsFile : String := "lslc.json"

/-- The settings in a directory; the standard ones if it has no settings file. -/
def loadSettings (view : FileView) (directory : String) : Except SettingsFault Settings :=
  let path := joinPath directory settingsFile
  match view path with
  | .error (.unseen path) => .error (.unreadable (.unseen path))
  | .error _ => .ok .standard
  | .ok _ =>
      match view.read path with
      | .ok text => Settings.ofText text
      | .error failure => .error (.unreadable failure)

/-! ### Reading files -/

def compileFile (view : FileView) (options : Options) (includeDirs : List String)
    (file : String) : Except Fault Script :=
  match view.read file with
  | .error failure => .error ⟨.unreadable file failure, 0⟩
  | .ok source =>
      compile source options (.ofDirectories view (searchDirectories file includeDirs))

/-- The path that a compilation would have had to look at. -/
def unseenPath? : Except Fault Script → Option String
  | .error ⟨.unreadable _ (.unseen path), _⟩ => some path
  | _ => none

/-! ### Checking -/

def outcomeLine (file : String) : Except Fault Script → String
  | .ok script =>
      s!"{file}: ok ({script.globals.size} globals, {script.functions.size} functions, "
        ++ s!"{script.states.size} states)"
  | .error fault => fault.notice.inFile file

def isFailure (outcome : Except Fault Script) : Bool :=
  !outcome.isOk

/-- The report of a check.  Outcomes come with the numbers of their scripts, in any order. -/
def checkReport (files : List String) (finished : List (Nat × Except Fault Script)) : Report :=
  let ordered := finished.mergeSort fun a b => a.1 ≤ b.1
  let outcomes := files.zip (ordered.map (·.2))
  let out := String.join (outcomes.map fun (file, outcome) => outcomeLine file outcome ++ "\n")
  let failed := (outcomes.filter fun (_, outcome) => isFailure outcome).length
  if failed = 0 then .success out
  else ⟨1, out, s!"{failed} of {files.length} scripts failed\n"⟩

/-! ### Running -/

/-- A number in a field of five characters, flushed right. -/
def padNumber (n : Nat) : String :=
  let digits := toString n
  .ofList (List.replicate (5 - digits.length) ' ') ++ digits

def runTokens (view : FileView) (file : String) : Except String Report :=
  match view.read file with
  | .error (.unseen path) => .error path
  | .error failure => .ok (.failure (Notice.ofUnreadable file failure.text).display)
  | .ok source =>
      match tokenize source with
      | .error fault => .ok (.failure (fault.notice.inFile file))
      | .ok lines =>
          let rows := lines.map fun line => s!"{padNumber line.number}  {line.text}\n"
          .ok (.success (String.join rows))

/-- Check files one after the other. -/
def runCheck (view : FileView) (options : Options) (includeDirs files : List String) :
    Except String Report :=
  let outcomes := files.map (compileFile view options includeDirs)
  match outcomes.findSome? unseenPath? with
  | some path => .error path
  | none => .ok (checkReport files ((List.range files.length).zip outcomes))

def runDump (view : FileView) (options : Options) (includeDirs : List String) (file : String)
    (compact : Bool) : Except String Report :=
  let outcome := compileFile view options includeDirs file
  match unseenPath? outcome, outcome with
  | some path, _ => .error path
  | none, .error fault => .ok (.failure (fault.notice.inFile file))
  | none, .ok script =>
      let json := script.toJson
      .ok (.success ((if compact then json.compact else json.pretty) ++ "\n"))

/-- Run a command with the settings of the run; the first path that must be looked at before it
    can be run, if there is one. -/
def runWithSettings (view : FileView) (directory : String)
    (run : Options → List String → Except String Report) : Except String Report :=
  match loadSettings view directory with
  | .error (.unreadable (.unseen path)) => .error path
  | .error fault => .ok (.failure fault.text)
  | .ok settings =>
      match settings.options with
      | .error fault => .ok (.failure fault.text)
      | .ok options => run options settings.includeDirs

/-- What the program does, or a path that the view has to be asked about first. -/
def run (view : FileView) (environment : List (String × String)) (args : List String) :
    Except String Report :=
  match Arguments.parse? {} args with
  | none => .ok .misuse
  | some arguments =>
      let directory := arguments.configDir.getD (defaultConfigDir environment)
      match arguments.verb? with
      | none => .ok .misuse
      | some (.tokens file) => runTokens view file
      | some (.check files) =>
          runWithSettings view directory fun options dirs => runCheck view options dirs files
      | some (.dump file compact) =>
          runWithSettings view directory fun options dirs =>
            runDump view options dirs file compact

end LslFront
