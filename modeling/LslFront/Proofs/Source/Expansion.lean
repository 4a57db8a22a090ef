import LslFront.Proofs.Source.Runs
import LslFront.Script.Reader

/-!
# Includes as expansion

Include directives have a meaning that knows nothing of a stack of open sources: the lines of a text
are taken by themselves, and the lines of an included text, expanded in the same way, stand in the
place of the directive.  Only the names that have been included and the number of the line read
last are handed on from one text to the next.

A source is a stack of texts that are read in part.  What it is still to hand out is the expansion
of the rest of the innermost text and then of the rests of the texts that wait for it, and neither
taking a line nor opening a source changes that.
-/

namespace LslFront

/-! ### Include lines -/

/-- The name that a line asks to include, and whether only once. -/
def Line.include? (line : Line) : Option (String × Bool) :=
  match line.tokens with
  | [] => none
  | word :: rest =>
      if isDirective word then (Reading.readDirective word rest).toOption else none

/-- At top level the lines that are not passed on are those that ask for an include. -/
theorem Reading.readTopLevel_eq_splice_iff {symbols : Symbols} {line : Line} {reading : Reading}
    {name : String} {once : Bool} :
    readTopLevel symbols line = .ok (.splice reading name once) ↔
      reading = ⟨symbols, .topLevel⟩ ∧ line.include? = some (name, once) := by
  cases htokens : line.tokens with
  | nil => simp [readTopLevel, Line.include?, htokens, refuse]
  | cons word rest =>
      simp only [readTopLevel, Line.include?, htokens]
      split
      · cases readDirective word rest with
        | error cause => simp [Except.toOption, bind, Except.bind]
        | ok found =>
            simp [Except.toOption, bind, Except.bind, pure, Except.pure, Prod.ext_iff, eq_comm]
      · cases readDeclaration symbols line <;> simp [Except.map]

/-! ### Texts by themselves -/

/-- Lines one after the other, and how they end. -/
structure Given where
  lines : List Line
  ending : Except Fault Unit

def Lexer.given (lexer : Lexer) : Given :=
  match taken : lexer.nextLine with
  | (.error fault, _) => ⟨[], .error fault⟩
  | (.ok none, _) => ⟨[], .ok ()⟩
  | (.ok (some line), after) =>
      have := nextLine_rest_lt taken
      let others := after.given
      ⟨line :: others.lines, others.ending⟩
termination_by lexer.rest.length

/-- The fault of a text that is included under this name. -/
def Fault.inSource (name : String) (fault : Fault) : Fault :=
  match fault.cause with
  | .lexical cause _ => ⟨.lexical cause name, fault.line⟩
  | _ => fault

/-- An error in an included text says where it stands. -/
theorem Fault.notice_inSource (name : String) (cause : LexicalCause) (line : Nat) :
    (inSource name ⟨.lexical cause none, line⟩).notice
      = { notice ⟨.lexical cause none, line⟩ with text := s!"{cause.text} (in '{name}')" } :=
  rfl

namespace Lexer

variable {lexer after : Lexer} {line : Line} {fault : Fault}

theorem given_of_error (h : lexer.nextLine = (.error fault, after)) :
    lexer.given = ⟨[], .error fault⟩ := by
  rw [given]
  split <;> simp_all

theorem given_of_none (h : lexer.nextLine = (.ok none, after)) : lexer.given = ⟨[], .ok ()⟩ := by
  rw [given]
  split <;> simp_all

theorem given_of_some (h : lexer.nextLine = (.ok (some line), after)) :
    lexer.given = ⟨line :: after.given.lines, after.given.ending⟩ := by
  rw [given]
  split <;> simp_all

theorem lines_eq_given (lexer : Lexer) :
    lexer.lines = lexer.given.ending.map fun _ => lexer.given.lines := by
  fun_induction Lexer.lines lexer with
  | case1 lexer fault after hline =>
      rw [given_of_error hline]
      rfl
  | case2 lexer after hline =>
      rw [given_of_none hline]
      rfl
  | case3 lexer line after hline _ ih =>
      rw [given_of_some hline, ih]
      cases after.given.ending <;> rfl

/-- The name of a text is only told by its faults. -/
theorem nextLine_named {result : Except Fault (Option Line)} (name : String)
    (h : lexer.nextLine = (result, after)) :
    nextLine { lexer with name := some name }
      = (result.mapError (Fault.inSource name), { after with name := some name }) := by
  have hfresh : fresh { lexer with name := some name } = lexer.fresh := rfl
  simp only [nextLine] at h
  simp only [nextLine, hfresh]
  split at h
  · obtain ⟨rfl, rfl⟩ := Prod.mk.inj h
    rfl
  · obtain ⟨rfl, rfl⟩ := Prod.mk.inj h
    rfl

theorem given_named (lexer : Lexer) (name : String) :
    given { lexer with name := some name }
      = ⟨lexer.given.lines, lexer.given.ending.mapError (Fault.inSource name)⟩ := by
  fun_induction Lexer.given lexer with
  | case1 lexer fault after hline => exact given_of_error (nextLine_named name hline)
  | case2 lexer after hline => exact given_of_none (nextLine_named name hline)
  | case3 lexer line after hline _ others ih =>
      rw [given_of_some (nextLine_named name hline), ih]

end Lexer

/-! ### Expansion -/

/-- Lines one after the other, the names that have been included by then, and how the lines end:
    with the number of the line that was read last, or with a fault. -/
structure Expansion where
  lines : List Line
  included : List String
  ending : Except Fault Nat

namespace Expansion

def cons (line : Line) (expansion : Expansion) : Expansion :=
  { expansion with lines := line :: expansion.lines }

/-- What follows is expanded with what is known after the first part, unless that ends in a
    fault. -/
def andThen (first : Expansion) (next : List String → Nat → Expansion) : Expansion :=
  match first.ending with
  | .error _ => first
  | .ok lastLine =>
      let rest := next first.included lastLine
      { rest with lines := first.lines ++ rest.lines }

end Expansion

/-- The lines of a text with so many texts around it, from some line on.  The text ends as
    `ending` says. -/
def expandLines (loader : Loader) (limit depth : Nat) (ending : Except Fault Unit) :
    List Line → List String → Nat → Expansion
  | [], included, lastLine => ⟨[], included, ending.map fun _ => lastLine⟩
  | line :: lines, included, _ =>
      match line.include? with
      | none => (expandLines loader limit depth ending lines included line.number).cons line
      | some (name, once) =>
          if once && included.contains name then
            expandLines loader limit depth ending lines included line.number
          else if depth < limit then
            match loader name with
            | .error failure => ⟨[], included, .error ⟨.unreadable name failure, line.number⟩⟩
            | .ok text =>
                let own := (Lexer.ofText text none).given
                let included :=
                  if included.contains name then included else included ++ [name]
                (expandLines loader limit (depth + 1) (own.ending.mapError (Fault.inSource name))
                  own.lines included line.number).andThen
                    fun included lastLine =>
                      expandLines loader limit depth ending lines included lastLine
          else ⟨[], included, .error ⟨.declaration (.includeDepth limit name), line.number⟩⟩
termination_by lines => (limit - depth, lines.length)

def expand (loader : Loader) (limit : Nat) (text : String) : Expansion :=
  let own := (Lexer.ofText text none).given
  expandLines loader limit 0 own.ending own.lines [] 1

/-! ### What a source hands out -/

/-- Take the lines of a source, open each source that a line asks for, and pass the other lines
    on. -/
def Source.handedOut {limit : Nat} (loader : Loader) (source : Source limit) : Expansion :=
  match taken : source.nextLine with
  | (.error fault, after) => ⟨[], after.included, .error fault⟩
  | (.ok none, after) => ⟨[], after.included, .ok after.lastLine⟩
  | (.ok (some line), after) =>
      match line.include? with
      | none =>
          have := nextLine_rank_lt taken
          (after.handedOut loader).cons line
      | some (name, once) =>
          match spliced : after.splice loader name once with
          | .error cause => ⟨[], after.included, .error ⟨cause, line.number⟩⟩
          | .ok (_, opened) =>
              have := splice_rank_lt taken spliced
              opened.handedOut loader
termination_by source.rank
decreasing_by all_goals assumption

/-! ### The stack of open sources -/

namespace Expansion

theorem cons_andThen (line : Line) (first : Expansion) (next : List String → Nat → Expansion) :
    (first.cons line).andThen next = (first.andThen next).cons line := by
  obtain ⟨lines, included, ending⟩ := first
  cases ending <;> rfl

theorem andThen_assoc (first : Expansion) (second third : List String → Nat → Expansion) :
    (first.andThen second).andThen third
      = first.andThen fun included lastLine => (second included lastLine).andThen third := by
  obtain ⟨lines, included, ending⟩ := first
  cases ending with
  | error fault => rfl
  | ok lastLine =>
      simp only [andThen]
      generalize second included lastLine = middle
      obtain ⟨more, included, ending⟩ := middle
      cases ending with
      | error fault => rfl
      | ok lastLine => simp

/-- Nothing follows. -/
theorem andThen_end (first : Expansion) :
    (first.andThen fun included lastLine => ⟨[], included, .ok lastLine⟩) = first := by
  obtain ⟨lines, included, ending⟩ := first
  cases ending with
  | error fault => rfl
  | ok lastLine => simp [andThen]

end Expansion

/-- What the texts of a stack expand to, innermost first, from the places where they stand. -/
def expandStack (loader : Loader) (limit : Nat) : List Lexer → List String → Nat → Expansion
  | [], included, lastLine => ⟨[], included, .ok lastLine⟩
  | lexer :: below, included, lastLine =>
      (expandLines loader limit below.length lexer.given.ending lexer.given.lines included
        lastLine).andThen (expandStack loader limit below)

/-- What the texts expand to when a line of the innermost has been taken and is still to be looked
    at. -/
def expandAt (loader : Loader) (limit : Nat) (line : Line) (top : Lexer) (below : List Lexer)
    (included : List String) : Expansion :=
  (expandLines loader limit below.length top.given.ending (line :: top.given.lines) included
    line.number).andThen (expandStack loader limit below)

section Stack

variable {loader : Loader} {limit : Nat} {top : Lexer} {below : List Lexer}
  {included : List String} {line : Line}

theorem expandLines_cons (depth : Nat) (ending : Except Fault Unit) (lines : List Line)
    (before : Nat) :
    expandLines loader limit depth ending (line :: lines) included before
      = expandLines loader limit depth ending (line :: lines) included line.number := by
  rw [expandLines, expandLines]

theorem expandStack_of_some {after : Lexer} {lastLine : Nat}
    (h : top.nextLine = (.ok (some line), after)) :
    expandStack loader limit (top :: below) included lastLine
      = expandAt loader limit line after below included := by
  rw [expandStack, Lexer.given_of_some h, expandLines_cons]
  rfl

theorem expandStack_of_none {after : Lexer} {lastLine : Nat}
    (h : top.nextLine = (.ok none, after)) :
    expandStack loader limit (top :: below) included lastLine
      = expandStack loader limit below included lastLine := by
  rw [expandStack, Lexer.given_of_none h, expandLines]
  rfl

theorem expandStack_of_error {after : Lexer} {lastLine : Nat} {fault : Fault}
    (h : top.nextLine = (.error fault, after)) :
    expandStack loader limit (top :: below) included lastLine
      = ⟨[], included, .error fault⟩ := by
  rw [expandStack, Lexer.given_of_error h, expandLines]
  rfl

/-- Texts that have no line left have no part in the expansion. -/
theorem expandStack_pullLine (top : Lexer) (below : List Lexer) (included : List String)
    (lastLine : Nat) :
    expandStack loader limit (top :: below) included lastLine
      = match (pullLine top below).1 with
        | .error fault => ⟨[], included, .error fault⟩
        | .ok none => ⟨[], included, .ok lastLine⟩
        | .ok (some line) =>
            expandAt loader limit line (pullLine top below).2.1 (pullLine top below).2.2
              included := by
  induction below generalizing top with
  | nil =>
      rcases hline : top.nextLine with ⟨_ | _ | line, after⟩
      · rw [expandStack_of_error hline, pullLine, hline]
      · rw [expandStack_of_none hline, pullLine, hline]
        rfl
      · rw [expandStack_of_some hline, pullLine, hline]
  | cons lexer others ih =>
      rcases hline : top.nextLine with ⟨_ | _ | line, after⟩
      · rw [expandStack_of_error hline, pullLine, hline]
      · rw [expandStack_of_none hline, pullLine, hline]
        exact ih lexer
      · rw [expandStack_of_some hline, pullLine, hline]

/-- A line that is passed on stands in front of what is to come. -/
theorem expandAt_of_pass (hpass : line.include? = none) :
    expandAt loader limit line top below included
      = (expandStack loader limit (top :: below) included line.number).cons line := by
  rw [expandAt, expandLines, hpass, Expansion.cons_andThen]
  rfl

end Stack

namespace Source

variable {loader : Loader} {limit : Nat} {source after : Source limit} {line : Line}

def expansion (loader : Loader) (source : Source limit) : Expansion :=
  expandStack loader limit (source.top :: source.below) source.included source.lastLine

/-- Taking a line does not change what is to come. -/
theorem expansion_nextLine (source : Source limit) :
    source.expansion loader
      = match source.nextLine with
        | (.error fault, after) => ⟨[], after.included, .error fault⟩
        | (.ok none, after) => ⟨[], after.included, .ok after.lastLine⟩
        | (.ok (some line), after) =>
            expandAt loader limit line after.top after.below after.included := by
  rw [expansion, expandStack_pullLine, nextLine]
  simp only
  rcases (pullLine source.top source.below).1 with _ | _ | line
  · rfl
  · rfl
  · rfl

theorem lastLine_of_nextLine (h : source.nextLine = (.ok (some line), after)) :
    after.lastLine = line.number := by
  simp only [nextLine] at h
  split at h
  · rename_i found hfound
    obtain ⟨rfl, rfl⟩ : found = line ∧ _ = after := by simpa using h
    rfl
  · rename_i other
    exact absurd (Prod.mk.inj h).1 (other line)

/-- Opening the source that a line asks for does not change what is to come. -/
theorem expandAt_of_include {name : String} {once : Bool}
    (hinclude : line.include? = some (name, once)) (hlast : source.lastLine = line.number) :
    expandAt loader limit line source.top source.below source.included
      = match source.splice loader name once with
        | .error cause => ⟨[], source.included, .error ⟨cause, line.number⟩⟩
        | .ok (_, opened) => opened.expansion loader := by
  rw [expandAt, expandLines, hinclude, splice, ← hlast]
  simp only
  split
  · rfl
  · split
    · cases loader name with
      | error failure => rfl
      | ok text =>
          have hnamed : (Lexer.ofText text (some name)).given
              = ⟨(Lexer.ofText text none).given.lines,
                  (Lexer.ofText text none).given.ending.mapError (Fault.inSource name)⟩ :=
            Lexer.given_named (.ofText text none) name
          simp only [expansion, expandStack, hnamed, Expansion.andThen_assoc]
          rfl
    · rfl

theorem handedOut_eq_expansion (source : Source limit) :
    source.handedOut loader = source.expansion loader := by
  fun_induction Source.handedOut loader source with
  | case1 source fault after hline => rw [expansion_nextLine, hline]
  | case2 source after hline => rw [expansion_nextLine, hline]
  | case3 source line after hline hpass _ ih =>
      rw [expansion_nextLine source, hline, ih]
      simp only
      rw [expandAt_of_pass hpass, expansion, lastLine_of_nextLine hline]
  | case4 source line after hline name once hinclude cause hsplice =>
      rw [expansion_nextLine, hline]
      simp only
      rw [expandAt_of_include hinclude (lastLine_of_nextLine hline), hsplice]
  | case5 source line after hline name once hinclude answer opened hsplice _ ih =>
      rw [expansion_nextLine, hline, ih]
      simp only
      rw [expandAt_of_include hinclude (lastLine_of_nextLine hline), hsplice]

theorem handedOut_ofText (loader : Loader) (limit : Nat) (main : String) :
    (ofText main limit).handedOut loader = expand loader limit main := by
  rw [handedOut_eq_expansion]
  exact Expansion.andThen_end _

end Source

/-! ### Machines on expanded sources -/

section Machines

variable {σ ρ : Type} {machine : Machine σ ρ} {limit : Nat}

/-- The machine asks for the sources that lines ask for, and takes every other line. -/
structure Machine.OpensIncludes (machine : Machine σ ρ) : Prop where
  opens {state line name once} : line.include? = some (name, once) →
    machine.step state line = .ok (.splice state name once)
  takes {state line next name once} : line.include? = none →
    machine.step state line ≠ .ok (.splice next name once)

/-- What the machine makes of lines of which none asks for an include. -/
def Machine.feed (machine : Machine σ ρ) (ending : Except Fault Nat) :
    σ → List Line → Except Fault ρ
  | state, [] => ending.bind (machine.atEnd state)
  | state, line :: lines =>
      match machine.step state line with
      | .error fault => .error fault
      | .ok (.finished result) => .ok result
      | .ok (.more next) | .ok (.splice next _ _) => machine.feed ending next lines

/-- A run takes what the source hands out. -/
theorem Source.run_eq_feed (h : machine.OpensIncludes) (loader : Loader) (state : σ)
    (source : Source limit) :
    (source.run machine loader state).map Prod.fst
      = machine.feed (source.handedOut loader).ending state (source.handedOut loader).lines := by
  fun_induction Source.handedOut loader source generalizing state with
  | case1 source fault after hline =>
      rw [run_of_fault loader hline]
      rfl
  | case2 source after hline =>
      rw [run_of_end loader hline]
      simp only [Machine.feed, Except.bind]
      cases machine.atEnd state after.lastLine <;> rfl
  | case3 source line after hline hpass _ ih =>
      simp only [Expansion.cons, Machine.feed]
      cases hstep : machine.step state line with
      | error fault =>
          rw [run_of_refused loader hline hstep]
          rfl
      | ok outcome =>
          cases outcome with
          | more next =>
              rw [run_of_more loader hline hstep]
              exact ih next
          | splice next name once => exact absurd hstep (h.takes hpass)
          | finished result =>
              rw [run_of_finished loader hline hstep]
              rfl
  | case4 source line after hline name once hinclude cause hsplice =>
      rw [run_of_splice hline (h.opens hinclude), hsplice]
      rfl
  | case5 source line after hline name once hinclude answer opened hsplice _ ih =>
      rw [run_of_splice hline (h.opens hinclude), hsplice]
      exact ih state

/-- The machine accepts no line that asks for a source without asking for that source, and is then
    where it was before. -/
structure Machine.HeedsIncludes (machine : Machine σ ρ) : Prop where
  more {state line next} : machine.step state line = .ok (.more next) → line.include? = none
  splice {state line next name once} : machine.step state line = .ok (.splice next name once) →
    next = state ∧ line.include? = some (name, once)
  finished {state line result} : machine.step state line = .ok (.finished result) →
    line.include? = none

/-- On a line that asks for a source, the machine fails or asks for it. -/
theorem Machine.HeedsIncludes.step_of_include (h : machine.HeedsIncludes) {line : Line}
    {name : String} {once : Bool} (hinclude : line.include? = some (name, once)) (state : σ) :
    (∃ fault, machine.step state line = .error fault) ∨
      machine.step state line = .ok (.splice state name once) := by
  cases hstep : machine.step state line with
  | error fault => exact .inl ⟨fault, rfl⟩
  | ok outcome =>
      right
      cases outcome with
      | more next => cases (h.more hstep).symm.trans hinclude
      | splice next other again =>
          obtain ⟨rfl, hother⟩ := h.splice hstep
          cases hother.symm.trans hinclude
          rfl
      | finished result => cases (h.finished hstep).symm.trans hinclude

/-- A run that comes to a result has taken what the source hands out. -/
theorem Source.feed_of_run (h : machine.HeedsIncludes) {loader : Loader} {state : σ} {result : ρ}
    {source after : Source limit} (hrun : source.run machine loader state = .ok (result, after)) :
    machine.feed (source.handedOut loader).ending state (source.handedOut loader).lines
      = .ok result := by
  fun_induction Source.handedOut loader source generalizing state with
  | case1 source fault place hline =>
      rw [run_of_fault loader hline] at hrun
      cases hrun
  | case2 source place hline =>
      rw [run_of_end loader hline] at hrun
      obtain ⟨found, hend, heq⟩ := map_eq_ok_iff.1 hrun
      obtain ⟨rfl, -⟩ := Prod.mk.inj heq
      exact hend
  | case3 source line place hline hpass _ ih =>
      simp only [Expansion.cons, Machine.feed]
      cases hstep : machine.step state line with
      | error fault =>
          rw [run_of_refused loader hline hstep] at hrun
          cases hrun
      | ok outcome =>
          cases outcome with
          | more next =>
              rw [run_of_more loader hline hstep] at hrun
              exact ih hrun
          | splice next name once => cases hpass.symm.trans (h.splice hstep).2
          | finished found =>
              rw [run_of_finished loader hline hstep] at hrun
              cases hrun
              rfl
  | case4 source line place hline name once hinclude cause hsplice =>
      rcases h.step_of_include hinclude state with ⟨fault, hstep⟩ | hstep
      · rw [run_of_refused loader hline hstep] at hrun
        cases hrun
      · rw [run_of_splice hline hstep, hsplice] at hrun
        cases hrun
  | case5 source line place hline name once hinclude answer opened hsplice _ ih =>
      rcases h.step_of_include hinclude state with ⟨fault, hstep⟩ | hstep
      · rw [run_of_refused loader hline hstep] at hrun
        cases hrun
      · rw [run_of_splice hline hstep, hsplice] at hrun
        exact ih hrun

/-- The machine that only keeps the lines that it takes. -/
def Machine.collector : Machine (List Line) (List Line) where
  step lines line :=
    match line.include? with
    | some (name, once) => .ok (.splice lines name once)
    | none => .ok (.more (lines ++ [line]))
  atEnd lines _ := .ok lines

theorem Machine.opensIncludes_collector : collector.OpensIncludes where
  opens hinclude := by simp only [collector, hinclude]
  takes hpass := by simp [collector, hpass]

end Machines

/-- A source with includes hands out the lines of its expansion, and ends as that does. -/
theorem handedOut_eq_expand (loader : Loader) (limit : Nat) (main : String) :
    (Source.ofText main limit).handedOut loader = expand loader limit main ∧
      ∀ {σ ρ : Type} (machine : Machine σ ρ), machine.OpensIncludes → ∀ start : σ,
        ((Source.ofText main limit).run machine loader start).map Prod.fst
          = machine.feed (expand loader limit main).ending start
              (expand loader limit main).lines := by
  have hexpand := Source.handedOut_ofText loader limit main
  refine ⟨hexpand, fun machine hopens start => ?_⟩
  rw [Source.run_eq_feed hopens, hexpand]

/-- A source that is included once more inside of another one is left out there. -/
theorem handedOut_eq_expand_collected :
    let loader := Loader.ofList [("a", "y;\n#include_once \"b\""), ("b", "z;")]
    let expansion := expand loader 2 "#include \"b\"\n#include \"a\"\nx;"
    Machine.collector.OpensIncludes ∧
      Machine.collector.feed expansion.ending [] expansion.lines
        = .ok [⟨1, ["z", ";"]⟩, ⟨1, ["y", ";"]⟩, ⟨3, ["x", ";"]⟩] := by
  intro loader expansion
  have hopens := Machine.opensIncludes_collector
  refine ⟨hopens, ?_⟩
  rw [← (handedOut_eq_expand loader 2 _).2 Machine.collector hopens []]
  have hcomputed : ((Source.ofText "#include \"b\"\n#include \"a\"\nx;" 2).runFor Machine.collector
      loader 8 []).map (·.map Prod.fst)
        = some (.ok [⟨1, ["z", ";"]⟩, ⟨1, ["y", ";"]⟩, ⟨3, ["x", ";"]⟩]) := by decide
  obtain ⟨answer, hrun, hanswer⟩ := Option.map_eq_some_iff.mp hcomputed
  rw [Source.run_of_runFor hrun]
  exact hanswer

end LslFront
