import LslFront.Proofs.Script.Carrying
import LslFront.Proofs.Script.Ending
import LslFront.Proofs.Source.Numbers

/-!
# Lines of faults

A fault is laid to the line that is being read, to one that was read before and is remembered in the
script or in a body under way, or to the last line of the source.  A script that is alike to itself
by `Likeness.numbered` remembers none but lines with a property, and reading keeps it so; hence
every fault is laid to a line that a text has from which the script was read.
-/

namespace LslFront

/-- All line numbers have the property. -/
def Likeness.numbered (P : Nat → Prop) : Likeness where
  dialect := Eq
  line := fun number _ => P number
  expression := fun _ _ => True

theorem Likeness.lawful_numbered (P : Nat → Prop) : (numbered P).Lawful where
  usable := by
    rintro _ _ name rfl husable
    exact husable
  resolves := by
    rintro _ _ isVariable rfl _
    constructor
    · intro tokens
      exact .same fun _ _ => trivial
    · intro tokens
      exact .same fun _ _ => List.forall₂_same.mpr fun _ _ => trivial

/-- The fault is laid to a line with the property. -/
def Fault.LaidTo (P : Nat → Prop) (fault : Fault) : Prop :=
  P fault.line

section

variable {P : Nat → Prop}

theorem laidTo_onLine {α : Type} {line : Nat} (h : P line) (result : Except Cause α) :
    FailsOnly (Fault.LaidTo P) (onLine line result) :=
  .mapError fun _ _ => h

/-! ### Bodies -/

namespace Body

variable {kind : BodyKind} {symbols : Symbols} {body : Body} {line : Line}

theorem laidTo_close (h : P body.line) : FailsOnly (Fault.LaidTo P) (body.close symbols) := by
  unfold close
  simp only
  split
  · exact .ok _
  · apply (laidTo_onLine h _).bind
    intro closed _
    split
    · exact .ok _
    · exact .ok _

theorem laidTo_step (h : body.Alike (.numbered P) body) (hnumber : P line.number) :
    FailsOnly (Fault.LaidTo P) (body.step symbols kind line) := by
  unfold step
  split
  · exact laidTo_onLine hnumber _
  · split
    · exact laidTo_close h.line
    · exact laidTo_onLine hnumber _

theorem laidTo_atEnd (h : body.Alike (.numbered P) body) {lastLine : Nat} (hlast : P lastLine) :
    (body.atEnd lastLine).LaidTo P := by
  have hdo := h.doBlock
  unfold atEnd
  split
  · rename_i hole block hwaits
    rw [hwaits] at hdo
    cases hdo with
    | some hdo => exact hdo.2.line
  · exact hlast

end Body

/-! ### Scripts under way -/

namespace Reading

variable {reading : Reading} {line : Line}

theorem laidTo_finishState {symbols : Symbols} {state : OpenState} (h : P state.line) :
    FailsOnly (Fault.LaidTo P) (finishState symbols state) := by
  unfold finishState
  split
  · exact FailsOnly.error_iff.2 h
  · exact .ok _

theorem laidTo_step (h : reading.Alike (.numbered P) reading) (hnumber : P line.number) :
    FailsOnly (Fault.LaidTo P) (reading.step line) := by
  obtain ⟨symbols, place⟩ := reading
  have hplace : place.Alike (.numbered P) place := h.place
  unfold step
  cases hplace with
  | topLevel => exact laidTo_onLine hnumber _
  | inState hstate =>
      have hopening : P _ := hstate.line
      simp only
      split
      · exact (laidTo_finishState hopening).bind fun _ _ => .ok _
      · exact (laidTo_onLine hnumber _).map _
  | functionBody hopening hbody =>
      have hopening : P _ := hopening
      apply (Body.laidTo_step hbody hnumber).bind
      intro progress _
      split
      · exact .ok _
      · exact (laidTo_onLine hopening _).bind fun _ _ => .ok _
  | handlerBody _ hopening hbody =>
      have hopening : P _ := hopening
      apply (Body.laidTo_step hbody hnumber).bind
      intro progress _
      split
      · exact .ok _
      · apply (laidTo_onLine hopening _).bind
        intro closed _
        exact (laidTo_onLine hopening _).bind fun _ _ => .ok _

theorem laidTo_checkTargets {script : Script} (h : script.Alike (.numbered P) script) :
    FailsOnly (Fault.LaidTo P) (checkTargets script) := by
  unfold checkTargets
  simp only
  rw [← Script.stateChanges]
  split
  · rename_i target line hfound
    have hchanges := List.forall₂_same.mp h.stateChanges
    have hline := (hchanges _ (List.mem_of_find?_eq_some hfound)).2
    exact FailsOnly.error_iff.2 hline
  · exact .ok _

theorem laidTo_resolveGlobals {scope : Scope} {entries : List (String × Global)}
    (h : ∀ entry ∈ entries, entry.2.Alike (.numbered P) entry.2) :
    FailsOnly (Fault.LaidTo P) (resolveGlobals scope entries) := by
  induction entries with
  | nil => exact .ok _
  | cons entry rest ih =>
      obtain ⟨name, global⟩ := entry
      obtain ⟨hglobal, hrest⟩ := List.forall_mem_cons.mp h
      have hinitializer := hglobal.initializer
      rw [resolveGlobals]
      split
      · exact (ih hrest).bind fun _ _ => .ok _
      · rename_i first hfirst
        simp only [hfirst] at hinitializer
        cases hinitializer with
        | some hline =>
            have hnumber : P first.number := hline.number
            apply ((laidTo_onLine hnumber _).map some).bind
            intro value _
            exact (ih hrest).bind fun _ _ => .ok _

theorem laidTo_finish {symbols : Symbols} (h : symbols.Alike (.numbered P) symbols)
    {lastLine : Nat} (hlast : P lastLine) :
    FailsOnly (Fault.LaidTo P) (finish symbols lastLine) := by
  unfold finish
  simp only
  split
  · apply (laidTo_checkTargets h.script).bind
    intro _ _
    have hglobals := List.forall₂_same.mp h.script.globals
    apply (laidTo_resolveGlobals fun entry hentry => (hglobals entry hentry).2).bind
    exact fun _ _ => .ok _
  · exact FailsOnly.error_iff.2 hlast

theorem laidTo_atEnd (h : reading.Alike (.numbered P) reading) {lastLine : Nat}
    (hlast : P lastLine) : FailsOnly (Fault.LaidTo P) (reading.atEnd lastLine) := by
  obtain ⟨symbols, place⟩ := reading
  obtain ⟨hsymbols, hplace⟩ := h
  have hplace : place.Alike (.numbered P) place := hplace
  unfold atEnd
  cases hplace with
  | topLevel => exact laidTo_finish hsymbols hlast
  | inState _ => exact FailsOnly.error_iff.2 hlast
  | functionBody _ hbody => exact FailsOnly.error_iff.2 (Body.laidTo_atEnd hbody hlast)
  | handlerBody _ _ hbody => exact FailsOnly.error_iff.2 (Body.laidTo_atEnd hbody hlast)

/-- A line with the property leaves a script in which all lines have it. -/
theorem numbered_step {dialect : Dialect} (hreached : reading.Reached dialect)
    (h : reading.Alike (.numbered P) reading) (hnumber : P line.number)
    {next : Next Reading Script} (hstep : reading.step line = .ok next) :
    Next.Related (Alike (.numbered P)) (Script.Alike (.numbered P)) next next :=
  (carries_step (Likeness.lawful_numbered P) h hreached.variablesUsable.clear hnumber).self hstep

end Reading

end

/-! ### Compiling -/

/-- In this round the machine asks for a source, and is given the text. -/
def Machine.Loads {σ ρ : Type} {limit : Nat} (machine : Machine σ ρ) (loader : Loader)
    (config : σ × Source limit) (text : String) : Prop :=
  ∃ line place next name once opened, config.2.nextLine = (.ok (some line), place) ∧
    machine.step config.1 line = .ok (.splice next name once) ∧
    place.splice loader name once = .ok (true, opened) ∧ loader name = .ok text

/-- The texts that a script is read from: its source, and what the loader has been asked for and has
    given by the time that reading ends. -/
def textsRead (source : String) (options : Options) (loader : Loader) : Set String :=
  { text | text = source ∨ ∃ config,
      Reading.machine.Rounds loader (compileStart source options) config ∧
        Reading.machine.Loads loader config text }

section

variable {source : String} {options : Options} {loader : Loader}

/-- What holds between two rounds: all lines that are remembered are lines of texts that have been
    read. -/
structure RoundNumbered (source : String) (options : Options) (loader : Loader)
    (config : Reading × Source options.includeLimit) : Prop where
  reached : config.1.Reached ((Directives.ofSource source).accepted options.baseline)
  reading : config.1.Alike (.numbered (LineOf (textsRead source options loader))) config.1
  source : config.2.Reads (textsRead source options loader)

theorem roundNumbered {config : Reading × Source options.includeLimit}
    (h : Reading.machine.Rounds loader (compileStart source options) config) :
    RoundNumbered source options loader config := by
  induction h with
  | refl =>
      exact ⟨.start, ⟨⟨.blank rfl, rfl⟩, .topLevel⟩, Source.reads_ofText (.inl rfl)⟩
  | @tail before after hrounds hround ih =>
      cases hround with
      | more hline hstep =>
          obtain ⟨hplace, hnumbered⟩ := ih.source.nextLine hline
          have hnext := Reading.numbered_step ih.reached ih.reading (hnumbered.line _ rfl) hstep
          cases hnext with
          | more hreading => exact ⟨ih.reached.more hstep, hreading, hplace⟩
      | @splice _ next _ place opened line name once answer hline hstep hsplice =>
          obtain ⟨hplace, hnumbered⟩ := ih.source.nextLine hline
          have hnext := Reading.numbered_step ih.reached ih.reading (hnumbered.line _ rfl) hstep
          cases hnext with
          | splice hreading =>
              refine ⟨ih.reached.splice hstep, hreading, hplace.splice hsplice ?_⟩
              rintro text rfl htext
              exact .inr ⟨_, hrounds, line, place, next, name, once, opened, hline, hstep,
                hsplice, htext⟩

/-- Whatever the last round gives, a fault is laid to a line of a text that has been read. -/
theorem RoundNumbered.laidTo {config : Reading × Source options.includeLimit}
    (h : RoundNumbered source options loader config)
    {answer : Except Fault (Script × Source options.includeLimit)}
    (hends : Reading.machine.Ends loader config answer) :
    FailsOnly (Fault.LaidTo (LineOf (textsRead source options loader))) answer := by
  cases hends with
  | fault hline => exact FailsOnly.error_iff.2 ((h.source.nextLine hline).2.fault _ rfl)
  | atEnd hline =>
      have hplace := (h.source.nextLine hline).1
      exact (Reading.laidTo_atEnd h.reading hplace.lastLine).map _
  | refused hline hstep =>
      have hnumber := (h.source.nextLine hline).2.line _ rfl
      exact FailsOnly.error_iff.2 (Reading.laidTo_step h.reading hnumber _ hstep)
  | finished => exact .ok _
  | unopened hline =>
      have hnumber := (h.source.nextLine hline).2.line _ rfl
      exact FailsOnly.error_iff.2 hnumber

/-- Every fault of a compilation points at an existing line: its number is at least one, and one of
    the texts that were read, the source or a text that the loader was asked for and gave, has as
    many lines. -/
theorem compile_fault_line {fault : Fault} (h : compile source options loader = .error fault) :
    1 ≤ fault.line ∧ ∃ text ∈ textsRead source options loader,
      fault.line ≤ 1 + text.toList.count '\n' := by
  obtain ⟨last, hrounds, hends⟩ :=
    Reading.machine.exists_ends loader (compileStart source options)
  have hlaid := (roundNumbered hrounds).laidTo hends
  rw [compile_eq_run] at h
  exact hlaid.map _ fault h

end

/-- The parenthesis is left open on the third line of a text that a source of one line includes. -/
theorem compile_fault_line_included :
    let sources := Loader.ofList [("a", "\n\n( ")]
    let fault : Fault := ⟨.lexical .openParenthesis (some "a"), 3⟩
    compile "#include \"a\"" .standard sources = .error fault ∧ 1 ≤ fault.line ∧
      ∃ text ∈ textsRead "#include \"a\"" .standard sources,
        fault.line ≤ 1 + text.toList.count '\n' := by
  intro sources fault
  have hcomputed : (compileFor 3 "#include \"a\"" .standard sources).bind fault? = some fault := by
    decide
  have hcompile := compile_eq_error_of_compileFor hcomputed
  exact ⟨hcompile, compile_fault_line hcompile⟩

end LslFront
