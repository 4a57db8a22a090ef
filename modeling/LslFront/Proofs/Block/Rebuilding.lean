import LslFront.Proofs.Block.Lines
import LslFront.Proofs.Block.Places

/-!
# Bodies are rebuilt from their lines

A body that is written out as logical lines is read back as a block of the same shape.

The lines of a statement are read at a place, and what they do is to put one statement there.  A
later line may change that statement: an `else` goes into it.  So with each statement it is carried
along whether an `if` in it is still open, which is all that a later `else` asks about.
-/

namespace LslFront

/-! ### Scopes -/

theorem Symbols.closeScope_declare {symbols symbols' : Symbols} {name : String} {ty : Ty}
    (h : symbols.declare name ty = .ok symbols') : symbols'.closeScope = symbols.closeScope := by
  simp only [Symbols.declare, bind_eq_ok_iff] at h
  obtain ⟨-, -, h⟩ := h
  split at h
  · cases h
  · rename_i innermost outer hscopes
    cases h
    simp [Symbols.closeScope, hscopes]

theorem Outline.closeScope_declare {statement : Written} {symbols symbols' : Symbols}
    (h : statement.declare symbols = .ok symbols') : symbols'.closeScope = symbols.closeScope := by
  cases statement with
  | declaration ty name value => exact Symbols.closeScope_declare h
  | _ =>
      cases h
      rfl

theorem closeScope_resolveStatements {statements : List Written} {symbols symbols' : Symbols}
    {meant : List Meant} (h : resolveStatements symbols statements = .ok (symbols', meant)) :
    symbols'.closeScope = symbols.closeScope := by
  induction statements generalizing symbols meant with
  | nil =>
      cases h
      rfl
  | cons statement rest ih =>
      simp only [resolveStatements, bind_eq_ok_iff, pure_eq_ok, Except.ok.injEq,
        Prod.mk.injEq] at h
      obtain ⟨first, -, between, hbetween, ⟨last, others⟩, hothers, rfl, -⟩ := h
      rw [ih hothers, Outline.closeScope_declare hbetween]

/-! ### Single lines -/

section

variable {symbols symbols' : Symbols} {kind : BodyKind} {body body' : Body}
  {before : List String} {hole : Hole} {line : Line} {word : String} {rest : List String}

theorem Leads.passes {effect : Effect} (h : Leads symbols.scope body.statements before hole)
    (hidle : body.doBlock = none) (htokens : line.tokens = before ++ word :: rest)
    (hbrace : word ≠ "\x7d") (helse : word ≠ "else")
    (hread : readEffect symbols.scope kind line.number hole (word :: rest) = .ok effect)
    (happly : body.apply symbols line.number effect = .ok (.more symbols' body')) :
    (Body.machine kind).Passes (symbols, body) [line] (symbols', body') := by
  obtain ⟨number, tokens⟩ := line
  subst htokens
  refine .single ?_
  have hstep := h.step hidle kind number rest hbrace helse
  simp only [hread, ok_bind, happly] at hstep
  simp [Body.machine, hstep, onLine]

theorem Leads.passes_simple {statement : Statement}
    (h : Leads symbols.scope body.statements before hole) (hidle : body.doBlock = none)
    (htokens : line.tokens = before ++ word :: rest)
    (hnot : word ∉ ["\x7b", "\x7d", ";", "if", "else", "while", "for", "do"])
    (hdirective : isDirective word = false) (htype : Ty.ofWord? word = none)
    (hsimple : simpleStatement symbols.scope kind line.number word rest = .ok statement) :
    (Body.machine kind).Passes (symbols, body) [line] (symbols, body.put hole statement) := by
  have hbrace : word ≠ "\x7d" := fun heq => hnot (by simp [heq])
  have helse : word ≠ "else" := fun heq => hnot (by simp [heq])
  have hread : readEffect symbols.scope kind line.number hole (word :: rest)
      = .ok (.complete hole statement) := by
    rw [readEffect_simple hnot hdirective htype, hsimple]
    rfl
  exact h.passes hidle htokens hbrace helse hread rfl

@[simp] theorem withoutSemicolon_append (tokens : List String) :
    withoutSemicolon (tokens ++ [";"]) = .ok tokens := by
  simp [withoutSemicolon]

end

/-! ### What has been rebuilt -/

/-- A statement that has been read is what a written one means, and is open if that is. -/
structure Rebuilds (written : Written) (meant : Meant) (read : Statement) : Prop where
  unnumbered_eq : read.unnumbered = meant.statement
  isSome_eq : ∀ elseBlock, (read.withElse? elseBlock).isSome = written.isOpen

structure RebuildsBody (written : WrittenBody) (meant : MeantBody) (read : Block) : Prop where
  unnumbered_eq : read.unnumbered = meant.block
  isSome_eq : ∀ elseBlock, (read.withElse? elseBlock).isSome = written.isOpen

/-- Whatever place the lines of the statement are read for, they put it there. -/
def Outline.Reads (kind : BodyKind) (statement : Written) : Prop :=
  ∀ {symbols symbols' meant body hole before lines}, statement.isWritable kind →
    (hole = .statement ∨ statement.isBodied) → statement.resolve symbols = .ok meant →
    statement.declare symbols = .ok symbols' → body.doBlock = none →
    Leads symbols.scope body.statements before hole →
    lines.map Line.tokens = statement.lines before →
    ∃ read, Rebuilds statement meant read ∧
      (Body.machine kind).Passes (symbols, body) lines (symbols', body.put hole read)

/-! ### Blocks -/

section

variable {kind : BodyKind} {symbols : Symbols} {body : Body}

theorem passes_statements {statements : List Written}
    (hreads : ∀ s ∈ statements, s.Reads kind) : ∀ {symbols symbols' meant body lines},
    allWritable kind statements → resolveStatements symbols statements = .ok (symbols', meant) →
    body.doBlock = none → lines.map Line.tokens = linesOfAll statements →
    ∃ reads, allUnnumbered reads = statementsOf meant ∧
      (Body.machine kind).Passes (symbols, body) lines
        (symbols', { body with statements := body.statements ++ reads }) := by
  induction statements with
  | nil =>
      intro symbols symbols' meant body lines _ hresolve _ hlines
      cases hresolve
      obtain rfl := List.map_eq_nil_iff.mp hlines
      refine ⟨[], rfl, ?_⟩
      rw [List.append_nil]
      exact .nil
  | cons statement rest ih =>
      intro symbols symbols' meant body lines hwritable hresolve hidle hlines
      simp only [allWritable, Bool.and_eq_true] at hwritable
      simp only [resolveStatements, bind_eq_ok_iff, pure_eq_ok, Except.ok.injEq,
        Prod.mk.injEq] at hresolve
      obtain ⟨first, hfirst, between, hbetween, ⟨last, others⟩, hothers, rfl, rfl⟩ := hresolve
      obtain ⟨lines, more, rfl, hlines, hmore⟩ := List.map_eq_append_iff.mp hlines
      obtain ⟨read, hrebuilds, hpasses⟩ := hreads statement List.mem_cons_self hwritable.1
        (.inl rfl) hfirst hbetween hidle .statement hlines
      obtain ⟨reads, hunnumbered, hrest⟩ :=
        ih (fun s hmem => hreads s (List.mem_cons_of_mem _ hmem)) hwritable.2 hothers
          (show (body.put .statement read).doBlock = none from hidle) hmore
      refine ⟨read :: reads, ?_, hpasses.append ?_⟩
      · rw [allUnnumbered, hrebuilds.unnumbered_eq, hunnumbered, statementsOf]
      · simpa [Body.put, Hole.putStatement] using hrest

theorem passes_block {statements : List Written} {symbols' : Symbols} {meant : List Meant}
    {lines : List Line} (hreads : ∀ s ∈ statements, s.Reads kind)
    (hwritable : allWritable kind statements)
    (hresolve : resolveStatements symbols.openScope statements = .ok (symbols', meant))
    (hidle : body.doBlock = none) (number : Nat) (hole : Hole) (isDo : Bool)
    (hlines : lines.map Line.tokens = linesOfAll statements ++ [["\x7d"]]) :
    ∃ reads, allUnnumbered reads = statementsOf meant ∧
      (Body.machine kind).Passes (symbols.openScope, body.descend number hole isDo) lines
        (symbols,
          if isDo then { body with doBlock := some (hole, .mk number true reads) }
          else { body with
            statements := hole.putBlock body.statements (.mk number true reads) }) := by
  obtain ⟨inner, last, rfl, hinner, hlast⟩ := List.map_eq_append_iff.mp hlines
  obtain ⟨close, rfl, hclose⟩ := List.map_eq_singleton_iff.mp hlast
  obtain ⟨reads, hunnumbered, hpasses⟩ := passes_statements hreads hwritable hresolve
    (show (body.descend number hole isDo).doBlock = none from rfl) hinner
  refine ⟨reads, hunnumbered, hpasses.append (.single ?_)⟩
  have hscope : symbols'.closeScope = .ok symbols := closeScope_resolveStatements hresolve
  obtain ⟨line, stmts, waiting, doBlock⟩ := body
  obtain rfl : doBlock = none := hidle
  cases isDo with
  | false => simp [Body.machine, Body.step, Body.close, Body.descend, hclose, hscope, onLine]
  | true => simp [Body.machine, Body.step, Body.close, Body.descend, hclose, hscope, onLine]

theorem Leads.passes_braced {statements : List Written} {symbols' : Symbols} {meant : List Meant}
    {before : List String} {hole : Hole} {lines : List Line}
    (h : Leads symbols.scope body.statements before hole) (hidle : body.doBlock = none)
    (hreads : ∀ s ∈ statements, s.Reads kind) (hwritable : allWritable kind statements)
    (hresolve : resolveStatements symbols.openScope statements = .ok (symbols', meant))
    (hlines : lines.map Line.tokens
      = (before ++ ["\x7b"]) :: (linesOfAll statements ++ [["\x7d"]])) :
    ∃ block, block.unnumbered = .mk 0 true (statementsOf meant) ∧ block.isBraced ∧
      (Body.machine kind).Passes (symbols, body) lines
        (symbols, { body with statements := hole.putBlock body.statements block }) := by
  obtain ⟨first, others, rfl, hfirst, hothers⟩ := List.map_eq_cons_iff.mp hlines
  obtain ⟨reads, hunnumbered, hpasses⟩ :=
    passes_block hreads hwritable hresolve hidle first.number hole false hothers
  have hread : readEffect symbols.scope kind first.number hole ["\x7b"] = .ok (.opens hole) := by
    rw [readEffect_cons]
    simp
  have hopen := h.passes hidle hfirst (by decide) (by decide) hread rfl
  refine ⟨.mk first.number true reads, ?_, rfl, hopen.append hpasses⟩
  rw [Block.unnumbered, hunnumbered]

theorem Leads.passes_body {written : WrittenBody} {meant : MeantBody} {before : List String}
    {hole : Hole} {lines : List Line} (h : Leads symbols.scope body.statements before hole)
    (hinner : hole ≠ .statement) (hidle : body.doBlock = none)
    (hreads : ∀ s ∈ written.statements, s.Reads kind) (hwritable : written.isWritable kind)
    (hresolve : written.resolve symbols = .ok meant)
    (hlines : lines.map Line.tokens = written.lines before) :
    ∃ block, RebuildsBody written meant block ∧
      (Body.machine kind).Passes (symbols, body) lines
        (symbols, { body with statements := hole.putBlock body.statements block }) := by
  cases written with
  | braced statements =>
      simp only [OutlineBody.resolve, bind_eq_ok_iff, pure_eq_ok, Except.ok.injEq] at hresolve
      obtain ⟨⟨symbols', others⟩, hothers, rfl⟩ := hresolve
      obtain ⟨⟨line, braced, stmts⟩, hunnumbered, hbraced, hpasses⟩ :=
        h.passes_braced hidle hreads hwritable hothers hlines
      obtain rfl : braced = true := hbraced
      exact ⟨_, ⟨hunnumbered, fun _ => rfl⟩, hpasses⟩
  | single statement =>
      simp only [OutlineBody.resolve, bind_eq_ok_iff, pure_eq_ok, Except.ok.injEq] at hresolve
      obtain ⟨first, hfirst, rfl⟩ := hresolve
      simp only [OutlineBody.isWritable, Bool.and_eq_true] at hwritable
      have hdeclare := statement.declare_of_isBodied hwritable.1 symbols
      obtain ⟨read, hrebuilds, hpasses⟩ := hreads statement (List.mem_singleton_self _)
        hwritable.2 (.inr hwritable.1) hfirst hdeclare hidle h hlines
      refine ⟨.single read, ⟨?_, fun elseBlock => ?_⟩, ?_⟩
      · simp [Block.single, Block.unnumbered, allUnnumbered, hrebuilds.unnumbered_eq,
          OutlineBody.block]
      · simp [Block.single, Block.withElse?, lastWithElse?, hrebuilds.isSome_eq, OutlineBody.isOpen]
      · cases hole with
        | statement => exact absurd rfl hinner
        | elseBranch => exact hpasses
        | body control outer => exact hpasses

end

/-! ### Headers of `for` -/

section

variable {scope : Scope} {start step : List (List String)} {condition : Option (List String)}
  {starts steps : List Resolved} {resolved : Option Resolved}

theorem isUncontrolled_commaSeparated {parts : List (List String)} (h : parts.all isUncontrolled) :
    isUncontrolled (commaSeparated parts) := by
  refine commaSeparated_induction (P := fun tokens => isUncontrolled tokens) rfl (by decide) ?_ ?_
  · intro tokens more htokens hmore
    rw [isUncontrolled, List.all_append, Bool.and_eq_true]
    exact ⟨htokens, hmore⟩
  · exact List.all_eq_true.mp h

theorem balanced_resolveOptional {count : Nat → String → Option Nat}
    (hcounts : CountsBrackets count)
    (h : resolveOptional scope condition = .ok resolved) : Balanced count (condition.getD []) := by
  cases condition with
  | none => exact .nil
  | some tokens =>
      obtain ⟨value, hvalue, -⟩ := map_eq_ok_iff.1 h
      exact balanced_of_resolveTokens hcounts hvalue

theorem isWithin_resolveOptional (h : resolveOptional scope condition = .ok resolved) :
    ∀ token ∈ condition.getD [], isWithin token := by
  cases condition with
  | none => simp
  | some tokens =>
      obtain ⟨value, hvalue, -⟩ := map_eq_ok_iff.1 h
      exact isWithin_of_resolveTokens hvalue

theorem balanced_forHeader (hstart : start.mapM (resolveTokens scope) = .ok starts)
    (hcondition : resolveOptional scope condition = .ok resolved)
    (hstep : step.mapM (resolveTokens scope) = .ok steps) :
    Balanced bracketStep (forHeader start condition step) := by
  have hcounts := countsBrackets_bracketStep
  have hsemicolon : Balanced bracketStep [";"] := .token fun _ => rfl
  have hrest := hsemicolon.append (balanced_commaSeparated hcounts hstep)
  have hmiddle := hsemicolon.append ((balanced_resolveOptional hcounts hcondition).append hrest)
  exact (balanced_commaSeparated hcounts hstart).append hmiddle

theorem isUncontrolled_forHeader (hstart : start.all isUncontrolled)
    (hcondition : condition.all isUncontrolled) (hstep : step.all isUncontrolled) :
    isUncontrolled (forHeader start condition step) := by
  have hsemicolon : Builtin.isControl ";" = false := by decide
  have hmiddle : isUncontrolled (condition.getD []) := by
    cases condition with
    | none => rfl
    | some tokens => exact hcondition
  have hfirst := isUncontrolled_commaSeparated hstart
  have hlast := isUncontrolled_commaSeparated hstep
  rw [isUncontrolled] at hfirst hmiddle hlast ⊢
  simp [forHeader, hfirst, hmiddle, hlast, hsemicolon]

theorem resolveForHeader_forHeader (hstart : start.mapM (resolveTokens scope) = .ok starts)
    (hcondition : resolveOptional scope condition = .ok resolved)
    (hstep : step.mapM (resolveTokens scope) = .ok steps) :
    resolveForHeader scope (forHeader start condition step)
      = .ok (.forLoop starts resolved steps) := by
  have hcounts := countsBrackets_bracketStep
  have hparts := headerParts_three (balanced_commaSeparated hcounts hstart)
    (balanced_resolveOptional hcounts hcondition) (balanced_commaSeparated hcounts hstep)
    (not_semicolon_of_isWithin (isWithin_commaSeparated hstart))
    (not_semicolon_of_isWithin (isWithin_resolveOptional hcondition))
    (not_semicolon_of_isWithin (isWithin_commaSeparated hstep))
  rw [resolveForHeader, forHeader, hparts]
  simp only [resolveTokenList_commaSeparated hstart, resolveTokenList_commaSeparated hstep, ok_bind]
  cases condition with
  | none =>
      cases hcondition
      rfl
  | some tokens =>
      obtain ⟨value, hvalue, rfl⟩ := map_eq_ok_iff.1 hcondition
      obtain ⟨first, rest, rfl, -⟩ := opens_of_resolveTokens hvalue
      simp [hvalue]

/-- What stands between the parentheses of an `if` or a `while` is a condition. -/
theorem resolveControl_condition {condition : List String} {resolved : Resolved}
    (h : resolveTokens scope condition = .ok resolved) :
    resolveControl scope "if" condition = .ok (.ifThen resolved) ∧
      resolveControl scope "while" condition = .ok (.whileLoop resolved) := by
  simp [resolveControl, h]

end

/-! ### Statements -/

namespace Outline

variable {kind : BodyKind}

/-- A statement on one line that begins with none of the words of blocks, control statements and
    types is read if the line is understood. -/
theorem reads_of_simple {statement : Written} (hbodied : statement.isBodied)
    (hmeans : ∀ {symbols meant}, statement.isWritable kind →
      statement.resolve symbols = .ok meant → ∃ word rest,
        (∀ before, statement.lines before = [before ++ word :: rest]) ∧
        word ∉ ["\x7b", "\x7d", ";", "if", "else", "while", "for", "do"] ∧
        isDirective word = false ∧ Ty.ofWord? word = none ∧
        ∀ number, ∃ read, simpleStatement symbols.scope kind number word rest = .ok read ∧
          Rebuilds statement meant read) : Reads kind statement := by
  intro symbols symbols' meant body hole before lines hwritable _ hresolve hdeclare hidle hleads
    hlines
  rw [declare_of_isBodied hbodied] at hdeclare
  cases hdeclare
  obtain ⟨word, rest, hwritten, hnot, hdirective, htype, hread⟩ := hmeans hwritable hresolve
  rw [hwritten] at hlines
  obtain ⟨line, rfl, htokens⟩ := List.map_eq_singleton_iff.mp hlines
  obtain ⟨read, hsimple, hrebuilds⟩ := hread line.number
  exact ⟨read, hrebuilds, hleads.passes_simple hidle htokens hnot hdirective htype hsimple⟩

theorem reads_expression (value : List String) : Reads kind (.expression value) := by
  refine reads_of_simple rfl ?_
  intro symbols meant _ hresolve
  simp only [resolve, bind_eq_ok_iff, pure_eq_ok, Except.ok.injEq] at hresolve
  obtain ⟨resolved, hresolved, rfl⟩ := hresolve
  obtain ⟨first, rest, rfl, hopens⟩ := opens_of_resolveTokens hresolved
  have hwithin := isWithin_of_resolveTokens hresolved first List.mem_cons_self
  have hnot := not_mem_of_opensExpression hopens
  simp only [statementWords, List.mem_cons, List.not_mem_nil, or_false, not_or] at hnot
  refine ⟨first, rest ++ [";"], fun before => by simp [lines], by simp [hnot],
    not_isDirective_of_isWithin hwithin, ofWord?_of_opensExpression hopens, fun number => ?_⟩
  have htail := withoutSemicolon_append (first :: rest)
  rw [List.cons_append] at htail
  refine ⟨.expression number resolved, ?_, rfl, fun _ => rfl⟩
  simp [simpleStatement, hnot, htail, hresolved]

theorem reads_ret (value : Option (List String)) : Reads kind (.ret value) := by
  refine reads_of_simple rfl ?_
  intro symbols meant _ hresolve
  simp only [resolve, bind_eq_ok_iff, pure_eq_ok, Except.ok.injEq] at hresolve
  obtain ⟨resolved, hresolved, rfl⟩ := hresolve
  cases value with
  | none =>
      cases hresolved
      exact ⟨"return", [";"], fun _ => rfl, by decide, by decide, by decide,
        fun number => ⟨.ret number none, rfl, rfl, fun _ => rfl⟩⟩
  | some value =>
      obtain ⟨inner, hinner, rfl⟩ := map_eq_ok_iff.1 hresolved
      obtain ⟨first, rest, rfl, -⟩ := opens_of_resolveTokens hinner
      refine ⟨"return", first :: rest ++ [";"], fun before => by simp [lines], by decide, by decide,
        by decide, fun number => ⟨.ret number (some inner), ?_, rfl, fun _ => rfl⟩⟩
      simp only [simpleStatement, withoutSemicolon_append]
      simp [hinner]

theorem singleName_of_isIdentifier {name : String} (keyword : String) (h : isIdentifier name) :
    singleName keyword [name, ";"] = .ok name := by
  simp [singleName, h]

theorem map_of_singleName {keyword name : String} {rest : List String}
    (h : singleName keyword rest = .ok name) (means : String → Statement) :
    ((singleName keyword rest).mapError .structural).map means
      = (.ok (means name) : Except Cause Statement) := by
  rw [h]
  rfl

theorem reads_stateChange (target : String) : Reads kind (.stateChange target) := by
  refine reads_of_simple rfl ?_
  intro symbols meant hwritable hresolve
  cases hresolve
  simp only [isWritable, Bool.and_eq_true, beq_iff_eq] at hwritable
  refine ⟨"state", [target, ";"], fun _ => rfl, by decide, by decide, by decide, fun number => ?_⟩
  refine ⟨.stateChange number target, ?_, rfl, fun _ => rfl⟩
  have hname := singleName_of_isIdentifier "state" hwritable.2
  exact (if_pos hwritable.1).trans (map_of_singleName hname _)

theorem reads_jump (label : String) : Reads kind (.jump label) := by
  refine reads_of_simple rfl ?_
  intro symbols meant hwritable hresolve
  cases hresolve
  refine ⟨"jump", [label, ";"], fun _ => rfl, by decide, by decide, by decide, fun number => ?_⟩
  refine ⟨.jump number label, ?_, rfl, fun _ => rfl⟩
  exact map_of_singleName (singleName_of_isIdentifier "jump" hwritable) _

theorem reads_label (name : String) : Reads kind (.label name) := by
  refine reads_of_simple rfl ?_
  intro symbols meant hwritable hresolve
  cases hresolve
  refine ⟨"@", [name, ";"], fun _ => rfl, by decide, by decide, by decide, fun number => ?_⟩
  refine ⟨.label number name, ?_, rfl, fun _ => rfl⟩
  exact map_of_singleName (singleName_of_isIdentifier "@" hwritable) _

theorem reads_empty : Reads kind .empty := by
  intro symbols symbols' meant body hole before lines _ _ hresolve hdeclare hidle hleads hlines
  cases hresolve
  cases hdeclare
  obtain ⟨line, rfl, htokens⟩ := List.map_eq_singleton_iff.mp hlines
  have hread : readEffect symbols.scope kind line.number hole [";"]
      = .ok (.complete hole (.empty line.number)) := by
    rw [readEffect_cons]
    simp
  have hpasses := hleads.passes hidle htokens (by decide) (by decide) hread rfl
  exact ⟨_, ⟨rfl, fun _ => rfl⟩, hpasses⟩

theorem reads_declaration (ty : TypeWord) (name : String) (value : Option (List String)) :
    Reads kind (.declaration ty name value) := by
  intro symbols symbols' meant body hole before lines _ hplace hresolve hdeclare hidle hleads hlines
  obtain rfl : hole = .statement := hplace.resolve_right (by simp [isBodied])
  obtain rfl : before = [] := by
    cases hleads
    rfl
  simp only [resolve, bind_eq_ok_iff, pure_eq_ok, Except.ok.injEq] at hresolve
  obtain ⟨resolved, hresolved, rfl⟩ := hresolve
  have hword : ty.word ≠ "\x7d" ∧ ty.word ≠ "else" := by
    have hnot := (not_mem_of_ofWord? ty.names).1
    simp only [List.mem_cons, List.not_mem_nil, or_false, not_or] at hnot
    exact ⟨hnot.2.1, hnot.2.2.2.2.1⟩
  -- What stands after the type is read as the name and its value.
  obtain ⟨line, rest, rfl, htokens, hlocal⟩ : ∃ line rest, lines = [line] ∧
      line.tokens = [] ++ ty.word :: rest ∧
      localDeclaration symbols.scope ty.ty rest = .ok (.declares ty.ty name resolved) := by
    cases value with
    | none =>
        cases hresolved
        obtain ⟨line, rfl, htokens⟩ := List.map_eq_singleton_iff.mp hlines
        exact ⟨line, _, rfl, htokens, rfl⟩
    | some value =>
        obtain ⟨inner, hinner, rfl⟩ := map_eq_ok_iff.1 hresolved
        obtain ⟨line, rfl, htokens⟩ := List.map_eq_singleton_iff.mp hlines
        obtain ⟨first, rest, rfl, -⟩ := opens_of_resolveTokens hinner
        refine ⟨line, _, rfl, htokens, ?_⟩
        have htail := withoutSemicolon_append (name :: "=" :: first :: rest)
        simp only [List.cons_append] at htail
        simp [localDeclaration, htail, hinner]
  have hread : readEffect symbols.scope kind line.number .statement (ty.word :: rest)
      = .ok (.declares ty.ty name resolved) := by
    rw [readEffect_declaration rest ty.names, hlocal]
  have happly : body.apply symbols line.number (.declares ty.ty name resolved)
      = .ok (.more symbols'
          (body.put .statement (.declaration line.number ty.ty name resolved))) := by
    simp [Body.apply, show symbols.declare name ty.ty = .ok symbols' from hdeclare]
  have hpasses := hleads.passes hidle htokens hword.1 hword.2 hread happly
  exact ⟨_, ⟨rfl, fun _ => rfl⟩, hpasses⟩

theorem reads_block {statements : List Written} (hreads : ∀ s ∈ statements, s.Reads kind) :
    Reads kind (.block statements) := by
  intro symbols symbols' meant body hole before lines hwritable hplace hresolve hdeclare hidle
    hleads hlines
  obtain rfl : hole = .statement := hplace.resolve_right (by simp [isBodied])
  cases hdeclare
  simp only [resolve, bind_eq_ok_iff, pure_eq_ok, Except.ok.injEq] at hresolve
  obtain ⟨⟨after, inner⟩, hinner, rfl⟩ := hresolve
  obtain ⟨block, hunnumbered, -, hpasses⟩ :=
    hleads.passes_braced hidle hreads hwritable hinner hlines
  refine ⟨.block block.line block, ⟨?_, fun _ => rfl⟩, hpasses⟩
  exact congrArg (Statement.block 0) hunnumbered

theorem reads_ifThen {condition : List String} {thenBranch : WrittenBody}
    (hreads : ∀ s ∈ thenBranch.statements, s.Reads kind) :
    Reads kind (.ifThen condition thenBranch) := by
  intro symbols symbols' meant body hole before lines hwritable _ hresolve hdeclare hidle hleads
    hlines
  cases hdeclare
  simp only [resolve, bind_eq_ok_iff, pure_eq_ok, Except.ok.injEq] at hresolve
  obtain ⟨resolved, hresolved, branch, hbranch, rfl⟩ := hresolve
  simp only [isWritable, Bool.and_eq_true] at hwritable
  have hcontrol := (resolveControl_condition hresolved).1
  have hbalanced := balanced_of_resolveTokens countsBrackets_bracketStep hresolved
  have hinner := hleads.body (by decide) hbalanced hwritable.1 hcontrol
  obtain ⟨block, hrebuilds, hpasses⟩ :=
    hinner.passes_body (by simp) hidle hreads hwritable.2 hbranch hlines
  refine ⟨.ifThen block.line resolved block, ⟨?_, fun elseBlock => ?_⟩, hpasses⟩
  · exact congrArg (Statement.ifThen 0 resolved) hrebuilds.unnumbered_eq
  · simp only [Statement.withElse?, isOpen]
    split <;> rfl

theorem reads_whileLoop {condition : List String} {body : WrittenBody}
    (hreads : ∀ s ∈ body.statements, s.Reads kind) : Reads kind (.whileLoop condition body) := by
  intro symbols symbols' meant outer hole before lines hwritable _ hresolve hdeclare hidle hleads
    hlines
  cases hdeclare
  simp only [resolve, bind_eq_ok_iff, pure_eq_ok, Except.ok.injEq] at hresolve
  obtain ⟨resolved, hresolved, inner, hinner, rfl⟩ := hresolve
  simp only [isWritable, Bool.and_eq_true] at hwritable
  have hcontrol := (resolveControl_condition hresolved).2
  have hbalanced := balanced_of_resolveTokens countsBrackets_bracketStep hresolved
  have hplace := hleads.body (by decide) hbalanced hwritable.1 hcontrol
  obtain ⟨block, hrebuilds, hpasses⟩ :=
    hplace.passes_body (by simp) hidle hreads hwritable.2 hinner hlines
  refine ⟨.whileLoop block.line resolved block, ⟨?_, fun elseBlock => ?_⟩, hpasses⟩
  · exact congrArg (Statement.whileLoop 0 resolved) hrebuilds.unnumbered_eq
  · exact Option.isSome_map.trans (hrebuilds.isSome_eq elseBlock)

theorem reads_doWhile {statements : List Written} {condition : List String}
    (hreads : ∀ s ∈ statements, s.Reads kind) : Reads kind (.doWhile statements condition) := by
  intro symbols symbols' meant body hole before lines hwritable _ hresolve hdeclare hidle hleads
    hlines
  cases hdeclare
  simp only [resolve, bind_eq_ok_iff, pure_eq_ok, Except.ok.injEq] at hresolve
  obtain ⟨⟨after, inner⟩, hinner, resolved, hresolved, rfl⟩ := hresolve
  simp only [isWritable, Bool.and_eq_true] at hwritable
  obtain ⟨first, others, rfl, hfirst, hothers⟩ := List.map_eq_cons_iff.mp hlines
  rw [show linesOfAll statements ++ [["\x7d"], "while" :: "(" :: condition ++ [")", ";"]]
      = (linesOfAll statements ++ [["\x7d"]]) ++ ["while" :: "(" :: condition ++ [")", ";"]] by
    simp] at hothers
  obtain ⟨filling, last, rfl, hfilling, hlast⟩ := List.map_eq_append_iff.mp hothers
  obtain ⟨tail, rfl, htail⟩ := List.map_eq_singleton_iff.mp hlast
  have hread : readEffect symbols.scope kind first.number hole ["do", "\x7b"]
      = .ok (.opensDo hole) := by
    rw [readEffect_cons]
    simp [headedWords]
  have hopen := hleads.passes hidle hfirst (by decide) (by decide) hread rfl
  obtain ⟨reads, hunnumbered, hpasses⟩ :=
    passes_block hreads hwritable.1 hinner hidle first.number hole true hfilling
  have hclose : (Body.machine kind).Passes
      (symbols, { body with doBlock := some (hole, .mk first.number true reads) }) [tail]
      (symbols, body.put hole (.doWhile first.number (.mk first.number true reads) resolved)) := by
    refine .single ?_
    have hbalanced := balanced_of_resolveTokens countsBrackets_bracketStep hresolved
    have hcut := splitHeader_balanced "while" [";"] hbalanced hwritable.2
    obtain ⟨line, stmts, waiting, doBlock⟩ := body
    obtain rfl : doBlock = none := hidle
    simp [Body.machine, Body.step, Body.closeDo, Body.put, Block.line, htail, hcut, hresolved,
      onLine]
  refine ⟨_, ⟨?_, fun _ => rfl⟩, hopen.append (hpasses.append hclose)⟩
  exact congrArg (fun inner => Statement.doWhile 0 (.mk 0 true inner) resolved) hunnumbered

theorem reads_ifElse {condition : List String} {thenBranch elseBranch : WrittenBody}
    (hthen : ∀ s ∈ thenBranch.statements, s.Reads kind)
    (helse : ∀ s ∈ elseBranch.statements, s.Reads kind) :
    Reads kind (.ifElse condition thenBranch elseBranch) := by
  intro symbols symbols' meant body hole before lines hwritable _ hresolve hdeclare hidle hleads
    hlines
  cases hdeclare
  simp only [resolve, bind_eq_ok_iff, pure_eq_ok, Except.ok.injEq] at hresolve
  obtain ⟨resolved, hresolved, first, hfirst, second, hsecond, rfl⟩ := hresolve
  simp only [isWritable, Bool.and_eq_true, Bool.not_eq_true'] at hwritable
  obtain ⟨⟨⟨hfree, hwritablefirst⟩, hclosed⟩, hwritablesecond⟩ := hwritable
  obtain ⟨lines, more, rfl, hlines, hmore⟩ := List.map_eq_append_iff.mp hlines
  have hcontrol := (resolveControl_condition hresolved).1
  have hbalanced := balanced_of_resolveTokens countsBrackets_bracketStep hresolved
  have hplace := hleads.body (by decide) hbalanced hfree hcontrol
  obtain ⟨block, hrebuilds, hpasses⟩ :=
    hplace.passes_body (by simp) hidle hthen hwritablefirst hfirst hlines
  -- The branch is closed, so the `if` that has just been put into its place takes the else.
  have hnone : ∀ elseBlock, block.withElse? elseBlock = none := by
    intro elseBlock
    have hopen := hrebuilds.isSome_eq elseBlock
    rw [hclosed] at hopen
    exact Option.isNone_iff_eq_none.mp (by simpa using hopen)
  have hgiven : ∀ elseBlock,
      Hole.putBlock (hole.putStatement body.statements (.ifThen block.line resolved block))
          elseBlock .elseBranch
      = hole.putStatement body.statements (.ifElse block.line resolved block elseBlock) :=
    fun elseBlock => Hole.putBlock_elseBranch hleads.fits elseBlock (hnone elseBlock)
  have htakes : takesElse
      (hole.putStatement body.statements (.ifThen block.line resolved block)) := by
    have hwith : Statement.withElse? (.ifThen block.line resolved block) (.bare 0)
        = some (.ifElse block.line resolved block (.bare 0)) := by
      simp [Statement.withElse?, hnone]
    rw [takesElse, Hole.lastWithElse?_putStatement hleads.fits hwith]
    rfl
  have hnext : Leads symbols.scope
      (body.put hole (.ifThen block.line resolved block)).statements ["else"] .elseBranch :=
    .elseBranch htakes
  obtain ⟨elseBlock, hrebuilds', hpasses'⟩ :=
    hnext.passes_body (by simp) hidle helse hwritablesecond hsecond hmore
  refine ⟨.ifElse block.line resolved block elseBlock, ⟨?_, fun other => ?_⟩, hpasses.append ?_⟩
  · exact congrArg₂ (Statement.ifElse 0 resolved) hrebuilds.unnumbered_eq hrebuilds'.unnumbered_eq
  · exact Option.isSome_map.trans (hrebuilds'.isSome_eq other)
  · rw [Body.put, ← hgiven elseBlock]
    exact hpasses'

theorem reads_forLoop {start step : List (List String)} {condition : Option (List String)}
    {body : WrittenBody} (hreads : ∀ s ∈ body.statements, s.Reads kind) :
    Reads kind (.forLoop start condition step body) := by
  intro symbols symbols' meant outer hole before lines hwritable _ hresolve hdeclare hidle hleads
    hlines
  cases hdeclare
  simp only [resolve, bind_eq_ok_iff, pure_eq_ok, Except.ok.injEq] at hresolve
  obtain ⟨starts, hstarts, resolved, hresolved, steps, hsteps, inner, hinner, rfl⟩ := hresolve
  simp only [isWritable, Bool.and_eq_true] at hwritable
  obtain ⟨⟨⟨hfreestart, hfreecondition⟩, hfreestep⟩, hwritable⟩ := hwritable
  have hcontrol : resolveControl symbols.scope "for" (forHeader start condition step)
      = .ok (.forLoop starts resolved steps) :=
    resolveForHeader_forHeader hstarts hresolved hsteps
  have hplace := hleads.body (by decide) (balanced_forHeader hstarts hresolved hsteps)
    (isUncontrolled_forHeader hfreestart hfreecondition hfreestep) hcontrol
  obtain ⟨block, hrebuilds, hpasses⟩ :=
    hplace.passes_body (by simp) hidle hreads hwritable hinner hlines
  refine ⟨.forLoop block.line starts resolved steps block, ⟨?_, fun elseBlock => ?_⟩, hpasses⟩
  · exact congrArg (Statement.forLoop 0 starts resolved steps) hrebuilds.unnumbered_eq
  · exact Option.isSome_map.trans (hrebuilds.isSome_eq elseBlock)

theorem reads (statement : Written) : statement.Reads kind := by
  induction statement using Outline.induction with
  | expression value => exact reads_expression value
  | declaration ty name value => exact reads_declaration ty name value
  | ret value => exact reads_ret value
  | stateChange target => exact reads_stateChange target
  | jump label => exact reads_jump label
  | label name => exact reads_label name
  | block statements ih => exact reads_block ih
  | ifThen condition thenBranch ih => exact reads_ifThen ih
  | ifElse condition thenBranch elseBranch ihthen ihelse => exact reads_ifElse ihthen ihelse
  | whileLoop condition body ih => exact reads_whileLoop ih
  | doWhile statements condition ih => exact reads_doWhile ih
  | forLoop start condition step body ih => exact reads_forLoop ih
  | empty => exact reads_empty

end Outline

/-! ### Bodies -/

theorem readBody_of_hands {limit : Nat} {symbols symbols' : Symbols} {kind : BodyKind}
    {statements : List Written} {meant : List Meant} {lines : List Line}
    {source after : Source limit} (number : Nat) (hwritable : allWritable kind statements)
    (hresolve : resolveStatements symbols statements = .ok (symbols', meant))
    (hlines : lines.map Line.tokens = bodyLines statements) (hhands : source.Hands lines after) :
    ∃ block, readBody symbols kind number source = .ok ((symbols', block), after) ∧
      block.unnumbered = (OutlineBody.braced meant).block := by
  obtain ⟨inner, last, rfl, hinner, hlast⟩ := List.map_eq_append_iff.mp hlines
  obtain ⟨close, rfl, hclose⟩ := List.map_eq_singleton_iff.mp hlast
  obtain ⟨reads, hunnumbered, hpasses⟩ := passes_statements (fun s _ => s.reads) hwritable hresolve
    (show (Body.opened number).doBlock = none from rfl) hinner
  obtain ⟨place, hplace, hrun⟩ := Source.run_of_passes .none hpasses hhands
  cases hplace with
  | cons hline hnil =>
      cases hnil
      refine ⟨.mk number true reads, ?_, ?_⟩
      · rw [readBody, hrun]
        refine Source.run_of_finished .none hline ?_
        simp [Body.machine, Body.step, Body.close, Body.opened, hclose]
      · rw [Block.unnumbered, hunnumbered, OutlineBody.block]

/-- A body that is written out is read back as the block that it was written from: from any source
    that hands out its lines, wherever they come from, and so from the text of these lines if the
    expressions are texts themselves. -/
theorem readBody_rebuilds {symbols symbols' : Symbols} {kind : BodyKind}
    {statements : List Written} {meant : List Meant} (hwritable : allWritable kind statements)
    (hresolve : resolveStatements symbols statements = .ok (symbols', meant)) :
    (∀ {limit : Nat} {source after : Source limit} {lines : List Line} (number : Nat),
      lines.map Line.tokens = bodyLines statements → source.Hands lines after →
      ∃ block, readBody symbols kind number source = .ok ((symbols', block), after) ∧
        block.unnumbered = (OutlineBody.braced meant).block) ∧
    ((∀ tokens ∈ expressionsOfAll statements, Lexable tokens) → ∀ limit number, ∃ block after,
      readBody symbols kind number (Source.ofText (bodyText statements) limit)
          = .ok ((symbols', block), after) ∧
        block.unnumbered = (OutlineBody.braced meant).block) := by
  constructor
  · intro limit source after lines number hlines hhands
    exact readBody_of_hands number hwritable hresolve hlines hhands
  · intro hlexable limit number
    obtain ⟨lines, after, hhands, hlines⟩ := hands_bodyText limit hwritable hresolve hlexable
    obtain ⟨block, hread, hblock⟩ := readBody_of_hands number hwritable hresolve hlines hhands
    exact ⟨block, after, hread, hblock⟩

/-- The second else belongs to the outer `if`, for the inner one has an else already. -/
theorem readBody_rebuilds_nested_else :
    let source := Source.ofText
      "while (a) if (b) if (c) x = 1; else y = 2; else do \x7b integer z; \x7d while (d); \x7d" 0
    let statements : List Written :=
      [.whileLoop ["a"] (.single (.ifElse ["b"]
        (.single (.ifElse ["c"] (.single (.expression ["x", "=", "1"]))
          (.single (.expression ["y", "=", "2"]))))
        (.single (.doWhile [.declaration ⟨"integer", .integer, rfl⟩ "z" none] ["d"]))))]
    let symbols := (Symbols.ofDialect .standard).openScope
    allWritable .event statements ∧ (∀ tokens ∈ expressionsOfAll statements, Lexable tokens) ∧
      ∃ meant, resolveStatements symbols statements = .ok (symbols, meant) ∧
        (∃ block after, readBody symbols .event 1 source = .ok ((symbols, block), after) ∧
          block.unnumbered = (OutlineBody.braced meant).block) ∧
        ∃ block after, readBody symbols .event 1 (Source.ofText (bodyText statements) 0)
            = .ok ((symbols, block), after) ∧
          block.unnumbered = (OutlineBody.braced meant).block := by
  intro source statements symbols
  have hwritable : allWritable .event statements := by decide
  obtain ⟨meant, hresolve⟩ : ∃ meant,
      resolveStatements symbols statements = .ok (symbols, meant) := ⟨_, rfl⟩
  have hlexable : ∀ tokens ∈ expressionsOfAll statements, Lexable tokens := by
    have htexts : expressionsOfAll statements = [["a"], ["b"], ["c"], ["x", "=", "1"],
        ["y", "=", "2"], ["d"]] := rfl
    simp only [htexts, List.forall_mem_cons, List.not_mem_nil, false_implies, implies_true,
      and_true]
    exact ⟨⟨"a", [⟨1, ["a"]⟩], by decide +kernel, rfl⟩, ⟨"b", [⟨1, ["b"]⟩], by decide +kernel, rfl⟩,
      ⟨"c", [⟨1, ["c"]⟩], by decide +kernel, rfl⟩,
      ⟨"x = 1", [⟨1, ["x", "=", "1"]⟩], by decide +kernel, rfl⟩,
      ⟨"y = 2", [⟨1, ["y", "=", "2"]⟩], by decide +kernel, rfl⟩,
      ⟨"d", [⟨1, ["d"]⟩], by decide +kernel, rfl⟩⟩
  have htake : (source.take 7).map (fun (lines, _) => lines.map Line.tokens)
      = some (bodyLines statements) := by decide +kernel
  obtain ⟨⟨lines, after⟩, hlines, htokens⟩ := Option.map_eq_some_iff.mp htake
  have hrebuilds := readBody_rebuilds hwritable hresolve
  obtain ⟨block, hread, hblock⟩ := hrebuilds.1 1 htokens (Source.hands_of_take hlines)
  exact ⟨hwritable, hlexable, meant, hresolve, ⟨block, after, hread, hblock⟩,
    hrebuilds.2 hlexable 0 1⟩

end LslFront
