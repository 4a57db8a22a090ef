import LslFront.Proofs.Block.Outline
import LslFront.Proofs.Line.Writing

/-!
# The lines of outlines

A written outline whose expressions can be lexed consists of lines that can be lexed.  The tokens of
a line before the one that ends it are level: they close the parentheses that they open, so that
nothing before the end of the line ends it.
-/

namespace LslFront

/-- The tokens are those of some text. -/
def Lexable (tokens : List String) : Prop :=
  ∃ text lines, tokenize text = .ok lines ∧ tokens = lines.flatMap Line.tokens

/-- The tokens can stand in a line where `depth` parentheses are open, and leave as many open. -/
structure Level (depth : Nat) (tokens : List String) : Prop where
  lexed : ∀ token ∈ tokens, LexedToken token
  plain : ∀ token ∈ tokens, isDirective token = false
  level : tokens.foldlM lineStep depth = some depth

/-! ### Single tokens -/

theorem lexedToken_of_isIdentifier {token : String} (h : isIdentifier token) :
    LexedToken token := by
  unfold isIdentifier at h
  split at h
  · cases h
  · rename_i c rest hlist
    rw [Bool.and_eq_true, List.all_eq_true] at h
    have hfirst : isWordChar c := by
      have hstarts := h.1
      simp only [startsIdentifier, Bool.or_eq_true] at hstarts
      rcases hstarts with (halpha | hunderscore) | hdollar
      · exact isWordChar_of_isAlpha halpha
      · simp [isWordChar, hunderscore]
      · simp [isWordChar, hdollar]
    refine .word ?_ ?_
    · rintro rfl
      cases hlist
    · rw [hlist]
      exact List.forall_mem_cons.mpr ⟨hfirst, h.2⟩

theorem countsBrackets_lineStep : CountsBrackets lineStep where
  plain {token} htoken depth := by
    have hmarks : ∀ mark ∈ ["(", ")", ";", "\x7b", "\x7d"], isPlain mark = false := by decide
    simp only [List.mem_cons, List.not_mem_nil, or_false, forall_eq_or_imp, forall_eq] at hmarks
    have hne : ∀ {mark}, isPlain mark = false → token ≠ mark := by
      rintro mark hmark rfl
      rw [htoken] at hmark
      cases hmark
    simp [lineStep, hne hmarks.1, hne hmarks.2.1, hne hmarks.2.2.1, hne hmarks.2.2.2.1,
      hne hmarks.2.2.2.2]
  bracketed {opening closing inner} hpair hinner := by
    simp only [List.mem_cons, List.not_mem_nil, or_false, Prod.mk.injEq] at hpair
    rcases hpair with ⟨rfl, rfl⟩ | ⟨rfl, rfl⟩ | ⟨rfl, rfl⟩
    · exact hinner.bracketed (fun _ => rfl) (fun _ => rfl)
    · have hopening : Balanced lineStep ["["] := .token fun _ => rfl
      have hclosing : Balanced lineStep ["]"] := .token fun _ => rfl
      exact hopening.append (hinner.append hclosing)
    · have hopening : Balanced lineStep ["<"] := .token fun _ => rfl
      have hclosing : Balanced lineStep [">"] := .token fun _ => rfl
      exact hopening.append (hinner.append hclosing)

namespace Level

variable {depth : Nat} {tokens more : List String}

theorem nil : Level depth [] :=
  ⟨by simp, by simp, rfl⟩

theorem append (h : Level depth tokens) (hmore : Level depth more) :
    Level depth (tokens ++ more) where
  lexed := List.forall_mem_append.mpr ⟨h.lexed, hmore.lexed⟩
  plain := List.forall_mem_append.mpr ⟨h.plain, hmore.plain⟩
  level := by
    rw [List.foldlM_append, h.level]
    exact hmore.level

theorem token {token : String} (htoken : LexedToken token) (hplain : isDirective token = false)
    (hstep : lineStep depth token = some depth) : Level depth [token] :=
  ⟨by simpa using htoken, by simpa using hplain, by simp [hstep]⟩

theorem identifier {token : String} (h : isIdentifier token) : Level depth [token] := by
  have hwithin : isWithin token := by simp [isWithin, isPlain, h]
  exact .token (lexedToken_of_isIdentifier h) (not_isDirective_of_isWithin hwithin)
    (CountsBrackets.plain countsBrackets_lineStep (by simp [isPlain, h]) depth)

theorem parenthesized (h : Level (depth + 1) tokens) : Level depth ("(" :: (tokens ++ [")"])) where
  lexed := by
    have hopening : LexedToken "(" := .mark (by decide)
    have hclosing : LexedToken ")" := .mark (by decide)
    simpa [hopening, hclosing, or_imp, forall_and] using h.lexed
  plain := by
    have hopening : isDirective "(" = false := by decide
    have hclosing : isDirective ")" = false := by decide
    simpa [hopening, hclosing, or_imp, forall_and] using h.plain
  level := by
    have hopening : lineStep depth "(" = some (depth + 1) := rfl
    have hclosing : lineStep (depth + 1) ")" = some depth := rfl
    simp [hopening, hclosing, h.level]

theorem isLine {token : String} (h : Level 0 tokens) (hends : EndsLine 0 token) :
    IsLine 0 (tokens ++ [token]) 0 := by
  have hlast : LexedToken token ∧ isDirective token = false := by
    rcases hends with rfl | rfl | ⟨rfl, -⟩
    all_goals exact ⟨.mark (by decide), by decide⟩
  refine ⟨?_, ?_, tokens, token, rfl, h.level, hends⟩
  · exact List.forall_mem_append.mpr ⟨h.lexed, by simpa using hlast.1⟩
  · intro first hfirst
    have hplain : ∀ token' ∈ tokens ++ [token], isDirective token' = false :=
      List.forall_mem_append.mpr ⟨h.plain, by simpa using hlast.2⟩
    exact hplain first (List.mem_of_mem_head? hfirst)

end Level

/-! ### Expressions -/

section

variable {scope : Scope} {depth : Nat}

theorem level_of_resolveTokens {tokens : List String} {value : Resolved} (hlexable : Lexable tokens)
    (h : resolveTokens scope tokens = .ok value) : Level depth tokens where
  lexed := by
    obtain ⟨text, lines, hlines, rfl⟩ := hlexable
    intro token hmem
    obtain ⟨line, hline, htoken⟩ := List.mem_flatMap.mp hmem
    rcases Lexer.lexedTokens_of_lines hlines line hline with hall | hdirective
    · exact hall token htoken
    · obtain ⟨first, hhead, hdirective⟩ := (Option.any_eq_true _ _).mp hdirective
      have hfirst := List.mem_of_mem_head? hhead
      have hwithin := isWithin_of_resolveTokens h first (List.mem_flatMap.mpr ⟨line, hline, hfirst⟩)
      rw [not_isDirective_of_isWithin hwithin] at hdirective
      cases hdirective
  plain token hmem := not_isDirective_of_isWithin (isWithin_of_resolveTokens h token hmem)
  level := balanced_of_resolveTokens countsBrackets_lineStep h depth

theorem level_commaSeparated {parts : List (List String)} {values : List Resolved}
    (hlexable : ∀ part ∈ parts, Lexable part)
    (h : parts.mapM (resolveTokens scope) = .ok values) : Level depth (commaSeparated parts) := by
  have hcomma : Level depth [","] := .token (.mark (by decide)) (by decide) rfl
  refine commaSeparated_induction .nil hcomma (fun _ _ => .append) ?_
  intro part hmem
  obtain ⟨value, hvalue⟩ := exists_of_mapM_eq_ok h part hmem
  exact level_of_resolveTokens (hlexable part hmem) hvalue

theorem level_resolveOptional {condition : Option (List String)} {resolved : Option Resolved}
    (hlexable : ∀ tokens ∈ condition, Lexable tokens)
    (h : resolveOptional scope condition = .ok resolved) : Level depth (condition.getD []) := by
  cases condition with
  | none => exact .nil
  | some tokens =>
      obtain ⟨value, hvalue, -⟩ := map_eq_ok_iff.1 h
      exact level_of_resolveTokens (hlexable tokens rfl) hvalue

theorem level_forHeader {start step : List (List String)} {condition : Option (List String)}
    {starts steps : List Resolved} {resolved : Option Resolved}
    (hlexable : ∀ tokens ∈ start ++ condition.toList ++ step, Lexable tokens)
    (hstart : start.mapM (resolveTokens scope) = .ok starts)
    (hcondition : resolveOptional scope condition = .ok resolved)
    (hstep : step.mapM (resolveTokens scope) = .ok steps) :
    Level (depth + 1) (forHeader start condition step) := by
  obtain ⟨hlexable, hlast⟩ := List.forall_mem_append.mp hlexable
  obtain ⟨hfirst, hmiddle⟩ := List.forall_mem_append.mp hlexable
  have hsemicolon : Level (depth + 1) [";"] := .token (.mark (by decide)) (by decide) rfl
  have hafter := hsemicolon.append (level_commaSeparated hlast hstep)
  have hmiddle : Level (depth + 1) (condition.getD []) :=
    level_resolveOptional (by simpa using hmiddle) hcondition
  exact (level_commaSeparated hfirst hstart).append (hsemicolon.append (hmiddle.append hafter))

end

/-! ### Statements -/

mutual

def Outline.expressions {τ ε : Type} : Outline τ ε → List ε
  | .expression value => [value]
  | .declaration _ _ value => value.toList
  | .ret value => value.toList
  | .stateChange _ | .jump _ | .label _ | .empty => []
  | .block statements => expressionsOfAll statements
  | .ifThen condition thenBranch => condition :: thenBranch.expressions
  | .ifElse condition thenBranch elseBranch =>
      condition :: (thenBranch.expressions ++ elseBranch.expressions)
  | .whileLoop condition body => condition :: body.expressions
  | .doWhile statements condition => expressionsOfAll statements ++ [condition]
  | .forLoop start condition step body =>
      start ++ condition.toList ++ step ++ body.expressions

def OutlineBody.expressions {τ ε : Type} : OutlineBody τ ε → List ε
  | .braced statements => expressionsOfAll statements
  | .single statement => statement.expressions

def expressionsOfAll {τ ε : Type} : List (Outline τ ε) → List ε
  | [] => []
  | statement :: rest => statement.expressions ++ expressionsOfAll rest

end

/-- Whatever level tokens the statement is written after, its lines can be lexed. -/
def Outline.Lexes (kind : BodyKind) (statement : Written) : Prop :=
  ∀ {symbols symbols' meant before}, statement.isWritable kind →
    statement.resolve symbols = .ok meant → statement.declare symbols = .ok symbols' →
    (∀ tokens ∈ statement.expressions, Lexable tokens) → Level 0 before →
    ∀ tokens ∈ statement.lines before, IsLine 0 tokens 0

section

variable {kind : BodyKind}

theorem lexes_statements {statements : List Written} (hlexes : ∀ s ∈ statements, s.Lexes kind) :
    ∀ {symbols symbols' meant}, allWritable kind statements →
      resolveStatements symbols statements = .ok (symbols', meant) →
      (∀ tokens ∈ expressionsOfAll statements, Lexable tokens) →
      ∀ tokens ∈ linesOfAll statements, IsLine 0 tokens 0 := by
  induction statements with
  | nil =>
      intro symbols symbols' meant _ _ _ tokens hmem
      simp [linesOfAll] at hmem
  | cons statement rest ih =>
      intro symbols symbols' meant hwritable hresolve hlexable tokens hmem
      obtain ⟨hstatement, hlexes⟩ := List.forall_mem_cons.mp hlexes
      obtain ⟨hfirst, hlexable⟩ := List.forall_mem_append.mp hlexable
      simp only [allWritable, Bool.and_eq_true] at hwritable
      simp only [resolveStatements, bind_eq_ok_iff] at hresolve
      obtain ⟨first, hmeant, between, hbetween, ⟨last, others⟩, hothers, -⟩ := hresolve
      rcases List.mem_append.mp hmem with hmem | hmem
      · exact hstatement hwritable.1 hmeant hbetween hfirst .nil tokens hmem
      · exact ih hlexes hwritable.2 hothers hlexable tokens hmem

/-- The lines of a block, from the one that opens it to its brace. -/
theorem lexes_block {statements : List Written} {symbols symbols' : Symbols} {meant : List Meant}
    {before : List String} (hlexes : ∀ s ∈ statements, s.Lexes kind)
    (hwritable : allWritable kind statements)
    (hresolve : resolveStatements symbols statements = .ok (symbols', meant))
    (hlexable : ∀ tokens ∈ expressionsOfAll statements, Lexable tokens) (hbefore : Level 0 before) :
    ∀ tokens ∈ (before ++ ["\x7b"]) :: (linesOfAll statements ++ [["\x7d"]]),
      IsLine 0 tokens 0 := by
  have hclose : IsLine 0 ["\x7d"] 0 := Level.nil.isLine (.inr (.inl rfl))
  refine List.forall_mem_cons.mpr ⟨hbefore.isLine (.inl rfl), List.forall_mem_append.mpr ⟨?_, ?_⟩⟩
  · exact lexes_statements hlexes hwritable hresolve hlexable
  · simpa using hclose

theorem lexes_body {body : WrittenBody} {symbols : Symbols} {meant : MeantBody}
    {before : List String} (hlexes : ∀ s ∈ body.statements, s.Lexes kind)
    (hwritable : body.isWritable kind) (hresolve : body.resolve symbols = .ok meant)
    (hlexable : ∀ tokens ∈ body.expressions, Lexable tokens) (hbefore : Level 0 before) :
    ∀ tokens ∈ body.lines before, IsLine 0 tokens 0 := by
  cases body with
  | braced statements =>
      simp only [OutlineBody.resolve, bind_eq_ok_iff] at hresolve
      obtain ⟨⟨symbols', others⟩, hothers, -⟩ := hresolve
      exact lexes_block hlexes hwritable hothers hlexable hbefore
  | single statement =>
      simp only [OutlineBody.resolve, bind_eq_ok_iff] at hresolve
      obtain ⟨first, hfirst, -⟩ := hresolve
      simp only [OutlineBody.isWritable, Bool.and_eq_true] at hwritable
      have hdeclare := statement.declare_of_isBodied hwritable.1 symbols
      exact hlexes statement (List.mem_singleton_self _) hwritable.2 hfirst hdeclare hlexable
        hbefore

/-- What stands before the body of a statement with a condition. -/
theorem level_header (word : String) {header before : List String} (hword : isIdentifier word)
    (hheader : Level 1 header) (hbefore : Level 0 before) :
    Level 0 (before ++ word :: "(" :: header ++ [")"]) := by
  have hlevel := hbefore.append ((Level.identifier hword).append hheader.parenthesized)
  simpa using hlevel

theorem Symbols.isIdentifier_of_declare {symbols symbols' : Symbols} {name : String} {ty : Ty}
    (h : symbols.declare name ty = .ok symbols') : isIdentifier name := by
  simp only [declare, bind_eq_ok_iff] at h
  obtain ⟨_, hnew, -⟩ := h
  unfold checkNew at hnew
  split at hnew
  · assumption
  · cases hnew

theorem lexes_declaration {ty : TypeWord} {name : String} {value : Option (List String)} :
    Outline.Lexes kind (.declaration ty name value) := by
  intro symbols symbols' meant before _ hresolve hdeclare hlexable hbefore
  simp only [Outline.resolve, bind_eq_ok_iff] at hresolve
  obtain ⟨resolved, hresolved, -⟩ := hresolve
  have hname := Symbols.isIdentifier_of_declare hdeclare
  have hword : Level 0 [ty.word] := .identifier (Ty.isIdentifier_of_ofWord? ty.names)
  have hstart := hbefore.append (hword.append (.identifier hname))
  have hends : EndsLine 0 ";" := .inr (.inr ⟨rfl, rfl⟩)
  cases value with
  | none =>
      have hline := hstart.isLine hends
      simpa [Outline.lines] using hline
  | some value =>
      have hlexed : LexedToken "=" := .piece (.inr (.inl ⟨'=', rfl⟩)) (by simp [isRaw, codeMarks])
      have hequals : Level 0 ["="] := .token hlexed (by decide) rfl
      have hvalue : Level 0 value :=
        level_resolveOptional (by simpa [Outline.expressions] using hlexable) hresolved
      have hline := (hstart.append (hequals.append hvalue)).isLine hends
      simpa [Outline.lines] using hline

theorem Outline.lexes (statement : Written) : statement.Lexes kind := by
  have hends : EndsLine 0 ";" := .inr (.inr ⟨rfl, rfl⟩)
  induction statement using Outline.induction with
  | expression value =>
      intro symbols symbols' meant before _ hresolve _ hlexable hbefore
      simp only [resolve, bind_eq_ok_iff] at hresolve
      obtain ⟨resolved, hresolved, -⟩ := hresolve
      have hvalue : Level 0 value :=
        level_of_resolveTokens (hlexable value (List.mem_singleton_self _)) hresolved
      simpa [lines] using (hbefore.append hvalue).isLine hends
  | declaration ty name value => exact lexes_declaration
  | ret value =>
      intro symbols symbols' meant before _ hresolve _ hlexable hbefore
      simp only [resolve, bind_eq_ok_iff] at hresolve
      obtain ⟨resolved, hresolved, -⟩ := hresolve
      have hvalue : Level 0 (value.getD []) :=
        level_resolveOptional (by simpa [expressions] using hlexable) hresolved
      have hword : Level 0 ["return"] := .identifier (by decide)
      have hline := (hbefore.append (hword.append hvalue)).isLine hends
      cases value with
      | none => simpa [lines] using hline
      | some value => simpa [lines] using hline
  | stateChange target =>
      intro symbols symbols' meant before hwritable _ _ _ hbefore
      simp only [isWritable, Bool.and_eq_true] at hwritable
      have hword : Level 0 ["state"] := .identifier (by decide)
      have hline := (hbefore.append (hword.append (.identifier hwritable.2))).isLine hends
      simpa [lines] using hline
  | jump label =>
      intro symbols symbols' meant before hwritable _ _ _ hbefore
      have hword : Level 0 ["jump"] := .identifier (by decide)
      have hline := (hbefore.append (hword.append (.identifier hwritable))).isLine hends
      simpa [lines] using hline
  | label name =>
      intro symbols symbols' meant before hwritable _ _ _ hbefore
      have hword : Level 0 ["@"] := .token (.mark (by decide)) (by decide) rfl
      have hline := (hbefore.append (hword.append (.identifier hwritable))).isLine hends
      simpa [lines] using hline
  | block statements ih =>
      intro symbols symbols' meant before hwritable hresolve _ hlexable hbefore
      simp only [resolve, bind_eq_ok_iff] at hresolve
      obtain ⟨⟨after, inner⟩, hinner, -⟩ := hresolve
      exact lexes_block ih hwritable hinner hlexable hbefore
  | ifThen condition thenBranch ih =>
      intro symbols symbols' meant before hwritable hresolve _ hlexable hbefore
      simp only [resolve, bind_eq_ok_iff] at hresolve
      obtain ⟨resolved, hresolved, inner, hinner, -⟩ := hresolve
      simp only [isWritable, Bool.and_eq_true] at hwritable
      obtain ⟨hcondition, hlexable⟩ := List.forall_mem_cons.mp hlexable
      have hheader := level_header "if" (by decide)
        (level_of_resolveTokens hcondition hresolved) hbefore
      exact lexes_body ih hwritable.2 hinner hlexable hheader
  | ifElse condition thenBranch elseBranch ihthen ihelse =>
      intro symbols symbols' meant before hwritable hresolve _ hlexable hbefore
      simp only [resolve, bind_eq_ok_iff] at hresolve
      obtain ⟨resolved, hresolved, first, hfirst, second, hsecond, -⟩ := hresolve
      simp only [isWritable, Bool.and_eq_true] at hwritable
      obtain ⟨hcondition, hlexable⟩ := List.forall_mem_cons.mp hlexable
      obtain ⟨hlexablefirst, hlexablesecond⟩ := List.forall_mem_append.mp hlexable
      have hheader := level_header "if" (by decide)
        (level_of_resolveTokens hcondition hresolved) hbefore
      refine List.forall_mem_append.mpr ⟨?_, ?_⟩
      · exact lexes_body ihthen hwritable.1.1.2 hfirst hlexablefirst hheader
      · exact lexes_body ihelse hwritable.2 hsecond hlexablesecond (.identifier (by decide))
  | whileLoop condition body ih =>
      intro symbols symbols' meant before hwritable hresolve _ hlexable hbefore
      simp only [resolve, bind_eq_ok_iff] at hresolve
      obtain ⟨resolved, hresolved, inner, hinner, -⟩ := hresolve
      simp only [isWritable, Bool.and_eq_true] at hwritable
      obtain ⟨hcondition, hlexable⟩ := List.forall_mem_cons.mp hlexable
      have hheader := level_header "while" (by decide)
        (level_of_resolveTokens hcondition hresolved) hbefore
      exact lexes_body ih hwritable.2 hinner hlexable hheader
  | doWhile statements condition ih =>
      intro symbols symbols' meant before hwritable hresolve _ hlexable hbefore
      simp only [resolve, bind_eq_ok_iff] at hresolve
      obtain ⟨⟨after, inner⟩, hinner, resolved, hresolved, -⟩ := hresolve
      simp only [isWritable, Bool.and_eq_true] at hwritable
      obtain ⟨hlexable, hcondition⟩ := List.forall_mem_append.mp hlexable
      have hword : Level 0 ["do"] := .identifier (by decide)
      have hlines := lexes_block ih hwritable.1 hinner hlexable (hbefore.append hword)
      have htail := level_header "while" (by decide)
        (level_of_resolveTokens (hcondition condition (List.mem_singleton_self _)) hresolved) .nil
      have hwhile : IsLine 0 ("while" :: "(" :: condition ++ [")", ";"]) 0 := by
        simpa using htail.isLine hends
      have hwritten : (Outline.doWhile statements condition).lines before
          = ((before ++ ["do"] ++ ["\x7b"]) :: (linesOfAll statements ++ [["\x7d"]]))
            ++ ["while" :: "(" :: condition ++ [")", ";"]] := by
        simp [lines]
      rw [hwritten]
      exact List.forall_mem_append.mpr ⟨hlines, by simpa using hwhile⟩
  | forLoop start condition step body ih =>
      intro symbols symbols' meant before hwritable hresolve _ hlexable hbefore
      simp only [resolve, bind_eq_ok_iff] at hresolve
      obtain ⟨starts, hstarts, resolved, hresolved, steps, hsteps, inner, hinner, -⟩ := hresolve
      simp only [isWritable, Bool.and_eq_true] at hwritable
      obtain ⟨hparts, hlexable⟩ := List.forall_mem_append.mp hlexable
      have hheader := level_header "for" (by decide)
        (level_forHeader hparts hstarts hresolved hsteps) hbefore
      exact lexes_body ih hwritable.2 hinner hlexable hheader
  | empty =>
      intro symbols symbols' meant before _ _ _ _ hbefore
      simpa [lines] using hbefore.isLine hends

end

/-! ### Bodies -/

/-- The logical lines of a block after the one that opens it. -/
def bodyLines (statements : List Written) : List (List String) :=
  linesOfAll statements ++ [["\x7d"]]

/-- The text of these lines, with a blank after each token. -/
def bodyText (statements : List Written) : String :=
  String.ofList (spaced (bodyLines statements).flatten)

theorem hands_bodyText {kind : BodyKind} {symbols symbols' : Symbols} {statements : List Written}
    {meant : List Meant} (limit : Nat) (hwritable : allWritable kind statements)
    (hresolve : resolveStatements symbols statements = .ok (symbols', meant))
    (hlexable : ∀ tokens ∈ expressionsOfAll statements, Lexable tokens) :
    ∃ lines after, (Source.ofText (bodyText statements) limit).Hands lines after ∧
      lines.map Line.tokens = bodyLines statements := by
  have hclose : IsLine 0 ["\x7d"] 0 := Level.nil.isLine (.inr (.inl rfl))
  have hall : ∀ tokens ∈ bodyLines statements, IsLine 0 tokens 0 := by
    refine List.forall_mem_append.mpr ⟨?_, by simpa using hclose⟩
    exact lexes_statements (fun s _ => s.lexes) hwritable hresolve hlexable
  have hrest : (Source.ofText (bodyText statements) limit).top.rest
      = spaced (bodyLines statements).flatten := by
    simp [Source.ofText, Lexer.ofText, bodyText]
  exact Source.hands_of_isLine hall rfl (.inl hrest)

end LslFront
