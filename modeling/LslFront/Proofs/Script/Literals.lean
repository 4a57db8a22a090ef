import LslFront.Proofs.Line.Quoted
import LslFront.Proofs.Resolved.Literals
import LslFront.Proofs.Script.Failure

/-!
# Strings in scripts

Every string can be written in a script: its literal is one token, which resolves to it.  No script
has a literal that is malformed, for the lexer makes none.  The tokens of a line are resolved as it
is read, but for the initializers of globals, which wait until the script is complete; so the script
under way carries it along that there is nothing malformed in these.
-/

namespace LslFront

/-! ### Globals -/

namespace Reading

variable {symbols symbols' : Symbols} {line : Line}

/-- The globals after a line: those before it, or one more, with an initializer out of the line. -/
inductive GlobalsAfter (line : Line) (globals : Table Global) : Table Global → Prop where
  | same : GlobalsAfter line globals globals
  | declared {name global} :
      (∀ initializer ∈ global.initializer, initializer.tokens ⊆ line.tokens) →
      GlobalsAfter line globals (globals.insert name global)

theorem subset_of_splitGlobal? {tokens value : List String} {name : String}
    (h : splitGlobal? tokens = some (name, some value)) : value ⊆ tokens := by
  unfold splitGlobal? at h
  split at h
  · split at h
    · cases h
    · split at h
      · split at h
        · cases h
          refine List.subset_cons_of_subset _ (List.subset_cons_of_subset _ ?_)
          exact List.dropLast_subset _
        · cases h
      · cases h
  · cases h

theorem globalsAfter_of_readGlobal (h : readGlobal symbols line = .ok symbols') :
    GlobalsAfter line symbols.script.globals symbols'.script.globals := by
  unfold readGlobal at h
  split at h
  · cases h
  · rename_i word tokens htokens
    split at h
    · cases h
    · split at h
      · cases h
      · rename_i name value hsplit
        split at h
        · cases h
        · obtain ⟨_, -, h⟩ := bind_eq_ok_iff.1 h
          cases h
          refine .declared fun initializer hmem => ?_
          obtain ⟨tokens', rfl, rfl⟩ := Option.map_eq_some_iff.mp hmem
          rw [htokens]
          exact List.subset_cons_of_subset _ (subset_of_splitGlobal? hsplit)

theorem globals_of_readFunction {reading : Reading} (h : readFunction symbols line = .ok reading) :
    reading.symbols.script.globals = symbols.script.globals := by
  unfold readFunction at h
  obtain ⟨⟨returnType, header⟩, -, h⟩ := bind_eq_ok_iff.1 h
  obtain ⟨signature, -, h⟩ := bind_eq_ok_iff.1 h
  split at h
  · cases h
  · obtain ⟨_, -, h⟩ := bind_eq_ok_iff.1 h
    obtain ⟨symbols', henter, h⟩ := bind_eq_ok_iff.1 h
    cases h
    rw [script_of_enterBody henter]

theorem symbols_of_readState {reading : Reading} {number : Nat} {name : String}
    (h : readState symbols number name = .ok reading) : reading.symbols = symbols := by
  unfold readState at h
  split at h
  · cases h
  · split at h
    · cases h
    · split at h
      · cases h
      · cases h
        rfl

theorem symbols_of_readDefault {reading : Reading} {number : Nat}
    (h : readDefault symbols number = .ok reading) : reading.symbols = symbols := by
  unfold readDefault at h
  split at h
  · cases h
  · cases h
    rfl

theorem globalsAfter_of_readDeclaration {reading : Reading}
    (h : readDeclaration symbols line = .ok reading) :
    GlobalsAfter line symbols.script.globals reading.symbols.script.globals := by
  have hfunction (hread : readFunction symbols line = .ok reading) :
      GlobalsAfter line symbols.script.globals reading.symbols.script.globals := by
    rw [globals_of_readFunction hread]
    exact .same
  unfold readDeclaration at h
  split at h
  · cases h
  · split at h
    · split at h
      · rw [symbols_of_readDefault h]
        exact .same
      · cases h
    · split at h
      · split at h
        · split at h
          · rw [symbols_of_readState h]
            exact .same
          · cases h
        · cases h
      · split at h
        · cases h
        · split at h
          · split at h
            · exact hfunction h
            · obtain ⟨symbols', hglobal, rfl⟩ := map_eq_ok_iff.1 h
              exact globalsAfter_of_readGlobal hglobal
          · split at h
            · exact hfunction h
            · cases h

theorem globalsAfter_of_readTopLevel {next : Next Reading Script} {after : Reading}
    (h : readTopLevel symbols line = .ok next) (hgoes : GoesOn next after) :
    GlobalsAfter line symbols.script.globals after.symbols.script.globals := by
  unfold readTopLevel at h
  split at h
  · cases h
  · split at h
    · obtain ⟨⟨name, once⟩, -, h⟩ := bind_eq_ok_iff.1 h
      cases h
      rw [goesOn_splice.1 hgoes]
      exact .same
    · obtain ⟨found, hfound, rfl⟩ := map_eq_ok_iff.1 h
      rw [goesOn_more.1 hgoes]
      exact globalsAfter_of_readDeclaration hfound

/-- Only at top level does a line declare a global. -/
theorem Moves.globals_eq {before after : Reading} (h : before.Moves after)
    (hplace : before.place ≠ .topLevel) :
    after.symbols.script.globals = before.symbols.script.globals := by
  cases h with
  | includes | declaresGlobal | opensFunction | opensState => exact absurd rfl hplace
  | closesState => rfl
  | opensHandler _ henter => exact congrArg Script.globals (script_of_enterBody henter)
  | readsFunction hmoves | readsHandler hmoves => exact congrArg Script.globals hmoves.script_more
  | closesFunction hmoves hclose | closesHandler hmoves hclose =>
      have hscript := script_of_closeScope hmoves hclose
      exact congrArg (fun script => script.globals) hscript

theorem globalsAfter_of_step {reading after : Reading} {next : Next Reading Script}
    (h : reading.step line = .ok next) (hgoes : GoesOn next after) :
    GlobalsAfter line reading.symbols.script.globals after.symbols.script.globals := by
  obtain ⟨symbols, place⟩ := reading
  by_cases hplace : place = .topLevel
  · subst hplace
    exact globalsAfter_of_readTopLevel (onLine_eq_ok_iff.1 h) hgoes
  · obtain ⟨found, hfound, hmoves⟩ := moves_of_step h
    rw [hgoes.unique hfound] at hmoves
    rw [hmoves.globals_eq hplace]
    exact .same

/-! ### Initializers -/

variable {P : String → Prop}

theorem InitializersOnly.globalsAfter {before after : Table Global}
    (h : InitializersOnly P before.entries) (hline : MalformedOnly P line.tokens)
    (hafter : GlobalsAfter line before after) : InitializersOnly P after.entries := by
  cases hafter with
  | same => exact h
  | declared hinitializer =>
      rintro ⟨name, global⟩ hmem initializer hwritten
      rcases Table.mem_entries_insert hmem with hmem | ⟨-, rfl⟩
      · exact h _ hmem initializer hwritten
      · exact hline.mono (hinitializer initializer hwritten)

/-- What is carried along while lines are read in which malformed literals are of this kind. -/
structure Blameless (P : String → Prop) (reading : Reading) : Prop where
  sound : reading.Sound
  initializers : InitializersOnly P reading.symbols.script.globals.entries

theorem Blameless.step {reading after : Reading} {next : Next Reading Script}
    (h : reading.Blameless P) (hline : MalformedOnly P line.tokens)
    (hstep : reading.step line = .ok next) (hgoes : GoesOn next after) : after.Blameless P := by
  constructor
  · obtain ⟨found, hfound, hmoves⟩ := moves_of_step hstep
    rw [hgoes.unique hfound] at hmoves
    exact h.sound.step hmoves
  · exact h.initializers.globalsAfter hline (globalsAfter_of_step hstep hgoes)

theorem blameless_start (dialect : Dialect) :
    Blameless P ⟨.ofDialect dialect, .topLevel⟩ :=
  ⟨sound_start dialect, fun _ hmem => absurd hmem List.not_mem_nil⟩

end Reading

/-! ### Lexed lines -/

theorem Line.Lexed.not_isMalformed {line : Line} (h : line.Lexed) {token : String}
    (hmem : token ∈ line.tokens) : ¬ IsMalformed token := by
  obtain ⟨lexer, after, hline⟩ := h
  exact (Lexer.madeTokens_of_nextLine hline token hmem).not_isMalformed

theorem Line.Lexed.malformedOnly {P : String → Prop} {line : Line} (h : line.Lexed) :
    MalformedOnly P line.tokens :=
  fun _ hmem hmalformed => absurd hmalformed (h.not_isMalformed hmem)

/-- Whatever is compiled, no literal is to blame. -/
theorem failsOnly_compile (source : String) (options : Options) (loader : Loader) :
    FailsOnly (Fault.Blames fun _ => False) (compile source options loader) := by
  unfold compile
  refine FailsOnly.bind ?_ fun _ _ => .ok _
  refine Source.failsOnly_run (I := Reading.Blameless fun _ => False) ?_ ?_ ?_ ?_ ?_
    (Reading.blameless_start _) _
  · exact fun fault hfault => hfault.blames
  · exact fun h hlexed => Reading.blames_step h.sound hlexed.malformedOnly
  · exact fun h hlexed hstep => h.step hlexed.malformedOnly hstep (Reading.goesOn_more.2 rfl)
  · exact fun h hlexed hstep => h.step hlexed.malformedOnly hstep (Reading.goesOn_splice.2 rfl)
  · exact fun lastLine h => Reading.blames_atEnd lastLine h.initializers

/-! ### Literals -/

theorem isQuoted_literalOf {quote : Char} (hquote : quote = '"' ∨ quote = '\'') (text : String) :
    isQuoted (literalOf quote text) := by
  rcases hquote with rfl | rfl <;> simp [isQuoted, literalOf]

theorem resolveTokens_literalOf {quote : Char} (hquote : quote = '"' ∨ quote = '\'') (text : String)
    (scope : Scope) :
    resolveTokens scope [literalOf quote text] = .ok (.constant (.string text)) := by
  have hquoted := isQuoted_literalOf hquote text
  rw [resolveTokens_operand (by simp [isOperand, hquoted]), Resolved.ofToken, if_pos hquoted,
    stringOfLiteral?_literalOf hquote]

/-- Every string has a literal with either quote, which is one token and resolves to the string.
    Every quoted token of a line is a literal.  So no literal is ever malformed: neither when tokens
    of lines are resolved nor when scripts are compiled. -/
theorem strings_are_literals :
    (∀ quote : Char, quote = '"' ∨ quote = '\'' → ∀ (text : String) (scope : Scope),
      (∃ number, tokenize (literalOf quote text) = .ok [⟨number, [literalOf quote text]⟩]) ∧
        resolveTokens scope [literalOf quote text] = .ok (.constant (.string text))) ∧
    (∀ line : Line, line.Lexed → ∀ token ∈ line.tokens, isQuoted token →
      (stringOfLiteral? token).isSome) ∧
    (∀ tokens : List String, (∀ token ∈ tokens, ∃ line : Line, line.Lexed ∧ token ∈ line.tokens) →
      ∀ scope token, resolveTokens scope tokens ≠ .error (.resolution (.literal token))) ∧
    ∀ source options loader token number,
      compile source options loader ≠ .error ⟨.resolution (.literal token), number⟩ := by
  refine ⟨fun quote hquote text scope => ⟨tokenize_literalOf hquote text,
    resolveTokens_literalOf hquote text scope⟩, ?_, ?_, ?_⟩
  · intro line hlexed token hmem hquoted
    refine Option.isSome_iff_ne_none.mpr fun hnone => ?_
    exact hlexed.not_isMalformed hmem ⟨hquoted, hnone⟩
  · intro tokens hlexed scope token hliteral
    have hmalformed : MalformedOnly (fun _ => False) tokens := by
      intro token hmem hmalformed
      obtain ⟨line, hline, hmem⟩ := hlexed token hmem
      exact hline.not_isMalformed hmem hmalformed
    exact (blames_resolveTokens hmalformed _ hliteral).2 token rfl
  · intro source options loader token number hliteral
    exact (failsOnly_compile source options loader _ hliteral).2 token rfl

/-- A text with both quotes, a backslash, what looks like a comment, and a line feed; and the name of
    an include that has a quote in it. -/
theorem strings_are_literals_nested :
    let text := "a\"b\\'//\n"
    let directive : Line := ⟨1, ["#include", "\"a\"b\""]⟩
    (literalOf '"' text = "\"a\\\"b\\\\'//\n\"" ∧
      (∃ number, tokenize (literalOf '"' text) = .ok [⟨number, [literalOf '"' text]⟩]) ∧
      resolveTokens ⟨.standard, fun _ => false⟩ [literalOf '"' text]
        = .ok (.constant (.string text))) ∧
      directive.Lexed ∧ (stringOfLiteral? "\"a\"b\"").isSome ∧
      ∀ scope token, resolveTokens scope directive.tokens ≠ .error (.resolution (.literal token)) := by
  intro text directive
  have hline : (Lexer.ofText "#include <a\"b>" none).nextLine.1 = .ok (some directive) := by decide
  have hlexed : directive.Lexed := ⟨_, _, Prod.ext hline rfl⟩
  obtain ⟨hliterals, hquoted, hresolves, -⟩ := strings_are_literals
  obtain ⟨htoken, hresolved⟩ := hliterals '"' (.inl rfl) text ⟨.standard, fun _ => false⟩
  refine ⟨⟨by decide, htoken, hresolved⟩, hlexed, ?_, ?_⟩
  · exact hquoted directive hlexed "\"a\"b\"" (by decide) (by decide)
  · exact hresolves directive.tokens fun token hmem => ⟨directive, hlexed, hmem⟩

end LslFront
