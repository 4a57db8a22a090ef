import LslFront.Proofs.Block.Places
import LslFront.Proofs.Dialect.Position
import LslFront.Proofs.Script.Alone
import LslFront.Proofs.Script.Bodies
import LslFront.Proofs.Script.Exchange
import LslFront.Proofs.Source.Numbers

/-!
# Globals in any order

Global variables that are declared next to each other can be declared in any order.  The name of
each is checked against those before it, but what is asked of all of them is the same in every
order; the rest of the script is read alike when the table has another order; and initializers are
resolved when all globals are known.  So the script is the same but for the order of the table.

The declarations stand on one source line, for a global keeps the number of its line, and the next
begins where one ends: nothing is left open between them.
-/

namespace LslFront

/-! ### Declarations -/

/-- What follows the name in a declaration of a global variable. -/
def initializerTokens : Option (List String) → List String
  | none => [";"]
  | some value => "=" :: (value ++ [";"])

/-- A declaration of a global variable, as it is written on one source line with blanks and comments
    around it, and as it is understood. -/
structure GlobalDeclaration where
  text : String
  word : String
  ty : Ty
  name : String
  value : Option (List String)
  typed : Ty.ofWord? word = some ty
  valued : value ≠ some []
  onOneLine : '\n' ∉ text.toList
  settled : LeavesNothingOpen text
  reads : ∃ number, tokenize text = .ok [⟨number, word :: name :: initializerTokens value⟩]

namespace GlobalDeclaration

variable (declaration : GlobalDeclaration)

/-- The logical line of the declaration, on a source line. -/
def line (number : Nat) : Line :=
  ⟨number, declaration.word :: declaration.name :: initializerTokens declaration.value⟩

/-- The entry that it makes in the table of globals. -/
def entry (number : Nat) : String × Global :=
  (declaration.name,
    ⟨declaration.ty, number, declaration.value.map (Line.mk number), none⟩)

theorem splitGlobal?_eq : Reading.splitGlobal?
    (declaration.name :: initializerTokens declaration.value)
      = some (declaration.name, declaration.value) := by
  cases hvalue : declaration.value with
  | none => simp [Reading.splitGlobal?, initializerTokens]
  | some value =>
      have hne : value ≠ [] := fun hnil => declaration.valued (by rw [hvalue, hnil])
      simp [Reading.splitGlobal?, initializerTokens, List.length_pos_iff.mpr hne]

theorem global?_line (number : Nat) :
    (declaration.line number).global? = some (declaration.entry number) := by
  simp [Line.global?, line, declaration.typed, splitGlobal?_eq, entry]

/-- A line that begins with a type, and has no parenthesis after the name, declares a global
    variable. -/
theorem step_line (symbols : Symbols) (number : Nat) :
    Reading.step ⟨symbols, .topLevel⟩ (declaration.line number)
      = onLine number ((Reading.readGlobal symbols (declaration.line number)).map
          fun symbols => .more ⟨symbols, .topLevel⟩) := by
  have hother : ∀ word, Ty.ofWord? word = none → declaration.word ≠ word := by
    rintro word hnone rfl
    cases hnone.symm.trans declaration.typed
  have hcall : (declaration.name :: initializerTokens declaration.value)[1]? ≠ some "(" := by
    cases declaration.value <;> simp [initializerTokens]
  have hread : Reading.readDeclaration symbols (declaration.line number)
      = (Reading.readGlobal symbols (declaration.line number)).map (Reading.mk · .topLevel) := by
    simp only [Reading.readDeclaration, line, if_neg (hother "default" rfl),
      if_neg (hother "state" rfl), if_neg (hother "\x7d" rfl), declaration.typed, Option.isSome_some,
      if_true, if_neg hcall]
  simp only [Reading.step, Reading.readTopLevel, hread]
  simp only [line, (not_mem_of_ofWord? declaration.typed).2]
  cases Reading.readGlobal symbols _ <;> rfl

theorem step_line_eq_ok_iff {reading next : Reading} {number : Nat}
    (hplace : reading.place = .topLevel) :
    reading.step (declaration.line number) = .ok (.more next) ↔
      Reading.hasStates reading.symbols = false ∧
        reading.symbols.checkNew declaration.name = .ok () ∧
        reading.withGlobals (reading.symbols.script.globals.insert declaration.name
          (declaration.entry number).2) = next := by
  obtain ⟨symbols, place⟩ := reading
  obtain rfl : place = .topLevel := hplace
  simp [step_line, onLine_eq_ok_iff, Reading.readGlobal_eq_ok_iff, global?_line, entry,
    Reading.withGlobals, and_assoc]

end GlobalDeclaration

/-- A name is new after another has been declared if it was new before and is not the same. -/
theorem Symbols.checkNew_insert_eq_ok_iff {symbols : Symbols} {name other : String} {global : Global}
    (hnew : symbols.checkNew name = .ok ()) :
    (symbols.withGlobals (symbols.script.globals.insert name global)).checkNew other = .ok () ↔
      symbols.checkNew other = .ok () ∧ other ≠ name := by
  have hnames := Table.names_insert_of_notMem (checkNew_eq_ok_iff.1 hnew).1.notGlobal global
  have hglobals : other ∉ (symbols.script.globals.insert name global).names ↔
      other ∉ symbols.script.globals.names ∧ other ≠ name := by
    rw [hnames, List.mem_append, List.mem_singleton, not_or]
  simp only [checkNew_eq_ok_iff]
  constructor
  · rintro ⟨⟨husable, hglobal, hfunction⟩, hscope⟩
    obtain ⟨hglobal, hne⟩ := hglobals.mp hglobal
    exact ⟨⟨⟨husable, hglobal, hfunction⟩, hscope⟩, hne⟩
  · rintro ⟨⟨⟨husable, hglobal, hfunction⟩, hscope⟩, hne⟩
    exact ⟨⟨husable, hglobals.mpr ⟨hglobal, hne⟩, hfunction⟩, hscope⟩

namespace Reading

/-- Declarations are accepted if no state has been declared and their names are new and differ. -/
theorem passes_declarations_iff {declarations : List GlobalDeclaration} {number : Nat}
    {reading final : Reading} (hplace : reading.place = .topLevel) :
    machine.Passes reading (declarations.map (·.line number)) final ↔
      (∀ declaration ∈ declarations, hasStates reading.symbols = false ∧
        reading.symbols.checkNew declaration.name = .ok ()) ∧
      (declarations.map (·.name)).Nodup ∧
      reading.withGlobals ⟨reading.symbols.script.globals.entries
        ++ declarations.map (·.entry number)⟩ = final := by
  induction declarations generalizing reading with
  | nil =>
      have hself : reading.withGlobals ⟨reading.symbols.script.globals.entries ++ []⟩ = reading := by
        rw [List.append_nil]
        rfl
      simp only [List.map_nil, hself]
      constructor
      · rintro ⟨⟩
        simp
      · rintro ⟨-, -, rfl⟩
        exact .nil
  | cons declaration rest ih =>
      simp only [List.map_cons, List.forall_mem_cons, List.nodup_cons]
      let inserted := reading.symbols.script.globals.insert declaration.name
        (declaration.entry number).2
      have hrest := @ih (reading.withGlobals inserted) hplace
      have hfinal : reading.symbols.checkNew declaration.name = .ok () →
          reading.withGlobals ⟨inserted.entries ++ rest.map (·.entry number)⟩
            = reading.withGlobals ⟨reading.symbols.script.globals.entries
                ++ declaration.entry number :: rest.map (·.entry number)⟩ := by
        intro hnew
        have hadmits := (Symbols.checkNew_eq_ok_iff.1 hnew).1
        rw [show inserted.entries = _ from Table.entries_insert hadmits.notGlobal _,
          List.append_assoc]
        rfl
      constructor
      · rintro (_ | ⟨hstep, hpasses⟩)
        obtain ⟨hstates, hnew, rfl⟩ := (declaration.step_line_eq_ok_iff hplace).mp hstep
        obtain ⟨hothers, hnodup, rfl⟩ := hrest.mp hpasses
        have hothers' := fun other hmem =>
          (Symbols.checkNew_insert_eq_ok_iff hnew).mp (hothers other hmem).2
        refine ⟨⟨⟨hstates, hnew⟩, fun other hmem => ⟨hstates, (hothers' other hmem).1⟩⟩,
          ⟨?_, hnodup⟩, ?_⟩
        · intro hmem
          obtain ⟨other, hother, hname⟩ := List.mem_map.mp hmem
          exact (hothers' other hother).2 hname
        · exact (hfinal hnew).symm
      · rintro ⟨⟨⟨hstates, hnew⟩, hothers⟩, ⟨hdiffers, hnodup⟩, rfl⟩
        have hstep : reading.step (declaration.line number) = .ok (.more (reading.withGlobals inserted)) :=
          (declaration.step_line_eq_ok_iff hplace).mpr ⟨hstates, hnew, rfl⟩
        refine .cons hstep (hrest.mpr ⟨fun other hmem => ⟨hstates, ?_⟩, hnodup, ?_⟩)
        · refine (Symbols.checkNew_insert_eq_ok_iff hnew).mpr ⟨(hothers other hmem).2, ?_⟩
          rintro hname
          exact hdiffers (hname ▸ List.mem_map_of_mem hmem)
        · exact hfinal hnew

end Reading

/-! ### Declarations as they are written -/

/-- The first line of a text without line feeds is on source line 1. -/
theorem number_of_tokenize {text : String} {line : Line} {lines : List Line}
    (h : tokenize text = .ok (line :: lines)) (hfeed : '\n' ∉ text.toList) : line.number = 1 := by
  obtain ⟨after, hnext⟩ := Lexer.exists_nextLine_of_lines h
  have hreads : (Lexer.ofText text none).Reads {text} := Lexer.reads_ofText (Set.mem_singleton text) none
  obtain ⟨hfirst, _, rfl, hlast⟩ := (hreads.nextLine hnext).2.line line rfl
  rw [List.count_eq_zero.mpr hfeed] at hlast
  omega

namespace GlobalDeclaration

theorem tokenize_text (declaration : GlobalDeclaration) :
    tokenize declaration.text = .ok [declaration.line 1] := by
  obtain ⟨number, htokenize⟩ := declaration.reads
  obtain rfl : number = 1 := number_of_tokenize htokenize declaration.onOneLine
  exact htokenize

/-- Declarations as they are written, one after the other. -/
def written : List GlobalDeclaration → String
  | [] => ""
  | declaration :: rest => declaration.text ++ written rest

variable {declarations : List GlobalDeclaration}

theorem lineFeed_notMem_written : '\n' ∉ (written declarations).toList := by
  induction declarations with
  | nil => simp [written]
  | cons declaration rest ih => simp [written, declaration.onOneLine, ih]

theorem settled_written : LeavesNothingOpen (written declarations) := by
  induction declarations with
  | nil => exact leavesNothingOpen_empty
  | cons declaration rest ih => exact declaration.settled.append ih

theorem tokenize_written_eq_ok_iff {after : String} {all : List Line} :
    tokenize (written declarations ++ after) = .ok all ↔ ∃ others, tokenize after = .ok others ∧
      declarations.map (·.line 1) ++ others = all := by
  induction declarations generalizing all with
  | nil => simp [written]
  | cons declaration rest ih =>
      have hfeeds := List.count_eq_zero.mpr declaration.onOneLine
      have hshift : Line.shifted 0 = id := rfl
      rw [written, String.append_assoc,
        tokenize_append_eq_ok_iff declaration.settled declaration.tokenize_text, hfeeds, hshift]
      simp [ih]

/-- Declarations give their lines between those of what stands around them. -/
theorem tokenize_between_eq_ok_iff {before after : String} {lines all : List Line}
    (hsettled : LeavesNothingOpen before) (hlines : tokenize before = .ok lines) :
    tokenize (before ++ written declarations ++ after) = .ok all ↔
      ∃ others, tokenize after = .ok others ∧
        lines ++ (declarations.map (·.line (numberAfter before.toList))
          ++ others.map (Line.shifted (before.toList.count '\n'))) = all := by
  rw [String.append_assoc, tokenize_append_eq_ok_iff hsettled hlines]
  simp [tokenize_written_eq_ok_iff, Function.comp_def, Line.shifted, line, numberAfter]

/-- The order of declarations has no part in the dialect. -/
theorem directives_permuted {before : String} {others : List GlobalDeclaration}
    (hsettled : LeavesNothingOpen before) (hperm : declarations.Perm others) (after : String) :
    Directives.ofSource (before ++ written declarations ++ after)
      = Directives.ofSource (before ++ written others ++ after) := by
  by_cases hnil : declarations = []
  · obtain rfl := hnil
    rw [List.nil_perm.mp hperm]
  · have hlines : ∀ these : List GlobalDeclaration, these ≠ [] →
        tokenize (before ++ written these) ≠ .ok [] := by
      intro these hne hempty
      have ⟨lines, _, hlines, _⟩ := hsettled
      rw [← String.append_empty (s := before ++ written these),
        tokenize_between_eq_ok_iff hsettled hlines] at hempty
      obtain ⟨_, -, hempty⟩ := hempty
      obtain ⟨-, hdeclared, -⟩ := by simpa only [List.append_eq_nil_iff] using hempty
      exact hne (List.map_eq_nil_iff.mp hdeclared)
    have hothers : others ≠ [] := fun hnone => hnil (List.perm_nil.mp (hnone ▸ hperm))
    rw [Directives.ofSource, leadingLines_exchange (hsettled.append settled_written)
      (hsettled.append settled_written) (hlines _ hnil) (hlines _ hothers)
      lineFeed_notMem_written lineFeed_notMem_written after]
    rfl

end GlobalDeclaration

/-! ### Whole scripts -/

theorem Machine.Passes.reaches {σ ρ : Type} {machine : Machine σ ρ} {start state final : σ}
    {lines : List Line} (h : machine.Passes state lines final)
    (hstart : machine.Reaches start state) : machine.Reaches start final := by
  induction h with
  | nil => exact hstart
  | cons hstep _ ih => exact ih (hstart.more hstep)

theorem Reading.Reached.scopes_eq_nil {dialect : Dialect} {reading : Reading}
    (h : reading.Reached dialect) (hplace : reading.place = .topLevel) :
    reading.symbols.scopes = [] := by
  have hplaced := h.sound.placed
  obtain ⟨symbols, place⟩ := reading
  obtain rfl : place = .topLevel := hplace
  exact hplaced

/-- A script is at top level behind a text that leaves nothing open. -/
structure AtTopLevel (dialect : Dialect) (before : String) : Prop where
  settled : LeavesNothingOpen before
  place : ∀ lines reading, tokenize before = .ok lines →
    Reading.machine.Passes ⟨.ofDialect dialect, .topLevel⟩ lines reading →
      reading.place = .topLevel

open GlobalDeclaration

/-- Declarations in another order give the same script, but for the order of their entries. -/
theorem exists_compile_of_perm {before after : String} {options : Options} {script : Script}
    {declarations others : List GlobalDeclaration} (hperm : declarations.Perm others)
    (hplace : AtTopLevel ((Directives.ofSource (before ++ written declarations ++ after)).accepted
      options.baseline) before)
    (h : compile (before ++ written declarations ++ after) options .none = .ok script) :
    ∃ front back,
      script.globals.entries = front
        ++ (declarations.map (·.entry (numberAfter before.toList))).map (resolvedEntry script.scope)
        ++ back ∧
      compile (before ++ written others ++ after) options .none = .ok { script with globals := ⟨front
        ++ (others.map (·.entry (numberAfter before.toList))).map (resolvedEntry script.scope)
        ++ back⟩ } := by
  let number := numberAfter before.toList
  obtain ⟨lines, final, hlines, hpasses, hcompletes⟩ := compile_eq_ok_iff.1 h
  have ⟨above, _, habove, _⟩ := hplace.settled
  obtain ⟨below, hbelow, rfl⟩ := (tokenize_between_eq_ok_iff hplace.settled habove).mp hlines
  obtain ⟨reading, hreading, hrest⟩ := hpasses.exists_of_append
  obtain ⟨declared, hdeclared, hbehind⟩ := hrest.exists_of_append
  have hhere := hplace.place above reading habove hreading
  -- What is asked of the declarations is the same in the other order.
  obtain ⟨hnew, hnodup, rfl⟩ := (Reading.passes_declarations_iff hhere).mp hdeclared
  have hothers : Reading.machine.Passes reading (others.map (·.line number)) _ :=
    (Reading.passes_declarations_iff hhere).mpr ⟨fun other hmem => hnew other (hperm.mem_iff.mpr hmem),
      (hperm.map _).nodup_iff.mp hnodup, rfl⟩
  have hblocks := hperm.map (·.entry number)
  have hexchanged : Reading.Exchanged (declarations.map (·.entry number))
      (others.map (·.entry number)) (reading.withGlobals _) (reading.withGlobals _) :=
    ⟨reading.symbols.script.globals.entries, [], (List.append_nil _).symm,
      by rw [List.append_nil]; rfl⟩
  obtain ⟨final', hbehind', hfinal⟩ := hexchanged.exists_passes hblocks hbehind
  have hreached : final.Reached _ := hpasses.reaches .start
  obtain ⟨front, back, hentries, hcompletes'⟩ := hfinal.exists_completes hblocks
    (hreached.scopes_eq_nil hcompletes.place) hcompletes
  refine ⟨front, back, hentries, compile_eq_ok_iff.2 ⟨_, final',
    (tokenize_between_eq_ok_iff hplace.settled habove).mpr ⟨below, hbelow, rfl⟩, ?_, hcompletes'⟩⟩
  rw [← directives_permuted hplace.settled hperm]
  exact hreading.append (hothers.append hbehind')

/-- Global variables that are declared next to each other, on one source line at top level, can be
    declared in any order: a script that includes nothing is compiled in each of them or in none,
    and the scripts are the same but for the order of these globals.  What an initializer mentions
    may be declared before or after it. -/
theorem compile_globals_permuted {before after : String} {options : Options}
    {declarations others : List GlobalDeclaration} (hperm : declarations.Perm others)
    (hplace : AtTopLevel ((Directives.ofSource (before ++ written declarations ++ after)).accepted
      options.baseline) before) :
    ((∃ script, compile (before ++ written declarations ++ after) options .none = .ok script) ↔
      ∃ script, compile (before ++ written others ++ after) options .none = .ok script) ∧
    ∀ script, compile (before ++ written declarations ++ after) options .none = .ok script →
      ∃ front back,
        script.globals.entries = front
          ++ (declarations.map (·.entry (numberAfter before.toList))).map
            (resolvedEntry script.scope) ++ back ∧
        compile (before ++ written others ++ after) options .none
          = .ok { script with globals := ⟨front
              ++ (others.map (·.entry (numberAfter before.toList))).map
                (resolvedEntry script.scope) ++ back⟩ } := by
  refine ⟨⟨?_, ?_⟩, fun script h => exists_compile_of_perm hperm hplace h⟩
  · rintro ⟨script, h⟩
    obtain ⟨_, _, -, hothers⟩ := exists_compile_of_perm hperm hplace h
    exact ⟨_, hothers⟩
  · rintro ⟨script, h⟩
    rw [directives_permuted hplace.settled hperm] at hplace
    obtain ⟨_, _, -, hdeclarations⟩ := exists_compile_of_perm hperm.symm hplace h
    exact ⟨_, hdeclarations⟩

/-- The initializer of `x` mentions `y`, which is declared behind it or before it. -/
theorem compile_globals_permuted_swapped :
    let before := "// globals\n"
    let after := "\ndefault \x7b timer() \x7b \x7d \x7d"
    ∃ script front back x y,
      compile (before ++ "integer x = y + 1;" ++ " integer y = 2;" ++ after) .standard .none
        = .ok script ∧
      script.globals.entries = front ++ [("x", x), ("y", y)] ++ back ∧
      compile (before ++ " integer y = 2;" ++ "integer x = y + 1;" ++ after) .standard .none
        = .ok { script with globals := ⟨front ++ [("y", y), ("x", x)] ++ back⟩ } := by
  intro before after
  let x : GlobalDeclaration :=
    { text := "integer x = y + 1;", word := "integer", ty := .integer, name := "x"
      value := some ["y", "+", "1"], typed := rfl, valued := by simp, onOneLine := by decide
      settled := ⟨[⟨1, ["integer", "x", "=", "y", "+", "1", ";"]⟩], 1, by decide +kernel,
        by decide +kernel⟩
      reads := ⟨1, by decide +kernel⟩ }
  let y : GlobalDeclaration :=
    { text := " integer y = 2;", word := "integer", ty := .integer, name := "y"
      value := some ["2"], typed := rfl, valued := by simp, onOneLine := by decide
      settled := ⟨[⟨1, ["integer", "y", "=", "2", ";"]⟩], 1, by decide +kernel, by decide +kernel⟩
      reads := ⟨1, by decide +kernel⟩ }
  have hplace (dialect : Dialect) : AtTopLevel dialect before := by
    have hnone : tokenize before = .ok [] := by decide +kernel
    refine ⟨⟨[], 2, hnone, by decide +kernel⟩, ?_⟩
    intro lines reading hlines hpasses
    cases hnone.symm.trans hlines
    cases hpasses
    rfl
  have hfirst : before ++ written [x, y] ++ after
      = before ++ "integer x = y + 1;" ++ " integer y = 2;" ++ after := by
    simp [written, x, y, String.append_assoc]
  have hsecond : before ++ written [y, x] ++ after
      = before ++ " integer y = 2;" ++ "integer x = y + 1;" ++ after := by
    simp [written, x, y, String.append_assoc]
  have hcomputed : ((compileFor 10 (before ++ "integer x = y + 1;" ++ " integer y = 2;" ++ after)
      .standard .none).bind Except.toOption).map (·.globals.names) = some ["x", "y"] := by
    decide +kernel
  obtain ⟨script, hcompile, -⟩ := exists_of_compileFor hcomputed
  obtain ⟨-, hpermuted⟩ := compile_globals_permuted (List.Perm.swap y x [])
    (hplace ((Directives.ofSource (before ++ written [x, y] ++ after)).accepted
      Options.standard.baseline))
  rw [hfirst, hsecond] at hpermuted
  obtain ⟨front, back, hentries, hswapped⟩ := hpermuted script hcompile
  exact ⟨script, front, back, _, _, hcompile, hentries, hswapped⟩

end LslFront
