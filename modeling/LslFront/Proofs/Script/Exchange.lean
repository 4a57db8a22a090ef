import LslFront.Proofs.Script.Alone

/-!
# Globals in another order

While a script is being read, its global variables are asked for by name only: whether a name is new,
and whether it is a variable.  So a table with the same names can stand in their place, and every
step is the same but for that table, which `withGlobals` names.  Initializers wait until the end, and
by then it does not matter either in which order they stand.
-/

namespace LslFront

section

variable {α β γ ε : Type}

theorem map_bind (first : Except ε α) (next : α → Except ε β) (f : β → γ) :
    (first >>= next).map f = first >>= fun a => (next a).map f := by
  cases first <;> rfl

theorem bind_of_map (first : Except ε α) (f : α → β) (next : β → Except ε γ) :
    first.map f >>= next = first >>= fun a => next (f a) := by
  cases first <;> rfl

theorem onLine_map (line : Nat) (result : Except Cause α) (f : α → β) :
    onLine line (result.map f) = (onLine line result).map f := by
  cases result <;> rfl

end

/-- Each name is in both tables or in neither. -/
def Table.SameNames {α : Type} (table other : Table α) : Prop :=
  ∀ name, table.contains name = other.contains name

/-! ### Symbols -/

namespace Symbols

def withGlobals (symbols : Symbols) (globals : Table Global) : Symbols :=
  { symbols with script := { symbols.script with globals } }

variable {symbols : Symbols} {globals : Table Global}

theorem closeScope_withGlobals : (symbols.withGlobals globals).closeScope
    = symbols.closeScope.map (·.withGlobals globals) := by
  obtain ⟨script, scopes⟩ := symbols
  cases scopes <;> rfl

section

variable (h : globals.SameNames symbols.script.globals)
include h

theorem scope_withGlobals : (symbols.withGlobals globals).scope = symbols.scope := by
  have hvariable : (symbols.withGlobals globals).isVariable = symbols.isVariable := by
    funext name
    exact congrArg _ (h name)
  rw [scope, hvariable]
  rfl

theorem checkNew_withGlobals (name : String) :
    (symbols.withGlobals globals).checkNew name = symbols.checkNew name := by
  have hholder : (symbols.withGlobals globals).holder? name = symbols.holder? name := by
    unfold holder?
    rw [show (symbols.withGlobals globals).script.globals = globals from rfl, h name]
    rfl
  rw [checkNew, hholder]
  rfl

theorem declare_withGlobals (name : String) (ty : Ty) :
    (symbols.withGlobals globals).declare name ty
      = (symbols.declare name ty).map (·.withGlobals globals) := by
  rw [declare, checkNew_withGlobals h, declare, map_bind]
  obtain ⟨script, scopes⟩ := symbols
  cases scopes <;> rfl

theorem declareAll_withGlobals (params : List Parameter) :
    (symbols.withGlobals globals).declareAll params
      = (symbols.declareAll params).map (·.withGlobals globals) := by
  induction params generalizing symbols with
  | nil => rfl
  | cons param rest ih =>
      rw [declareAll, declare_withGlobals h, bind_of_map, declareAll, map_bind]
      cases hdeclare : symbols.declare param.name param.ty with
      | error cause => rfl
      | ok next =>
          refine ih ?_
          rw [script_declare hdeclare]
          exact h

end

end Symbols

/-! ### Bodies -/

namespace Body

variable {symbols : Symbols} {globals : Table Global} {body : Body} {kind : BodyKind} {line : Line}

def Progress.withGlobals (globals : Table Global) : Progress → Progress
  | .more symbols body => .more (symbols.withGlobals globals) body
  | .finished symbols block => .finished (symbols.withGlobals globals) block

theorem close_withGlobals : body.close (symbols.withGlobals globals)
    = (body.close symbols).map (Progress.withGlobals globals) := by
  obtain ⟨line, statements, waiting, doBlock⟩ := body
  cases waiting with
  | nil => rfl
  | cons outer others =>
      simp only [close, Symbols.closeScope_withGlobals, onLine_map, bind_of_map, map_bind]
      congr 1
      funext closed
      split <;> rfl

variable (h : globals.SameNames symbols.script.globals)
include h

theorem closeDo_withGlobals (hole : Hole) (block : Block) (tokens : List String) :
    body.closeDo (symbols.withGlobals globals) hole block tokens
      = (body.closeDo symbols hole block tokens).map (Progress.withGlobals globals) := by
  unfold closeDo
  rw [Symbols.scope_withGlobals h]
  split
  · rfl
  · split
    · rw [map_bind]
      congr 1
      funext parts
      obtain ⟨header, after⟩ := parts
      simp only
      split
      · rw [map_bind]
        rfl
      · rfl
    · rfl

theorem apply_withGlobals (number : Nat) (effect : Effect) :
    body.apply (symbols.withGlobals globals) number effect
      = (body.apply symbols number effect).map (Progress.withGlobals globals) := by
  cases effect with
  | declares ty name value =>
      rw [apply, apply, Symbols.declare_withGlobals h, bind_of_map, map_bind]
      rfl
  | _ => rfl

theorem readStatement_withGlobals : body.readStatement (symbols.withGlobals globals) kind line
    = (body.readStatement symbols kind line).map (Progress.withGlobals globals) := by
  unfold readStatement
  rw [Symbols.scope_withGlobals h]
  simp only [apply_withGlobals h]
  split
  · split
    · exact (map_bind _ _ _).symm
    · rfl
  · exact (map_bind _ _ _).symm

theorem step_withGlobals : body.step (symbols.withGlobals globals) kind line
    = (body.step symbols kind line).map (Progress.withGlobals globals) := by
  unfold step
  split
  · rw [closeDo_withGlobals h, onLine_map]
  · split
    · exact close_withGlobals
    · rw [readStatement_withGlobals h, onLine_map]

end Body

/-! ### Lines -/

/-- The global variable that a line declares, by its name. -/
def Line.global? (line : Line) : Option (String × Global) :=
  match line.tokens with
  | [] => none
  | word :: tokens => do
      let ty ← Ty.ofWord? word
      let (name, value) ← Reading.splitGlobal? tokens
      return (name, ⟨ty, line.number, value.map (Line.mk line.number), none⟩)

namespace Reading

def withGlobals (reading : Reading) (globals : Table Global) : Reading :=
  { reading with symbols := reading.symbols.withGlobals globals }

variable {symbols symbols' : Symbols} {globals : Table Global} {line : Line}

theorem readGlobal_eq_ok_iff : readGlobal symbols line = .ok symbols' ↔
    ∃ name global, line.global? = some (name, global) ∧ hasStates symbols = false ∧
      symbols.checkNew name = .ok () ∧
      symbols' = symbols.withGlobals (symbols.script.globals.insert name global) := by
  unfold readGlobal Line.global?
  cases line.tokens with
  | nil => simp
  | cons word tokens =>
      simp only
      cases Ty.ofWord? word with
      | none => simp
      | some ty =>
          cases hsplit : splitGlobal? tokens with
          | none => simp [refuse]
          | some found =>
              obtain ⟨name, value⟩ := found
              cases hstates : hasStates symbols with
              | true => simp [refuse]
              | false =>
                  cases hnew : symbols.checkNew name with
                  | error cause => simp [hnew]
                  | ok done => simp [hnew, Symbols.withGlobals, @eq_comm _ symbols']

theorem finishState_withGlobals (state : OpenState) :
    finishState (symbols.withGlobals globals) state
      = (finishState symbols state).map (·.withGlobals globals) := by
  unfold finishState
  split <;> rfl

theorem readDefault_withGlobals (number : Nat) :
    readDefault (symbols.withGlobals globals) number
      = (readDefault symbols number).map (·.withGlobals globals) := by
  unfold readDefault
  rw [show (symbols.withGlobals globals).script.states = symbols.script.states from rfl]
  split <;> rfl

theorem readState_withGlobals (number : Nat) (name : String) :
    readState (symbols.withGlobals globals) number name
      = (readState symbols number name).map (·.withGlobals globals) := by
  unfold readState
  rw [show (symbols.withGlobals globals).script.states = symbols.script.states from rfl]
  split
  · rfl
  · split
    · rfl
    · split <;> rfl

section

variable (h : globals.SameNames symbols.script.globals)
include h

theorem enterBody_withGlobals (params : List Parameter) :
    enterBody (symbols.withGlobals globals) params
      = (enterBody symbols params).map (·.withGlobals globals) :=
  symbols.openScope.declareAll_withGlobals h params

theorem readFunction_withGlobals : readFunction (symbols.withGlobals globals) line
    = (readFunction symbols line).map (·.withGlobals globals) := by
  unfold readFunction
  rw [map_bind]
  congr 1
  funext parts
  obtain ⟨returnType, header⟩ := parts
  simp only
  rw [map_bind]
  congr 1
  funext signature
  rw [show hasStates (symbols.withGlobals globals) = hasStates symbols from rfl,
    Symbols.checkNew_withGlobals h]
  split
  · rfl
  · rw [map_bind]
    congr 1
    funext _
    let entered : Symbols :=
      { symbols with script := { symbols.script with
        functions := symbols.script.functions.insert signature.name
          ⟨returnType, signature.params, .bare line.number, line.number⟩ } }
    have henter := @enterBody_withGlobals entered globals h signature.params
    rw [map_bind]
    exact (congrArg (· >>= _) henter).trans (bind_of_map _ _ _)

theorem readHandler_withGlobals (state : OpenState) :
    readHandler (symbols.withGlobals globals) state line
      = (readHandler symbols state line).map (·.withGlobals globals) := by
  unfold readHandler
  split
  · rfl
  · split
    · rfl
    · simp only
      split
      · rw [enterBody_withGlobals h, bind_of_map, map_bind]
        rfl
      · rfl

end

/-- A line at top level declares a global variable, or it is read alike with other globals. -/
theorem readDeclaration_cases (line : Line) :
    (∀ symbols, readDeclaration symbols line = (readGlobal symbols line).map (mk · .topLevel)) ∨
      ∀ symbols globals, globals.SameNames symbols.script.globals →
        readDeclaration (symbols.withGlobals globals) line
          = (readDeclaration symbols line).map (·.withGlobals globals) := by
  unfold readDeclaration
  cases line.tokens with
  | nil => exact .inr fun _ _ _ => rfl
  | cons first rest =>
      by_cases hglobal : (first ≠ "default" ∧ first ≠ "state" ∧ first ≠ "\x7d") ∧
          (Ty.ofWord? first).isSome ∧ rest[1]? ≠ some "("
      · left
        intro symbols
        simp [hglobal]
      · right
        intro symbols globals h
        simp only
        split
        · split
          · exact readDefault_withGlobals line.number
          · rfl
        · split
          · split
            · split
              · exact readState_withGlobals line.number _
              · rfl
            · rfl
          · split
            · rfl
            · split
              · split
                · exact readFunction_withGlobals h
                · rename_i hdefault hstate hbrace hty hcall
                  exact absurd ⟨⟨hdefault, hstate, hbrace⟩, hty, hcall⟩ hglobal
              · split
                · exact readFunction_withGlobals h
                · rfl

end Reading

def Next.withGlobals (globals : Table Global) : Next Reading Script → Next Reading Script
  | .more reading => .more (reading.withGlobals globals)
  | .splice reading name once => .splice (reading.withGlobals globals) name once
  | .finished script => .finished script

namespace Reading

theorem readTopLevel_cases (line : Line) :
    (∀ symbols, readTopLevel symbols line
        = (readGlobal symbols line).map fun symbols => .more ⟨symbols, .topLevel⟩) ∨
      ∀ symbols globals, globals.SameNames symbols.script.globals →
        readTopLevel (symbols.withGlobals globals) line
          = (readTopLevel symbols line).map (Next.withGlobals globals) := by
  unfold readTopLevel
  cases line.tokens with
  | nil => exact .inr fun _ _ _ => rfl
  | cons word rest =>
      by_cases hdirective : isDirective word
      · right
        intro symbols globals _
        simp only [if_pos hdirective, map_bind]
        rfl
      · simp only [if_neg hdirective]
        rcases readDeclaration_cases line with hglobal | hframe
        · left
          intro symbols
          rw [hglobal]
          cases readGlobal symbols line <;> rfl
        · right
          intro symbols globals h
          rw [hframe symbols globals h]
          cases readDeclaration symbols line <;> rfl

/-- A step declares a global variable at top level, or it is the same with other globals. -/
theorem step_cases (place : Place) (line : Line) :
    (place = .topLevel ∧ ∀ symbols, step ⟨symbols, .topLevel⟩ line = onLine line.number
        ((readGlobal symbols line).map fun symbols => .more ⟨symbols, .topLevel⟩)) ∨
      ∀ symbols globals, globals.SameNames symbols.script.globals →
        step ⟨symbols.withGlobals globals, place⟩ line
          = (step ⟨symbols, place⟩ line).map (Next.withGlobals globals) := by
  cases place with
  | topLevel =>
      rcases readTopLevel_cases line with hglobal | hframe
      · exact .inl ⟨rfl, fun symbols => congrArg (onLine line.number) (hglobal symbols)⟩
      · right
        intro symbols globals h
        simp only [step]
        rw [hframe symbols globals h, onLine_map]
  | inState state =>
      right
      intro symbols globals h
      simp only [step]
      split
      · rw [finishState_withGlobals, bind_of_map, map_bind]
        rfl
      · rw [readHandler_withGlobals h, onLine_map]
        cases onLine line.number (readHandler symbols state line) <;> rfl
  | functionBody name opening body =>
      right
      intro symbols globals h
      simp only [step]
      rw [Body.step_withGlobals h, bind_of_map, map_bind]
      congr 1
      funext progress
      cases progress with
      | more inner body => rfl
      | finished inner block =>
          simp only [Body.Progress.withGlobals, Symbols.closeScope_withGlobals, onLine_map,
            bind_of_map, map_bind]
          rfl
  | handlerBody state signature opening body =>
      right
      intro symbols globals h
      simp only [step]
      rw [Body.step_withGlobals h, bind_of_map, map_bind]
      congr 1
      funext progress
      cases progress with
      | more inner body => rfl
      | finished inner block =>
          simp only [Body.Progress.withGlobals, Symbols.closeScope_withGlobals, onLine_map,
            bind_of_map, map_bind]
          rfl

/-! ### Globals that are exchanged -/

/-- The same script under way, but that the globals which stand together as `block` in the first table
    stand as `other` in the second. -/
def Exchanged (block other : List (String × Global)) (reading reading' : Reading) : Prop :=
  ∃ front back, reading.symbols.script.globals.entries = front ++ block ++ back ∧
    reading' = reading.withGlobals ⟨front ++ other ++ back⟩

end Reading

theorem Table.sameNames_exchanged {α : Type} {table : Table α}
    {block other front back : List (String × α)} (hperm : block.Perm other)
    (h : table.entries = front ++ block ++ back) :
    SameNames ⟨front ++ other ++ back⟩ table := by
  have hentries : (front ++ other ++ back).Perm table.entries := by
    rw [h]
    exact (hperm.symm.append_left front).append_right back
  intro name
  rw [Bool.eq_iff_iff, contains_iff, contains_iff]
  exact (hentries.map Prod.fst).mem_iff

theorem Table.insert_eq {α : Type} {table : Table α} {name : String} (h : name ∉ table.names)
    (value : α) : table.insert name value = ⟨table.entries ++ [(name, value)]⟩ := by
  rw [← entries_insert h]

namespace Reading

variable {block other : List (String × Global)} {reading reading' next final : Reading}

/-- A line that a script takes is taken by the script in which globals have been exchanged. -/
theorem Exchanged.exists_step (hperm : block.Perm other)
    (h : reading.Exchanged block other reading') {line : Line}
    (hstep : reading.step line = .ok (.more next)) :
    ∃ next', reading'.step line = .ok (.more next') ∧ next.Exchanged block other next' := by
  obtain ⟨symbols, place⟩ := reading
  obtain ⟨front, back, hentries, rfl⟩ := h
  have hnames := Table.sameNames_exchanged hperm hentries
  rcases step_cases place line with ⟨rfl, hglobal⟩ | hframe
  · rw [hglobal, onLine_eq_ok_iff, map_eq_ok_iff] at hstep
    obtain ⟨symbols', hread, hnext⟩ := hstep
    obtain ⟨name, global, hline, hstates, hnew, rfl⟩ := readGlobal_eq_ok_iff.1 hread
    obtain ⟨rfl⟩ := hnext
    have hadmits := (Symbols.checkNew_eq_ok_iff.1 hnew).1.notGlobal
    have hadmits' : name ∉ (Table.mk (front ++ other ++ back)).names := by
      rw [← Table.contains_iff, hnames name, Table.contains_iff]
      exact hadmits
    let symbols' := symbols.withGlobals ⟨front ++ other ++ back⟩
    have hnew' : symbols'.checkNew name = .ok () :=
      (Symbols.checkNew_withGlobals hnames name).trans hnew
    have hread' : readGlobal symbols' line
        = .ok (symbols.withGlobals ⟨front ++ other ++ back ++ [(name, global)]⟩) := by
      refine readGlobal_eq_ok_iff.2 ⟨name, global, hline, hstates, hnew', ?_⟩
      exact congrArg symbols.withGlobals (Table.insert_eq hadmits' global).symm
    refine ⟨_, ?_, front, back ++ [(name, global)], ?_, rfl⟩
    · show step ⟨symbols', .topLevel⟩ line = _
      rw [hglobal, hread', ← List.append_assoc]
      rfl
    · show (symbols.script.globals.insert name global).entries = _
      rw [Table.entries_insert hadmits, hentries, List.append_assoc]
  · -- The step leaves the globals alone: with those it has it is the same.
    have hown : (.ok (.more next) : Except Fault (Next Reading Script))
        = .ok (.more (next.withGlobals symbols.script.globals)) :=
      hstep.symm.trans ((hframe symbols symbols.script.globals fun _ => rfl).trans
        (congrArg (Except.map _) hstep))
    have hglobals : next.symbols.script.globals = symbols.script.globals :=
      congrArg (·.symbols.script.globals) (Next.more.inj (Except.ok.inj hown))
    refine ⟨next.withGlobals ⟨front ++ other ++ back⟩, ?_, front, back, ?_, rfl⟩
    · exact (hframe symbols _ hnames).trans (congrArg (Except.map _) hstep)
    · rw [hglobals, hentries]

theorem Exchanged.exists_passes (hperm : block.Perm other)
    (h : reading.Exchanged block other reading') {lines : List Line}
    (hpasses : machine.Passes reading lines final) :
    ∃ final', machine.Passes reading' lines final' ∧ final.Exchanged block other final' := by
  induction hpasses generalizing reading' with
  | nil => exact ⟨reading', .nil, h⟩
  | cons hstep _ ih =>
      obtain ⟨next', hstep', hnext⟩ := h.exists_step hperm hstep
      obtain ⟨final', hrest, hfinal⟩ := ih hnext
      exact ⟨final', .cons hstep' hrest, hfinal⟩

/-- The scope at the end is that of the script. -/
theorem Completes.scope_eq {script : Script} (h : reading.Completes script)
    (hscopes : reading.symbols.scopes = []) : reading.symbols.scope = script.scope := by
  have hvariable : reading.symbols.isVariable = script.globals.contains := by
    funext name
    rw [Symbols.isVariable, hscopes, h.script, Bool.eq_iff_iff, Table.contains_iff]
    simp [Table.contains_iff, Table.names, resolvedEntry]
  rw [Symbols.scope, hvariable, h.script]
  rfl

/-- The two scripts are complete together, and are the same but for the exchange. -/
theorem Exchanged.exists_completes (hperm : block.Perm other)
    (h : reading.Exchanged block other reading') (hscopes : reading.symbols.scopes = [])
    {script : Script} (hcompletes : reading.Completes script) : ∃ front back,
      script.globals.entries = front ++ block.map (resolvedEntry script.scope) ++ back ∧
      reading'.Completes { script with
        globals := ⟨front ++ other.map (resolvedEntry script.scope) ++ back⟩ } := by
  obtain ⟨front, back, hentries, rfl⟩ := h
  have hscope : (reading.symbols.withGlobals ⟨front ++ other ++ back⟩).scope
      = reading.symbols.scope :=
    Symbols.scope_withGlobals (Table.sameNames_exchanged hperm hentries)
  rw [← hcompletes.scope_eq hscopes]
  obtain ⟨hplace, hdefault, htargets, hresolvable, rfl⟩ := hcompletes
  refine ⟨front.map (resolvedEntry reading.symbols.scope),
    back.map (resolvedEntry reading.symbols.scope), ?_, hplace, hdefault, htargets, ?_, ?_⟩
  · simp [hentries]
  · intro entry hmem
    have hmem' : entry ∈ reading.symbols.script.globals.entries := by
      rw [hentries]
      exact ((hperm.append_left front).append_right back).mem_iff.mpr hmem
    exact hscope ▸ hresolvable entry hmem'
  · show _ = { reading.symbols.script with
      globals := ⟨(front ++ other ++ back).map
        (resolvedEntry (reading.symbols.withGlobals ⟨front ++ other ++ back⟩).scope)⟩
      includes := [] }
    rw [hscope, List.map_append, List.map_append]

end Reading

end LslFront
