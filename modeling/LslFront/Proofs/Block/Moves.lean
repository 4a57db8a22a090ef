import LslFront.Block.Reader
import LslFront.Proofs.Block.Else
import LslFront.Proofs.Script.Symbols
import LslFront.Proofs.Source.Reach

/-!
# What a line can do to a body

`Body.Moves` has one constructor for each thing that a line can do to a body and to the scopes of
its names.  Every line that `Body.step` accepts does one of them, so what lines keep is shown by one
case for each constructor, and the reader of lines is not opened again.  `readBody_induction` takes
what is kept to the block that a whole body becomes.
-/

namespace LslFront

/-! ### What a line holds -/

/-- A statement that one line can hold whole, a declaration excepted: it has no body, and it
    changes the state only in an event handler. -/
def Statement.isPlain (kind : BodyKind) : Statement → Bool
  | .expression .. | .ret .. | .jump .. | .label .. | .empty .. => true
  | .stateChange .. => kind == .event
  | _ => false

/-- What a line can do, if the place that it is read for fits the statements before it. -/
def Effect.Allowed (kind : BodyKind) (statements : List Statement) : Effect → Prop
  | .complete hole statement => hole.Fits statements ∧ statement.isPlain kind
  | .declares .. => True
  | .opens hole | .opensDo hole => hole.Fits statements

section

variable {scope : Scope} {kind : BodyKind} {line : Nat}

theorem simpleStatement_isPlain {word : String} {rest : List String} {statement : Statement}
    (h : simpleStatement scope kind line word rest = .ok statement) : statement.isPlain kind := by
  unfold simpleStatement at h
  split at h
  · simp only [bind_eq_ok_iff] at h
    obtain ⟨tokens, -, h⟩ := h
    split at h
    · cases h
      rfl
    · obtain ⟨value, -, h⟩ := bind_eq_ok_iff.1 h
      cases h
      rfl
  · split at h
    · rename_i hkind
      obtain ⟨target, -, rfl⟩ := map_eq_ok_iff.1 h
      rw [hkind]
      rfl
    · cases h
  · obtain ⟨label, -, rfl⟩ := map_eq_ok_iff.1 h
    rfl
  · obtain ⟨name, -, rfl⟩ := map_eq_ok_iff.1 h
    rfl
  · simp only [bind_eq_ok_iff] at h
    obtain ⟨tokens, -, value, -, h⟩ := h
    cases h
    rfl

theorem exists_of_localDeclaration {ty : Ty} {tokens : List String} {effect : Effect}
    (h : localDeclaration scope ty tokens = .ok effect) :
    ∃ name value, effect = .declares ty name value := by
  unfold localDeclaration at h
  obtain ⟨body, -, h⟩ := bind_eq_ok_iff.1 h
  split at h
  · cases h
    exact ⟨_, _, rfl⟩
  · split at h
    · obtain ⟨value, -, h⟩ := bind_eq_ok_iff.1 h
      cases h
      exact ⟨_, _, rfl⟩
    · cases h
  · cases h

theorem readEffect_allowed {statements : List Statement} {hole : Hole} {tokens : List String}
    {effect : Effect} (hfits : hole.Fits statements)
    (h : readEffect scope kind line hole tokens = .ok effect) : effect.Allowed kind statements := by
  fun_induction readEffect scope kind line hole tokens with
  | case2 | case9 =>
      cases h
      exact hfits
  | case4 =>
      cases h
      exact ⟨hfits, rfl⟩
  | case8 _ _ _ _ _ _ _ _ _ _ _ _ _ _ ih => exact ih hfits h
  | case12 =>
      obtain ⟨name, value, rfl⟩ := exists_of_localDeclaration h
      trivial
  | case14 =>
      obtain ⟨statement, hstatement, rfl⟩ := map_eq_ok_iff.1 h
      exact ⟨hfits, simpleStatement_isPlain hstatement⟩
  | _ => cases h

end

/-! ### Moves -/

/-- What a line does to a body and to the symbols. -/
inductive Body.Moves (kind : BodyKind) (symbols : Symbols) (body : Body) : Progress → Prop where
  /-- A statement without a body is put into its place. -/
  | plain {hole statement} : body.doBlock = none → hole.Fits body.statements →
      statement.isPlain kind → Moves kind symbols body (.more symbols (body.put hole statement))
  /-- A variable is declared in the innermost block. -/
  | declares {line ty name value symbols'} : body.doBlock = none →
      symbols.declare name ty = .ok symbols' → Moves kind symbols body
        (.more symbols' (body.put .statement (.declaration line ty name value)))
  | opens {line hole isDo} : body.doBlock = none → hole.Fits body.statements →
      Moves kind symbols body (.more symbols.openScope (body.descend line hole isDo))
  /-- The innermost block is put into its place. -/
  | closes {outer others symbols'} : body.doBlock = none → body.waiting = outer :: others →
      outer.isDo = false → symbols.closeScope = .ok symbols' → Moves kind symbols body
        (.more symbols' ⟨outer.line,
          outer.hole.putBlock outer.statements (.mk body.line true body.statements), others, none⟩)
  /-- The innermost block is that of a `do`, and its `while` is awaited. -/
  | awaits {outer others symbols'} : body.doBlock = none → body.waiting = outer :: others →
      outer.isDo → symbols.closeScope = .ok symbols' → Moves kind symbols body
        (.more symbols' ⟨outer.line, outer.statements, others,
          some (outer.hole, .mk body.line true body.statements)⟩)
  /-- The `while` of a `do` has come. -/
  | repeats {hole block condition} : body.doBlock = some (hole, block) → Moves kind symbols body
      (.more symbols { body.put hole (.doWhile block.line block condition) with doBlock := none })
  | finishes : body.doBlock = none → body.waiting = [] →
      Moves kind symbols body (.finished symbols (.mk body.line true body.statements))

namespace Body

/-- The symbols after a line. -/
def Progress.symbols : Progress → Symbols
  | .more symbols _ | .finished symbols _ => symbols

variable {symbols : Symbols} {kind : BodyKind} {body : Body} {progress : Progress}

theorem moves_of_apply {effect : Effect} {number : Nat} (hidle : body.doBlock = none)
    (hallowed : effect.Allowed kind body.statements)
    (h : body.apply symbols number effect = .ok progress) : body.Moves kind symbols progress := by
  cases effect with
  | complete hole statement =>
      cases h
      exact .plain hidle hallowed.1 hallowed.2
  | declares ty name value =>
      simp only [apply, bind_eq_ok_iff, pure_eq_ok, Except.ok.injEq] at h
      obtain ⟨symbols', hdeclare, rfl⟩ := h
      exact .declares hidle hdeclare
  | opens hole =>
      cases h
      exact .opens hidle hallowed
  | opensDo hole =>
      cases h
      exact .opens hidle hallowed

theorem moves_of_readStatement {line : Line} (hidle : body.doBlock = none)
    (h : body.readStatement symbols kind line = .ok progress) :
    body.Moves kind symbols progress := by
  unfold readStatement at h
  split at h
  · split at h
    · rename_i htakes
      obtain ⟨effect, heffect, h⟩ := bind_eq_ok_iff.1 h
      have hfits : Hole.elseBranch.Fits body.statements := htakes
      exact moves_of_apply hidle (readEffect_allowed hfits heffect) h
    · cases h
  · obtain ⟨effect, heffect, h⟩ := bind_eq_ok_iff.1 h
    have hfits : Hole.statement.Fits body.statements := trivial
    exact moves_of_apply hidle (readEffect_allowed hfits heffect) h

theorem moves_of_close (hidle : body.doBlock = none) (h : body.close symbols = .ok progress) :
    body.Moves kind symbols progress := by
  unfold close at h
  simp only at h
  split at h
  · rename_i hwaiting
    cases h
    exact .finishes hidle hwaiting
  · rename_i outer others hwaiting
    simp only [bind_eq_ok_iff, onLine_eq_ok_iff] at h
    obtain ⟨symbols', hclose, h⟩ := h
    split at h
    · rename_i hdo
      cases h
      exact .awaits hidle hwaiting hdo hclose
    · rename_i hdo
      cases h
      exact .closes hidle hwaiting (by simpa using hdo) hclose

theorem moves_of_closeDo {hole : Hole} {block : Block} {tokens : List String}
    (hdo : body.doBlock = some (hole, block))
    (h : body.closeDo symbols hole block tokens = .ok progress) :
    body.Moves kind symbols progress := by
  unfold closeDo at h
  split at h
  · cases h
  · split at h
    · simp only [bind_eq_ok_iff] at h
      obtain ⟨⟨header, after⟩, -, h⟩ := h
      simp only at h
      split at h
      · obtain ⟨condition, -, h⟩ := bind_eq_ok_iff.1 h
        cases h
        exact .repeats hdo
      · cases h
    · cases h

/-- A line that is accepted makes one of the moves. -/
theorem moves_of_step {line : Line} (h : body.step symbols kind line = .ok progress) :
    body.Moves kind symbols progress := by
  unfold step at h
  split at h
  · rename_i hole block hdo
    exact moves_of_closeDo hdo (onLine_eq_ok_iff.1 h)
  · rename_i hidle
    split at h
    · exact moves_of_close hidle h
    · exact moves_of_readStatement hidle (onLine_eq_ok_iff.1 h)

/-- A body changes no more than the scopes. -/
theorem Moves.script_eq (h : body.Moves kind symbols progress) :
    progress.symbols.script = symbols.script := by
  cases h with
  | declares _ hdeclare => exact Symbols.script_declare hdeclare
  | closes _ _ _ hclose | awaits _ _ _ hclose => exact Symbols.script_closeScope hclose
  | _ => rfl

theorem Moves.script_more {symbols' : Symbols} {body' : Body}
    (h : body.Moves kind symbols (.more symbols' body')) : symbols'.script = symbols.script :=
  h.script_eq

theorem Moves.script_finished {symbols' : Symbols} {block : Block}
    (h : body.Moves kind symbols (.finished symbols' block)) : symbols'.script = symbols.script :=
  h.script_eq

/-! ### Whole bodies -/

/-- What the machine does on a line is a move of the body. -/
theorem moves_of_machine {state : Symbols × Body} {line : Line}
    {next : Next (Symbols × Body) (Symbols × Block)}
    (h : (machine kind).step state line = .ok next) :
    (∃ symbols body, next = .more (symbols, body) ∧ state.2.Moves kind state.1 (.more symbols body))
      ∨ ∃ symbols block, next = .finished (symbols, block)
        ∧ state.2.Moves kind state.1 (.finished symbols block) := by
  obtain ⟨progress, hstep, h⟩ := bind_eq_ok_iff.1 h
  have hmoves := moves_of_step hstep
  cases progress with
  | more symbols body =>
      cases h
      exact .inl ⟨symbols, body, rfl, hmoves⟩
  | finished symbols block =>
      cases h
      exact .inr ⟨symbols, block, rfl, hmoves⟩

end Body

/-- What holds of a body that has been opened and is kept by every move holds of the block that is
    read. -/
theorem readBody_induction {P : Body.Progress → Prop} {limit : Nat} {symbols symbols' : Symbols}
    {kind : BodyKind} {line : Nat} {source after : Source limit} {block : Block}
    (h : readBody symbols kind line source = .ok ((symbols', block), after))
    (hopened : P (.more symbols (.opened line)))
    (hkept : ∀ {symbols body progress}, P (.more symbols body) →
      body.Moves kind symbols progress → P progress) : P (.finished symbols' block) := by
  obtain ⟨final, hreach, hgives⟩ := Source.run_eq_ok h
  have hfinal : P (.more final.1 final.2) := by
    clear hgives
    induction hreach with
    | start => exact hopened
    | more _ hstep ih =>
        rcases Body.moves_of_machine hstep with ⟨_, _, hnext, hmoves⟩ | ⟨_, _, hnext, _⟩
        · cases hnext
          exact hkept ih hmoves
        · cases hnext
    | splice _ hstep =>
        rcases Body.moves_of_machine hstep with ⟨_, _, hnext, _⟩ | ⟨_, _, hnext, _⟩
        · cases hnext
        · cases hnext
  cases hgives with
  | finished hstep =>
      rcases Body.moves_of_machine hstep with ⟨_, _, hnext, _⟩ | ⟨_, _, hnext, hmoves⟩
      · cases hnext
      · cases hnext
        exact hkept hfinal hmoves
  | atEnd hend => cases hend

end LslFront
