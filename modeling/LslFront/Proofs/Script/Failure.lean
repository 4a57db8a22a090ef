import LslFront.Proofs.Block.Matching
import LslFront.Proofs.Resolved.Failure
import LslFront.Proofs.Script.Bodies

/-!
# Scripts that fail

Whatever is compiled, the compiler finds no defect in itself: it fails for a cause that lies in the
script or in what the script includes.  There are six defects that it could report.  Two are that no
scope is open, but in every body that is under way one is.  One is a member access without a name,
which no parsed tree has.  The others belong to readers of headers, and a line goes to these only if
it begins as they expect.

Each reader also blames a literal only if its tokens hold it, so the same lemmas say where a
malformed literal can come from.
-/

namespace LslFront

variable {P : String → Prop}

/-! ### Parts of lines -/

namespace MalformedOnly

variable {tokens : List String}

theorem of_splitHeader (h : MalformedOnly P tokens) {keyword : String} {header after : List String}
    (hcut : splitHeader keyword tokens = .ok (header, after)) :
    MalformedOnly P header ∧ MalformedOnly P after := by
  obtain ⟨⟨close, -, rfl⟩, -⟩ := splitHeader_eq_ok_iff.1 hcut
  refine ⟨h.mono ?_, h.mono ?_⟩
  · exact List.subset_cons_of_subset _ (List.subset_append_left _ _)
  · exact List.subset_cons_of_subset _
      (List.subset_append_of_subset_right _ (List.subset_cons_self _ _))

theorem of_headerParts (h : MalformedOnly P tokens) {depth : Nat} {parts : List (List String)}
    (hparts : headerParts depth tokens = parts) : ∀ part ∈ parts, MalformedOnly P part := by
  subst hparts
  induction tokens generalizing depth with
  | nil => simp [headerParts, MalformedOnly]
  | cons token rest ih =>
      obtain ⟨htoken, hrest⟩ := List.forall_mem_cons.mp h
      rw [headerParts]
      split
      · exact List.forall_mem_cons.mpr ⟨fun _ hmem => absurd hmem List.not_mem_nil, ih hrest⟩
      · simp only
        generalize (if opensBracket token then depth + 1
          else if closesBracket token then depth - 1 else depth) = deeper
        have hparts := @ih hrest deeper
        split
        · simpa [MalformedOnly] using htoken
        · rename_i part others heq
          rw [heq] at hparts
          obtain ⟨hpart, hothers⟩ := List.forall_mem_cons.mp hparts
          exact List.forall_mem_cons.mpr ⟨List.forall_mem_cons.mpr ⟨htoken, hpart⟩, hothers⟩

theorem of_withoutSemicolon (h : MalformedOnly P tokens) {inner : List String}
    (hcut : (withoutSemicolon tokens).mapError Cause.structural = .ok inner) :
    MalformedOnly P inner := by
  replace hcut := mapError_eq_ok_iff.1 hcut
  unfold withoutSemicolon at hcut
  split at hcut
  · split at hcut
    · cases hcut
      exact h.mono (List.dropLast_subset tokens)
    · cases hcut
  · cases hcut

end MalformedOnly

/-! ### Lines of bodies -/

section

variable {scope : Scope} {kind : BodyKind} {number : Nat}

theorem blames_resolveForHeader {header : List String} (h : MalformedOnly P header) :
    FailsOnly (Cause.Blames P) (resolveForHeader scope header) := by
  unfold resolveForHeader
  split
  · rename_i start condition step heq
    have hparts := h.of_headerParts heq
    have hstart : MalformedOnly P start := hparts start (by simp)
    have hcondition : MalformedOnly P condition := hparts condition (by simp)
    have hlast : MalformedOnly P step := hparts step (by simp)
    apply (blames_resolveTokenList hstart).bind
    intro start _
    have hstep : ∀ condition, FailsOnly (Cause.Blames P) (do
        let step ← resolveTokenList scope step
        return Control.forLoop start condition step) :=
      fun _ => (blames_resolveTokenList hlast).bind fun _ _ => .ok _
    simp only
    split
    · exact hstep none
    · exact ((blames_resolveTokens hcondition).map some).bind fun condition _ => hstep condition
  · simp

theorem blames_resolveControl (word : String) {header : List String} (h : MalformedOnly P header) :
    FailsOnly (Cause.Blames P) (resolveControl scope word header) := by
  unfold resolveControl
  split
  · exact (blames_resolveTokens h).map _
  · exact (blames_resolveTokens h).map _
  · exact blames_resolveForHeader h

theorem blames_localDeclaration (ty : Ty) {tokens : List String} (h : MalformedOnly P tokens) :
    FailsOnly (Cause.Blames P) (localDeclaration scope ty tokens) := by
  unfold localDeclaration
  apply FailsOnly.bind
  · exact .mapError fun _ _ => by simp
  · intro inner hinner
    have hinner := h.of_withoutSemicolon hinner
    split
    · exact .ok _
    · split
      · have hvalue := hinner.mono fun _ hmem => List.mem_cons_of_mem _ (List.mem_cons_of_mem _ hmem)
        exact (blames_resolveTokens hvalue).bind fun _ _ => .ok _
      · simp
    · simp

theorem blames_simpleStatement (word : String) {rest : List String}
    (h : MalformedOnly P (word :: rest)) :
    FailsOnly (Cause.Blames P) (simpleStatement scope kind number word rest) := by
  have hrest : MalformedOnly P rest := h.mono (List.subset_cons_self _ _)
  have hname : ∀ keyword, FailsOnly (Cause.Blames P)
      ((singleName keyword rest).mapError Cause.structural) :=
    fun _ => .mapError fun _ _ => by simp
  have hexpression : ∀ tokens, FailsOnly (Cause.Blames P)
      ((withoutSemicolon tokens).mapError Cause.structural) :=
    fun _ => .mapError fun _ _ => by simp
  unfold simpleStatement
  split
  · apply (hexpression rest).bind
    intro tokens htokens
    split
    · exact .ok _
    · exact (blames_resolveTokens (hrest.of_withoutSemicolon htokens)).bind fun _ _ => .ok _
  · split
    · exact (hname _).map _
    · simp
  · exact (hname _).map _
  · exact (hname _).map _
  · apply (hexpression _).bind
    intro tokens htokens
    exact (blames_resolveTokens (h.of_withoutSemicolon htokens)).bind fun _ _ => .ok _

theorem blames_readEffect (hole : Hole) {tokens : List String} (h : MalformedOnly P tokens) :
    FailsOnly (Cause.Blames P) (readEffect scope kind number hole tokens) := by
  fun_induction readEffect scope kind number hole tokens with
  | case7 _ _ _ _ _ _ _ _ _ _ hcut cause hcontrol =>
      have hheader := ((h.mono (List.subset_cons_self _ _)).of_splitHeader hcut).1
      exact FailsOnly.error_iff.2 (blames_resolveControl _ hheader cause hcontrol)
  | case8 _ _ _ _ _ _ _ _ _ _ hcut _ _ _ ih =>
      exact ih ((h.mono (List.subset_cons_self _ _)).of_splitHeader hcut).2
  | case12 => exact blames_localDeclaration _ (h.mono (List.subset_cons_self _ _))
  | case14 => exact (blames_simpleStatement _ h).map _
  | _ => simp

end

/-! ### Scopes -/

namespace Symbols

variable {symbols : Symbols}

theorem blames_checkNew (name : String) :
    FailsOnly (Cause.Blames P) (symbols.checkNew name) := by
  unfold checkNew
  split
  · split <;> simp
  · simp

theorem blames_closeScope (h : symbols.scopes ≠ []) :
    FailsOnly (Cause.Blames P) symbols.closeScope := by
  unfold closeScope
  split
  · exact absurd ‹_› h
  · exact .ok _

theorem blames_declare (h : symbols.scopes ≠ []) (name : String) (ty : Ty) :
    FailsOnly (Cause.Blames P) (symbols.declare name ty) := by
  unfold declare
  apply (blames_checkNew name).bind
  intro _ _
  split
  · exact absurd ‹_› h
  · exact .ok _

/-- Declaring leaves the scope open. -/
theorem scopes_ne_nil_of_declare {symbols' : Symbols} {name : String} {ty : Ty}
    (h : symbols.declare name ty = .ok symbols') : symbols'.scopes ≠ [] := by
  obtain ⟨innermost, outer, -, -, -, rfl⟩ := declare_eq_ok_iff.1 h
  exact List.cons_ne_nil _ _

theorem blames_declareAll {params : List Parameter} (h : symbols.scopes ≠ []) :
    FailsOnly (Cause.Blames P) (symbols.declareAll params) := by
  induction params generalizing symbols with
  | nil => exact .ok _
  | cons param rest ih =>
      apply (blames_declare h param.name param.ty).bind
      intro next hnext
      exact ih (scopes_ne_nil_of_declare hnext)

end Symbols

theorem Reading.blames_enterBody {symbols : Symbols} (params : List Parameter) :
    FailsOnly (Cause.Blames P) (enterBody symbols params) :=
  Symbols.blames_declareAll (List.cons_ne_nil _ _)

/-! ### Bodies -/

namespace Body

variable {kind : BodyKind} {symbols : Symbols} {body : Body}

theorem blames_close (h : symbols.scopes ≠ []) :
    FailsOnly (Fault.Blames P) (body.close symbols) := by
  unfold close
  simp only
  split
  · exact .ok _
  · apply ((Symbols.blames_closeScope h).onLine _).bind
    intro symbols' _
    split
    · exact .ok _
    · exact .ok _

theorem blames_closeDo (hole : Hole) (block : Block) {tokens : List String}
    (h : MalformedOnly P tokens) :
    FailsOnly (Cause.Blames P) (body.closeDo symbols hole block tokens) := by
  unfold closeDo
  split
  · simp
  · split
    · apply FailsOnly.bind
      · exact .mapError fun _ _ => by simp
      · rintro ⟨header, after⟩ hcut
        have hrest := h.mono (List.subset_cons_self _ _)
        have hheader := (hrest.of_splitHeader (mapError_eq_ok_iff.1 hcut)).1
        simp only
        split
        · exact (blames_resolveTokens hheader).bind fun _ _ => .ok _
        · simp
    · simp

theorem blames_apply (h : symbols.scopes ≠ []) (number : Nat) (effect : Effect) :
    FailsOnly (Cause.Blames P) (body.apply symbols number effect) := by
  cases effect with
  | declares ty name value =>
      exact (Symbols.blames_declare h name ty).bind fun _ _ => .ok _
  | _ => exact .ok _

theorem blames_readStatement (h : symbols.scopes ≠ []) {line : Line}
    (hline : MalformedOnly P line.tokens) :
    FailsOnly (Cause.Blames P) (body.readStatement symbols kind line) := by
  unfold readStatement
  split
  · rename_i rest heq
    rw [heq] at hline
    split
    · have hrest := hline.mono (List.subset_cons_self _ _)
      exact (blames_readEffect _ hrest).bind fun effect _ => blames_apply h _ effect
    · simp
  · exact (blames_readEffect _ hline).bind fun effect _ => blames_apply h _ effect

theorem blames_step (h : symbols.scopes ≠ []) {line : Line} (hline : MalformedOnly P line.tokens) :
    FailsOnly (Fault.Blames P) (body.step symbols kind line) := by
  unfold step
  split
  · exact (blames_closeDo _ _ hline).onLine _
  · split
    · exact blames_close h
    · exact (blames_readStatement h hline).onLine _

theorem Sound.scopes_ne_nil {outermost : List (String × Ty)} {outside : List (List (String × Ty))}
    (h : body.Sound kind outermost outside symbols) : symbols.scopes ≠ [] := by
  obtain ⟨scope, others, _, hscopes, -⟩ := h.exists_scope
  rw [hscopes]
  exact List.cons_ne_nil _ _

/-- When a body is complete, its scope is still open. -/
theorem Sound.blames_closeScope {outermost : List (String × Ty)}
    {outside : List (List (String × Ty))} (h : body.Sound kind outermost outside symbols)
    {inner : Symbols} {block : Block} (hmoves : body.Moves kind symbols (.finished inner block))
    (opening : Nat) : FailsOnly (Fault.Blames P) (onLine opening inner.closeScope) := by
  have hblock : block.Sound kind outermost outside inner := h.step hmoves
  have hopen : inner.scopes ≠ [] := by
    intro hnone
    have hscopes := hblock.scopes
    rw [hnone] at hscopes
    cases hscopes
  exact (Symbols.blames_closeScope hopen).onLine opening

theorem blames_atEnd (body : Body) (lastLine : Nat) : (body.atEnd lastLine).Blames P := by
  unfold atEnd
  split <;> simp [Fault.Blames]

end Body

/-! ### Declarations -/

namespace Reading

variable {symbols : Symbols} {line : Line}

@[simp] theorem blames_refuse {α : Type} (cause : DeclarationCause) :
    FailsOnly (Cause.Blames P) (refuse cause : Except Cause α) := by
  simp [refuse]

/-- A line that begins with a type is read as a global. -/
theorem blames_readGlobal {first : String} {rest : List String}
    (hline : line.tokens = first :: rest) (htype : (Ty.ofWord? first).isSome) :
    FailsOnly (Cause.Blames P) (readGlobal symbols line) := by
  unfold readGlobal
  rw [hline]
  obtain ⟨ty, hty⟩ := Option.isSome_iff_exists.mp htype
  simp only [hty]
  split
  · simp
  · split
    · simp
    · exact (Symbols.blames_checkNew _).bind fun _ _ => .ok _

theorem blames_splitReturnType {tokens : List String} (h : tokens ≠ []) :
    FailsOnly (Cause.Blames P) (splitReturnType tokens) := by
  unfold splitReturnType
  split
  · exact absurd rfl h
  · split
    · exact .ok _
    · split
      · exact .ok _
      · exact .ok _

theorem blames_readFunction (h : line.tokens ≠ []) :
    FailsOnly (Cause.Blames P) (readFunction symbols line) := by
  unfold readFunction
  apply (blames_splitReturnType h).bind
  rintro ⟨returnType, header⟩ _
  apply FailsOnly.bind
  · exact .mapError fun _ _ => by simp
  · intro signature _
    split
    · simp
    · apply (Symbols.blames_checkNew _).bind
      intro _ _
      exact (blames_enterBody _).bind fun _ _ => .ok _

theorem blames_readState (number : Nat) (name : String) :
    FailsOnly (Cause.Blames P) (readState symbols number name) := by
  unfold readState
  split
  · simp
  · split
    · simp
    · split <;> simp

theorem blames_readDefault (number : Nat) :
    FailsOnly (Cause.Blames P) (readDefault symbols number) := by
  unfold readDefault
  split <;> simp

theorem blames_readDeclaration : FailsOnly (Cause.Blames P) (readDeclaration symbols line) := by
  unfold readDeclaration
  split
  · simp
  · rename_i first rest hline
    have hnonempty : line.tokens ≠ [] := by simp [hline]
    split
    · split
      · exact blames_readDefault _
      · simp
    · split
      · split
        · split
          · exact blames_readState _ _
          · simp
        · simp
      · split
        · simp
        · split
          · rename_i htype
            split
            · exact blames_readFunction hnonempty
            · exact (blames_readGlobal hline htype).map _
          · split
            · exact blames_readFunction hnonempty
            · simp

theorem blames_readDirective (word : String) (rest : List String) :
    FailsOnly (Cause.Blames P) (readDirective word rest) := by
  unfold readDirective
  split
  · split <;> simp
  · simp

theorem blames_readTopLevel : FailsOnly (Cause.Blames P) (readTopLevel symbols line) := by
  unfold readTopLevel
  split
  · simp
  · split
    · exact (blames_readDirective _ _).bind fun _ _ => .ok _
    · exact FailsOnly.map blames_readDeclaration _

theorem blames_readHandler (state : OpenState) :
    FailsOnly (Cause.Blames P) (readHandler symbols state line) := by
  unfold readHandler
  split
  · simp
  · split
    · simp
    · simp only
      split
      · exact (blames_enterBody _).bind fun _ _ => .ok _
      · simp

theorem blames_finishHandler (state : OpenState) (signature : Signature) (opening : Nat)
    (body : Block) : FailsOnly (Cause.Blames P) (finishHandler state signature opening body) := by
  unfold finishHandler
  split <;> simp

theorem blames_finishState (state : OpenState) :
    FailsOnly (Fault.Blames P) (finishState symbols state) := by
  unfold finishState
  split <;> simp [Fault.Blames]

/-! ### Whole scripts -/

theorem blames_step {reading : Reading} (h : reading.Sound) {line : Line}
    (hline : MalformedOnly P line.tokens) : FailsOnly (Fault.Blames P) (reading.step line) := by
  obtain ⟨symbols, place⟩ := reading
  unfold step
  cases place with
  | topLevel => exact FailsOnly.onLine blames_readTopLevel _
  | inState state =>
      simp only
      split
      · exact (blames_finishState state).bind fun _ _ => .ok _
      · exact ((blames_readHandler state).onLine _).map _
  | functionBody name opening body =>
      obtain ⟨params, hbody, -⟩ := h.placed
      apply (Body.blames_step hbody.scopes_ne_nil hline).bind
      intro progress hstep
      have hmoves := Body.moves_of_step hstep
      cases progress with
      | more => exact .ok _
      | finished => exact (hbody.blames_closeScope hmoves opening).bind fun _ _ => .ok _
  | handlerBody state signature opening body =>
      have hbody : body.Sound .event _ [] symbols := h.placed
      apply (Body.blames_step hbody.scopes_ne_nil hline).bind
      intro progress hstep
      have hmoves := Body.moves_of_step hstep
      cases progress with
      | more => exact .ok _
      | finished =>
          apply (hbody.blames_closeScope hmoves opening).bind
          intro symbols' _
          exact ((blames_finishHandler _ _ _ _).onLine _).bind fun _ _ => .ok _

theorem blames_checkTargets (script : Script) :
    FailsOnly (Fault.Blames P) (checkTargets script) := by
  unfold checkTargets
  simp only
  split <;> simp [Fault.Blames]

/-- Malformed literals in the initializers of globals are of this kind. -/
def InitializersOnly (P : String → Prop) (entries : List (String × Global)) : Prop :=
  ∀ entry ∈ entries, ∀ line ∈ entry.2.initializer, MalformedOnly P line.tokens

theorem blames_resolveGlobals {scope : Scope} {entries : List (String × Global)}
    (h : InitializersOnly P entries) :
    FailsOnly (Fault.Blames P) (resolveGlobals scope entries) := by
  induction entries with
  | nil => exact .ok _
  | cons entry rest ih =>
      obtain ⟨name, global⟩ := entry
      obtain ⟨hglobal, hrest⟩ := List.forall_mem_cons.mp h
      rw [resolveGlobals]
      split
      · exact (ih hrest).bind fun _ _ => .ok _
      · rename_i line hline
        apply (((blames_resolveTokens (hglobal line hline)).onLine _).map some).bind
        intro value _
        exact (ih hrest).bind fun _ _ => .ok _

theorem blames_atEnd {reading : Reading} (lastLine : Nat)
    (h : InitializersOnly P reading.symbols.script.globals.entries) :
    FailsOnly (Fault.Blames P) (reading.atEnd lastLine) := by
  unfold atEnd
  split
  · unfold finish
    simp only
    split
    · apply (blames_checkTargets _).bind
      intro _ _
      exact (blames_resolveGlobals h).bind fun _ _ => .ok _
    · simp [Fault.Blames]
  · simp [Fault.Blames]
  · exact FailsOnly.error_iff.2 (Body.blames_atEnd _ _)
  · exact FailsOnly.error_iff.2 (Body.blames_atEnd _ _)

theorem failsOnly_step {reading : Reading} (h : reading.Sound) (line : Line) :
    FailsOnly Fault.InScript (reading.step line) :=
  fun fault hfault =>
    (@blames_step (fun _ => True) reading h line (fun _ _ _ => trivial) fault hfault).1

theorem failsOnly_atEnd (reading : Reading) (lastLine : Nat) :
    FailsOnly Fault.InScript (reading.atEnd lastLine) :=
  fun fault hfault =>
    (@blames_atEnd (fun _ => True) reading lastLine (fun _ _ _ _ _ _ _ => trivial) fault hfault).1

end Reading

theorem Cause.OfSource.blames {cause : Cause} (h : cause.OfSource) : cause.Blames P := by
  cases h <;> simp

theorem Cause.OfSource.inScript {cause : Cause} (h : cause.OfSource) : cause.InScript :=
  (@Cause.OfSource.blames (fun _ => True) cause h).1

/-- The compiler never reports a defect in itself, whatever the source, the options and the
    loader. -/
theorem compile_ne_defect (source : String) (options : Options) (loader : Loader)
    (defect : DefectCause) (line : Nat) :
    compile source options loader ≠ .error ⟨.defect defect, line⟩ := by
  suffices h : FailsOnly Fault.InScript (compile source options loader) from
    fun hdefect => h _ hdefect defect rfl
  unfold compile
  apply FailsOnly.bind
  · intro fault hfault
    rcases Source.run_eq_error hfault with hsource | ⟨reading, hreached, hgives⟩
    · exact hsource.inScript
    · have hsound : reading.Sound := Reading.Reached.sound hreached
      cases hgives with
      | refused hstep => exact Reading.failsOnly_step hsound _ fault hstep
      | atEnd hend => exact Reading.failsOnly_atEnd reading _ fault hend
  · exact fun _ _ => .ok _

end LslFront
