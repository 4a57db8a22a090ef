import LslFront.Proofs.Block.Places
import LslFront.Proofs.Script.Likeness

/-!
# Reading bodies that are alike

A line of a body is read in two scripts that are alike.  If it is accepted in the first one it is
accepted in the second, and the bodies are alike after it as they were before it.  This holds for
every lawful likeness, so what changes from one dialect to another has to be looked at in
expressions and in names only.
-/

namespace LslFront

section

variable {like : Likeness} {scope scope' : Scope} {kind : BodyKind} {number : Nat}

/-! ### One line -/

theorem Likeness.Resolves.optional (h : like.Resolves scope scope') (tokens : List String) :
    Carries (Option.Rel like.expression) ((resolveTokens scope tokens).map some)
      ((resolveTokens scope' tokens).map some) :=
  (h.tokens tokens).map fun _ _ hvalue => .some hvalue

theorem carries_resolveForHeader (h : like.Resolves scope scope') (header : List String) :
    Carries (Control.Alike like) (resolveForHeader scope header)
      (resolveForHeader scope' header) := by
  unfold resolveForHeader
  split
  · rename_i start condition step _
    apply (h.lists start).bind
    intro start start' hstart
    have hstep : ∀ condition condition', Option.Rel like.expression condition condition' →
        Carries (Control.Alike like)
          (do return Control.forLoop start condition (← resolveTokenList scope step))
          (do return Control.forLoop start' condition' (← resolveTokenList scope' step)) := by
      intro condition condition' hcondition
      apply (h.lists step).bind
      exact fun _ _ hstep => .ok (.forLoop hstart hcondition hstep)
    simp only
    split
    · exact hstep none none .none
    · exact (h.optional condition).bind hstep
  · exact .error _ _

theorem carries_resolveControl (h : like.Resolves scope scope') (word : String)
    (header : List String) :
    Carries (Control.Alike like) (resolveControl scope word header)
      (resolveControl scope' word header) := by
  unfold resolveControl
  split
  · exact (h.tokens header).map fun _ _ hcondition => .ifThen hcondition
  · exact (h.tokens header).map fun _ _ hcondition => .whileLoop hcondition
  · exact carries_resolveForHeader h header

theorem carries_localDeclaration (h : like.Resolves scope scope') (ty : Ty)
    (tokens : List String) :
    Carries (Effect.Alike like) (localDeclaration scope ty tokens)
      (localDeclaration scope' ty tokens) := by
  unfold localDeclaration
  apply Carries.bind_same
  intro inner _
  split
  · exact .ok (.declares .none)
  · split
    · apply (h.tokens _).bind
      exact fun _ _ hvalue => .ok (.declares (.some hvalue))
    · exact .error _ _
  · exact .error _ _

theorem carries_simpleStatement (h : like.Resolves scope scope') (hline : like.line number number)
    (word : String) (rest : List String) :
    Carries (Statement.Alike like) (simpleStatement scope kind number word rest)
      (simpleStatement scope' kind number word rest) := by
  unfold simpleStatement
  split
  · apply Carries.bind_same
    intro tokens _
    split
    · exact .ok (.ret hline .none)
    · apply (h.tokens tokens).bind
      exact fun _ _ hvalue => .ok (.ret hline (.some hvalue))
  · split
    · apply Carries.same
      intro statement hstatement
      obtain ⟨target, -, rfl⟩ := map_eq_ok_iff.1 hstatement
      exact .stateChange hline
    · exact .error _ _
  · apply Carries.same
    intro statement hstatement
    obtain ⟨label, -, rfl⟩ := map_eq_ok_iff.1 hstatement
    exact .jump hline
  · apply Carries.same
    intro statement hstatement
    obtain ⟨label, -, rfl⟩ := map_eq_ok_iff.1 hstatement
    exact .label hline
  · apply Carries.bind_same
    intro tokens _
    apply (h.tokens tokens).bind
    exact fun _ _ hvalue => .ok (.expression hline hvalue)

theorem carries_readEffect (h : like.Resolves scope scope') (hline : like.line number number)
    {hole hole' : Hole} (hhole : hole.Alike like hole') (tokens : List String) :
    Carries (Effect.Alike like) (readEffect scope kind number hole tokens)
      (readEffect scope' kind number hole' tokens) := by
  -- Behind a header fewer tokens are left, and the place is deeper.
  induction hlength : tokens.length using Nat.strong_induction_on generalizing tokens hole hole'
  rename_i length ih
  cases tokens with
  | nil =>
      rw [readEffect.eq_def]
      exact .error _ _
  | cons word rest =>
      rw [readEffect_cons, readEffect_cons]
      split
      · exact .ok (.opens hhole)
      split
      · exact .error _ _
      split
      · exact .ok (.complete hhole (.empty hline))
      split
      · exact .error _ _
      split
      · apply Carries.bind_same
        rintro ⟨header, after⟩ hcut
        have hshorter := splitHeader_length (mapError_eq_ok_iff.1 hcut)
        apply (carries_resolveControl h word header).bind
        intro control control' hcontrol
        rw [List.length_cons] at hlength
        exact ih after.length (by omega) (.body hcontrol hhole) after rfl
      split
      · split
        · exact .ok (.opensDo hhole)
        · exact .error _ _
      split
      · exact .error _ _
      rw [← hhole.isStatement_eq]
      split
      · split
        · exact carries_localDeclaration h _ rest
        · exact .error _ _
      · apply (carries_simpleStatement h hline word rest).map
        exact fun _ _ hstatement => .complete hhole hstatement

end

/-! ### Bodies -/

structure Waiting.Alike (like : Likeness) (first second : Waiting) : Prop where
  line : like.line first.line second.line
  statements : List.Forall₂ (Statement.Alike like) first.statements second.statements
  hole : first.hole.Alike like second.hole
  isDo : first.isDo = second.isDo

/-- A place and a block for it. -/
def DoBlockAlike (like : Likeness) (first second : Hole × Block) : Prop :=
  first.1.Alike like second.1 ∧ first.2.Alike like second.2

namespace Body

structure Alike (like : Likeness) (first second : Body) : Prop where
  line : like.line first.line second.line
  statements : List.Forall₂ (Statement.Alike like) first.statements second.statements
  waiting : List.Forall₂ (Waiting.Alike like) first.waiting second.waiting
  doBlock : Option.Rel (DoBlockAlike like) first.doBlock second.doBlock

inductive Progress.Alike (like : Likeness) : Progress → Progress → Prop where
  | more {symbols symbols' body body'} : Symbols.Alike like symbols symbols' →
      Body.Alike like body body' → Progress.Alike like (.more symbols body) (.more symbols' body')
  | finished {symbols symbols' block block'} : Symbols.Alike like symbols symbols' →
      Block.Alike like block block' →
      Progress.Alike like (.finished symbols block) (.finished symbols' block')

variable {like : Likeness} {kind : BodyKind} {symbols symbols' : Symbols} {body body' : Body}

theorem Alike.opened {line : Nat} (h : like.line line line) :
    (Body.opened line).Alike like (.opened line) :=
  ⟨h, .nil, .nil, .none⟩

theorem Alike.put (h : body.Alike like body') {hole hole' : Hole} (hhole : hole.Alike like hole')
    {statement statement' : Statement} (hstatement : statement.Alike like statement') :
    (body.put hole statement).Alike like (body'.put hole' statement') :=
  { h with statements := hhole.putStatement h.statements hstatement }

theorem Alike.descend (h : body.Alike like body') {line : Nat} (hline : like.line line line)
    {hole hole' : Hole} (hhole : hole.Alike like hole') (isDo : Bool) :
    (body.descend line hole isDo).Alike like (body'.descend line hole' isDo) :=
  ⟨hline, .nil, .cons ⟨h.line, h.statements, hhole, rfl⟩ h.waiting, .none⟩

theorem carries_close (hsymbols : symbols.Alike like symbols') (h : body.Alike like body') :
    Carries (Progress.Alike like) (body.close symbols) (body'.close symbols') := by
  obtain ⟨line, statements, waiting, doBlock⟩ := body
  obtain ⟨line', statements', waiting', doBlock'⟩ := body'
  obtain ⟨hline, hstatements, hwaiting, -⟩ := h
  have hblock : (Block.mk line true statements).Alike like (.mk line' true statements') :=
    .mk hline hstatements
  cases hwaiting with
  | nil => exact .ok (.finished hsymbols hblock)
  | @cons outer outer' others others' houter hothers =>
      intro progress hprogress
      simp only [close, bind_eq_ok_iff, onLine_eq_ok_iff] at hprogress
      obtain ⟨closed, hclosed, hprogress⟩ := hprogress
      obtain ⟨closed', hclosed', hsame⟩ := hsymbols.closeScope closed hclosed
      simp only [close, hclosed', onLine, ok_mapError, ok_bind, ← houter.isDo]
      split at hprogress
      · rename_i hdo
        cases hprogress
        rw [if_pos hdo]
        exact ⟨_, rfl, .more hsame
          ⟨houter.line, houter.statements, hothers, .some ⟨houter.hole, hblock⟩⟩⟩
      · rename_i hdo
        cases hprogress
        rw [if_neg hdo]
        exact ⟨_, rfl, .more hsame
          ⟨houter.line, houter.hole.putBlock houter.statements hblock, hothers, .none⟩⟩

theorem carries_closeDo (hsymbols : symbols.Alike like symbols')
    (hresolves : like.Resolves symbols.scope symbols'.scope) (h : body.Alike like body')
    {hole hole' : Hole} (hhole : hole.Alike like hole') {block block' : Block}
    (hblock : block.Alike like block') (tokens : List String) :
    Carries (Progress.Alike like) (body.closeDo symbols hole block tokens)
      (body'.closeDo symbols' hole' block' tokens) := by
  unfold closeDo
  split
  · exact .error _ _
  · split
    · apply Carries.bind_same
      rintro ⟨header, after⟩ _
      simp only
      split
      · apply (hresolves.tokens header).bind
        intro condition condition' hcondition
        have hput := h.put hhole (.doWhile hblock.line hblock hcondition)
        exact .ok (.more hsymbols { hput with doBlock := .none })
      · exact .error _ _
    · exact .error _ _

theorem carries_apply (hlike : like.Lawful) (hsymbols : symbols.Alike like symbols')
    (h : body.Alike like body') {number : Nat} (hnumber : like.line number number)
    {effect effect' : Effect} (heffect : effect.Alike like effect') :
    Carries (Progress.Alike like) (body.apply symbols number effect)
      (body'.apply symbols' number effect') := by
  cases heffect with
  | complete hhole hstatement => exact .ok (.more hsymbols (h.put hhole hstatement))
  | @declares ty name value value' hvalue =>
      apply (hsymbols.declare hlike name ty).bind
      intro declared declared' hdeclared
      exact .ok (.more hdeclared (h.put .statement (.declaration hnumber hvalue)))
  | opens hhole => exact .ok (.more hsymbols.openScope (h.descend hnumber hhole false))
  | opensDo hhole => exact .ok (.more hsymbols.openScope (h.descend hnumber hhole true))

theorem carries_readStatement (hlike : like.Lawful) (hsymbols : symbols.Alike like symbols')
    (hresolves : like.Resolves symbols.scope symbols'.scope) (h : body.Alike like body')
    {line : Line} (hnumber : like.line line.number line.number) :
    Carries (Progress.Alike like) (body.readStatement symbols kind line)
      (body'.readStatement symbols' kind line) := by
  unfold readStatement
  rw [takesElse_eq hnumber h.statements]
  split
  · split
    · apply (carries_readEffect hresolves hnumber .elseBranch _).bind
      exact fun _ _ heffect => carries_apply hlike hsymbols h hnumber heffect
    · exact .error _ _
  · apply (carries_readEffect hresolves hnumber .statement _).bind
    exact fun _ _ heffect => carries_apply hlike hsymbols h hnumber heffect

/-- A line of the first body is a line of the second, and the bodies stay alike. -/
theorem carries_step (hlike : like.Lawful) (hsymbols : symbols.Alike like symbols')
    (hclear : symbols.scope.Clear) (h : body.Alike like body') {line : Line}
    (hnumber : like.line line.number line.number) :
    Carries (Progress.Alike like) (body.step symbols kind line)
      (body'.step symbols' kind line) := by
  have hresolves := hsymbols.resolves hlike hclear
  have hdo := h.doBlock
  unfold step
  generalize body.doBlock = waits, body'.doBlock = waits' at hdo ⊢
  cases hdo with
  | some hdo => exact .onLine _ _ (carries_closeDo hsymbols hresolves h hdo.1 hdo.2 _)
  | none =>
      simp only
      split
      · exact carries_close hsymbols h
      · exact .onLine _ _ (carries_readStatement hlike hsymbols hresolves h hnumber)

end Body

end LslFront
