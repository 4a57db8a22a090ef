import LslFront.Proofs.Block.Matching
import LslFront.Proofs.Block.Moves
import LslFront.Proofs.Line.Grouping
import LslFront.Proofs.Source.Reach
import LslFront.Proofs.Source.Runs

/-!
# Where a body ends

The blocks that are open in a body can be counted without reading it: one more for each line that
ends in `{`, one less for each line that is a lone `}`.  The reader of the body has them on its
stack.  Every line that it accepts changes both counts alike, whatever the line opens or closes and
for whatever statement, so the body ends where the count of the lines first says so, and nothing
behind its own `}` has been taken from the source.

A brace that stands elsewhere in a line would not be counted.  No line that is accepted has one.
-/

namespace LslFront

/-! ### Counting braces -/

/-- What the line adds to the number of open blocks. -/
def Line.braceStep (line : Line) : Int :=
  if line.tokens.getLast? = some "\x7b" then 1
  else if line.tokens = ["\x7d"] then -1
  else 0

/-- How many more blocks the lines open than they close. -/
def braceBalance (lines : List Line) : Int :=
  (lines.map Line.braceStep).sum

@[simp] theorem braceBalance_nil : braceBalance [] = 0 := rfl

@[simp] theorem braceBalance_cons (line : Line) (lines : List Line) :
    braceBalance (line :: lines) = line.braceStep + braceBalance lines := by
  simp [braceBalance]

@[simp] theorem braceBalance_append (lines more : List Line) :
    braceBalance (lines ++ more) = braceBalance lines + braceBalance more := by
  simp [braceBalance]

/-- The braces of the line are those that count: an opening one is its last token, and a closing
    one its only token. -/
structure Line.BracesCounted (line : Line) : Prop where
  inner : ∀ token ∈ line.tokens.dropLast, token ≠ "\x7b" ∧ token ≠ "\x7d"
  alone : line.tokens.getLast? = some "\x7d" → line.tokens = ["\x7d"]

/-! ### Lines that are handed out -/

theorem not_brace_of_foldlM {tokens : List String} {depth after : Nat}
    (h : tokens.foldlM lineStep depth = some after) :
    ∀ token ∈ tokens, token ≠ "\x7b" ∧ token ≠ "\x7d" := by
  induction tokens generalizing depth with
  | nil => simp
  | cons token rest ih =>
      obtain ⟨between, hstep, hrest⟩ := foldlM_cons_eq_some_iff.1 h
      refine List.forall_mem_cons.mpr ⟨⟨?_, ?_⟩, ih hrest⟩
      · rintro rfl
        cases hstep
      · rintro rfl
        cases hstep

/-- A brace ends the line that it stands in. -/
theorem Ends.not_brace {tokens : List String} {depth after : Nat} {rest : List Char}
    (h : Ends depth tokens after rest) :
    ∀ token ∈ tokens.dropLast, token ≠ "\x7b" ∧ token ≠ "\x7d" := by
  cases h with
  | token hinit _ =>
      rw [List.dropLast_concat]
      exact not_brace_of_foldlM hinit
  | lineFeed _ hfold | source hfold =>
      exact fun token hmem => not_brace_of_foldlM hfold token (List.mem_of_mem_dropLast hmem)

namespace Source

variable {limit : Nat} {source after : Source limit}

theorem Hands.not_brace {lines : List Line} (h : source.Hands lines after) :
    ∀ line ∈ lines, ∀ token ∈ line.tokens.dropLast, token ≠ "\x7b" ∧ token ≠ "\x7d" := by
  induction h with
  | nil => simp
  | cons hline _ ih =>
      obtain ⟨lexer, place, hlexer⟩ := exists_lexer_of_nextLine hline
      exact List.forall_mem_cons.mpr ⟨(Lexer.ends_nextLine hlexer).2.not_brace, ih⟩

end Source

/-! ### Lines that are accepted -/

/-- The token that ends a line which does this. -/
def Effect.lastToken : Effect → String
  | .complete .. | .declares .. => ";"
  | .opens _ | .opensDo _ => "\x7b"

section

variable {scope : Scope} {kind : BodyKind} {number : Nat} {word last : String}
  {tokens rest : List String}

theorem getLast?_cons_of (word : String) (h : rest.getLast? = some last) :
    (word :: rest).getLast? = some last := by
  rw [List.getLast?_cons, h]
  rfl

theorem getLast?_of_withoutSemicolon {body : List String}
    (h : withoutSemicolon tokens = .ok body) : tokens.getLast? = some ";" := by
  unfold withoutSemicolon at h
  split at h
  · rename_i last hlast
    split at h
    · rename_i hsemicolon
      rw [hlast, hsemicolon]
    · cases h
  · cases h

theorem getLast?_of_singleName {keyword name : String} (h : singleName keyword tokens = .ok name) :
    tokens.getLast? = some ";" := by
  unfold singleName at h
  split at h
  · split at h
    · rename_i hname
      rw [hname.1]
      rfl
    · cases h
  · cases h

theorem getLast?_of_simpleStatement {statement : Statement}
    (h : simpleStatement scope kind number word rest = .ok statement) :
    (word :: rest).getLast? = some ";" := by
  unfold simpleStatement at h
  split at h
  · obtain ⟨body, hbody, -⟩ := bind_eq_ok_iff.1 h
    exact getLast?_cons_of _ (getLast?_of_withoutSemicolon (mapError_eq_ok_iff.1 hbody))
  · split at h
    · obtain ⟨name, hname, -⟩ := map_eq_ok_iff.1 h
      exact getLast?_cons_of _ (getLast?_of_singleName (mapError_eq_ok_iff.1 hname))
    · cases h
  · obtain ⟨name, hname, -⟩ := map_eq_ok_iff.1 h
    exact getLast?_cons_of _ (getLast?_of_singleName (mapError_eq_ok_iff.1 hname))
  · obtain ⟨name, hname, -⟩ := map_eq_ok_iff.1 h
    exact getLast?_cons_of _ (getLast?_of_singleName (mapError_eq_ok_iff.1 hname))
  · obtain ⟨body, hbody, -⟩ := bind_eq_ok_iff.1 h
    exact getLast?_of_withoutSemicolon (mapError_eq_ok_iff.1 hbody)

/-- What a line does is seen from the token that it ends with. -/
theorem getLast?_of_readEffect {hole : Hole} {effect : Effect}
    (h : readEffect scope kind number hole tokens = .ok effect) :
    tokens.getLast? = some effect.lastToken := by
  fun_induction readEffect scope kind number hole tokens with
  | case2 hole word rest hbrace =>
      cases h
      rw [hbrace.1, hbrace.2]
      rfl
  | case4 hole word rest _ _ hsemicolon =>
      cases h
      rw [hsemicolon.1, hsemicolon.2]
      rfl
  | case8 hole word rest _ _ _ _ _ header after cut _ _ _ ih =>
      obtain ⟨⟨close, -, hrest⟩, -⟩ := splitHeader_eq_ok_iff.1 cut
      have hafter : (header ++ close :: after).getLast? = some effect.lastToken := by
        rw [List.getLast?_append, getLast?_cons_of close (ih h)]
        rfl
      rw [hrest]
      exact getLast?_cons_of _ (getLast?_cons_of _ hafter)
  | case9 =>
      cases h
      rfl
  | case12 hole word rest _ _ _ _ _ _ _ ty =>
      unfold localDeclaration at h
      obtain ⟨body, hbody, hrest⟩ := bind_eq_ok_iff.1 h
      obtain ⟨name, value, rfl⟩ := exists_of_localDeclaration h
      exact getLast?_cons_of _ (getLast?_of_withoutSemicolon (mapError_eq_ok_iff.1 hbody))
  | case14 hole word rest =>
      obtain ⟨statement, hstatement, rfl⟩ := map_eq_ok_iff.1 h
      exact getLast?_of_simpleStatement hstatement
  | _ => cases h

end

namespace Body

variable {symbols : Symbols} {kind : BodyKind} {body : Body} {progress : Progress}

/-- How many blocks are open inside the body.  One less than none when it is complete. -/
def Progress.depth : Progress → Int
  | .more _ body => body.waiting.length
  | .finished .. => -1

theorem depth_of_apply {effect : Effect} {number : Nat}
    (h : body.apply symbols number effect = .ok progress) :
    effect.lastToken = ";" ∧ progress.depth = body.waiting.length ∨
      effect.lastToken = "\x7b" ∧ progress.depth = body.waiting.length + 1 := by
  cases effect with
  | complete hole statement =>
      cases h
      exact .inl ⟨rfl, rfl⟩
  | declares ty name value =>
      obtain ⟨symbols', -, h⟩ := bind_eq_ok_iff.1 h
      cases h
      exact .inl ⟨rfl, rfl⟩
  | opens hole | opensDo hole =>
      cases h
      exact .inr ⟨rfl, by simp [Progress.depth, descend]⟩

theorem depth_of_close (h : body.close symbols = .ok progress) :
    progress.depth = body.waiting.length - 1 := by
  unfold close at h
  simp only at h
  split at h
  · rename_i hwaiting
    cases h
    simp [Progress.depth, hwaiting]
  · rename_i outer others hwaiting
    simp only [bind_eq_ok_iff] at h
    obtain ⟨symbols', -, h⟩ := h
    split at h <;> cases h <;> simp [Progress.depth, hwaiting]

theorem depth_of_closeDo {hole : Hole} {block : Block} {tokens : List String}
    (h : body.closeDo symbols hole block tokens = .ok progress) :
    tokens.getLast? = some ";" ∧ progress.depth = body.waiting.length := by
  unfold closeDo at h
  split at h
  · cases h
  · split at h
    · rename_i word rest hword
      simp only [bind_eq_ok_iff, mapError_eq_ok_iff] at h
      obtain ⟨⟨header, after⟩, hcut, h⟩ := h
      simp only at h
      split at h
      · rename_i hafter
        obtain ⟨condition, -, h⟩ := bind_eq_ok_iff.1 h
        cases h
        obtain ⟨⟨close, -, rfl⟩, -⟩ := splitHeader_eq_ok_iff.1 hcut
        exact ⟨by simp [hafter, List.getLast?_cons, List.getLast?_append], rfl⟩
      · cases h
    · cases h

/-- A line that is accepted ends with a semicolon, or opens a block, or is the brace that closes
    one. -/
theorem step_cases {line : Line} (h : body.step symbols kind line = .ok progress) :
    line.tokens.getLast? = some ";" ∧ progress.depth = body.waiting.length ∨
      line.tokens.getLast? = some "\x7b" ∧ progress.depth = body.waiting.length + 1 ∨
      line.tokens = ["\x7d"] ∧ progress.depth = body.waiting.length - 1 := by
  have happly : ∀ {tokens : List String} {hole : Hole} {effect : Effect},
      readEffect symbols.scope kind line.number hole tokens = .ok effect →
      body.apply symbols line.number effect = .ok progress →
      tokens.getLast? = some ";" ∧ progress.depth = body.waiting.length ∨
        tokens.getLast? = some "\x7b" ∧ progress.depth = body.waiting.length + 1 := by
    intro tokens hole effect hread happly
    rw [getLast?_of_readEffect hread]
    simpa using depth_of_apply happly
  unfold step at h
  split at h
  · exact .inl (depth_of_closeDo (onLine_eq_ok_iff.1 h))
  · split at h
    · rename_i hclose
      exact .inr (.inr ⟨hclose, depth_of_close h⟩)
    · replace h := onLine_eq_ok_iff.1 h
      unfold readStatement at h
      split at h
      · rename_i rest helse
        split at h
        · obtain ⟨effect, hread, h⟩ := bind_eq_ok_iff.1 h
          rw [helse]
          rcases happly hread h with ⟨hlast, hdepth⟩ | ⟨hlast, hdepth⟩
          · exact .inl ⟨getLast?_cons_of _ hlast, hdepth⟩
          · exact .inr (.inl ⟨getLast?_cons_of _ hlast, hdepth⟩)
        · cases h
      · obtain ⟨effect, hread, h⟩ := bind_eq_ok_iff.1 h
        rcases happly hread h with hends | hends
        · exact .inl hends
        · exact .inr (.inl hends)

/-- The line changes the count of the lines as it changes the stack. -/
theorem depth_of_step {line : Line} (h : body.step symbols kind line = .ok progress) :
    progress.depth = body.waiting.length + line.braceStep := by
  rcases step_cases h with ⟨hlast, hdepth⟩ | ⟨hlast, hdepth⟩ | ⟨htokens, hdepth⟩
  · have hclose : line.tokens ≠ ["\x7d"] := by
      intro htokens
      simp [htokens] at hlast
    simp [Line.braceStep, hlast, hclose, hdepth]
  · simp [Line.braceStep, hlast, hdepth]
  · rw [hdepth, Line.braceStep, htokens]
    rfl

theorem bracesCounted_of_step {line : Line} (h : body.step symbols kind line = .ok progress)
    (hinner : ∀ token ∈ line.tokens.dropLast, token ≠ "\x7b" ∧ token ≠ "\x7d") :
    line.BracesCounted where
  inner := hinner
  alone hclose := by
    rcases step_cases h with ⟨hlast, -⟩ | ⟨hlast, -⟩ | ⟨htokens, -⟩
    · simp [hlast] at hclose
    · simp [hlast] at hclose
    · exact htokens

/-! ### Runs -/

variable {state final : Symbols × Body} {lines : List Line} {line : Line}

theorem step_of_machine_more (h : (machine kind).step state line = .ok (.more final)) :
    state.2.step state.1 kind line = .ok (.more final.1 final.2) := by
  obtain ⟨progress, hstep, h⟩ := bind_eq_ok_iff.1 h
  cases progress with
  | more symbols body =>
      cases h
      exact hstep
  | finished symbols block => cases h

theorem step_of_machine_finished {result : Symbols × Block}
    (h : (machine kind).step state line = .ok (.finished result)) :
    state.2.step state.1 kind line = .ok (.finished result.1 result.2) := by
  obtain ⟨progress, hstep, h⟩ := bind_eq_ok_iff.1 h
  cases progress with
  | more symbols body => cases h
  | finished symbols block =>
      cases h
      exact hstep

/-- On the way the stack is as high as the lines say. -/
theorem balance_of_passes (h : (machine kind).Passes state lines final) :
    (final.2.waiting.length : Int) = state.2.waiting.length + braceBalance lines := by
  induction h with
  | nil => simp
  | cons hstep _ ih =>
      have hdepth := depth_of_step (step_of_machine_more hstep)
      rw [Progress.depth] at hdepth
      rw [ih, hdepth, braceBalance_cons, Int.add_assoc]

theorem bracesCounted_of_passes (h : (machine kind).Passes state lines final)
    (hinner : ∀ line ∈ lines, ∀ token ∈ line.tokens.dropLast, token ≠ "\x7b" ∧ token ≠ "\x7d") :
    ∀ line ∈ lines, line.BracesCounted := by
  induction h with
  | nil => simp
  | cons hstep _ ih =>
      obtain ⟨hline, hrest⟩ := List.forall_mem_cons.mp hinner
      have hcounted := bracesCounted_of_step (step_of_machine_more hstep) hline
      exact List.forall_mem_cons.mpr ⟨hcounted, ih hrest⟩

/-- No line of a body under way closes more than has been opened in it. -/
theorem balance_nonneg {number : Nat} {others : List Line}
    (h : (machine kind).Passes (symbols, .opened number) lines final) (hbegins : others <+: lines) :
    0 ≤ braceBalance others := by
  obtain ⟨more, rfl⟩ := hbegins
  obtain ⟨middle, hmiddle, -⟩ := h.exists_of_append
  have hbalance := balance_of_passes hmiddle
  simp only [opened, List.length_nil] at hbalance
  omega

/-- The line that finishes a body is a `}` outside of the blocks inside it. -/
theorem closes_of_finished {number : Nat} {symbols' : Symbols} {block : Block}
    (h : (machine kind).Passes (symbols, .opened number) lines final)
    (hlast : final.2.step final.1 kind line = .ok (.finished symbols' block)) :
    line.tokens = ["\x7d"] ∧ braceBalance (lines ++ [line]) = -1 := by
  have hbalance := balance_of_passes h
  have hdepth := depth_of_step hlast
  simp only [opened, List.length_nil, Progress.depth] at hbalance hdepth
  constructor
  · rcases step_cases hlast with ⟨-, hfinal⟩ | ⟨-, hfinal⟩ | ⟨htokens, -⟩
    · simp only [Progress.depth] at hfinal
      omega
    · simp only [Progress.depth] at hfinal
      omega
    · exact htokens
  · rw [braceBalance_append, braceBalance_cons, braceBalance_nil]
    omega

end Body

/-- The lines of a body that has been read: the last one finishes it, and no other. -/
theorem exists_passes_of_readBody {limit : Nat} {symbols symbols' : Symbols} {kind : BodyKind}
    {line : Nat} {source after : Source limit} {block : Block}
    (h : readBody symbols kind line source = .ok ((symbols', block), after)) :
    ∃ before last final, source.Hands (before ++ [last]) after ∧
      (Body.machine kind).Passes (symbols, .opened line) before final ∧
      final.2.step final.1 kind last = .ok (.finished symbols' block) := by
  have hsplice : ∀ state line next name once,
      (Body.machine kind).step state line ≠ .ok (.splice next name once) := by
    intro state line next name once hstep
    rcases Body.moves_of_machine hstep with ⟨_, _, hnext, -⟩ | ⟨_, _, hnext, -⟩ <;> cases hnext
  have hend : ∀ state lastLine result, (Body.machine kind).atEnd state lastLine ≠ .ok result := by
    intro state lastLine result hend
    cases hend
  obtain ⟨before, last, final, hhands, hpasses, hfinished⟩ :=
    Source.exists_passes_of_run hsplice hend h
  exact ⟨before, last, final, hhands, hpasses, Body.step_of_machine_finished hfinished⟩

/-! ### The lines of a body -/

/-- The lines are the first that the source hands out, up to the lone `}` that closes one block more
    than they open.  The source is at `after` behind them. -/
structure Source.Closes {limit : Nat} (source : Source limit) (lines : List Line)
    (after : Source limit) : Prop where
  hands : source.Hands lines after
  balance : braceBalance lines = -1
  /-- The source has no shorter beginning of this balance. -/
  shortest : ∀ others place, source.Hands others place → braceBalance others = -1 → lines <+: others
  own : ∃ before number, lines = before ++ [⟨number, ["\x7d"]⟩]
  counted : ∀ line ∈ lines, line.BracesCounted

/-- A body that has been read has taken the lines up to its own closing brace from the source, and
    none behind it. -/
theorem readBody_extent {limit : Nat} {symbols symbols' : Symbols} {kind : BodyKind} {line : Nat}
    {source after : Source limit} {block : Block}
    (h : readBody symbols kind line source = .ok ((symbols', block), after)) :
    ∃ lines, source.Closes lines after := by
  obtain ⟨before, last, final, hhands, hpasses, hlast⟩ := exists_passes_of_readBody h
  obtain ⟨htokens, hbalance⟩ := Body.closes_of_finished hpasses hlast
  refine ⟨before ++ [last], hhands, hbalance, ?_, ⟨before, last.number, ?_⟩, ?_⟩
  · intro others place hothers hclosed
    rcases hhands.comparable hothers with hbegins | hbegins
    · exact hbegins
    · -- A beginning that is shorter has not closed more than it has opened.
      rcases List.prefix_concat_iff.mp hbegins with rfl | hinner
      · exact List.prefix_rfl
      · have hnonneg := Body.balance_nonneg hpasses hinner
        omega
  · rw [← htokens]
  · obtain ⟨hinner, hown⟩ := List.forall_mem_append.mp hhands.not_brace
    refine List.forall_mem_append.mpr ⟨Body.bracesCounted_of_passes hpasses hinner, ?_⟩
    rw [List.forall_mem_singleton] at hown ⊢
    exact Body.bracesCounted_of_step hlast hown

/-- Blocks of a branch, of a `do` and of an `else` are closed before the body is. -/
theorem readBody_extent_nested :
    let source := Source.ofText
      "if (a) \x7b x = 1; \x7d else do \x7b ; \x7d while (b); \x7d state other \x7b" 0
    let symbols := (Symbols.ofDialect .standard).openScope
    ∃ symbols' block after, readBody symbols .event 1 source = .ok ((symbols', block), after)
      ∧ after.top.rest = " state other \x7b".toList
      ∧ ∃ lines, source.Closes lines after := by
  intro source symbols
  have hcomputed : ((source.runFor (Body.machine .event) .none 8 (symbols, .opened 1)).bind
      Except.toOption).map (fun answer => answer.2.top.rest)
        = some " state other \x7b".toList := by decide +kernel
  obtain ⟨⟨symbols', block⟩, after, hread, hrest⟩ := Source.exists_of_runFor hcomputed
  exact ⟨symbols', block, after, hread, hrest, readBody_extent hread⟩

end LslFront
