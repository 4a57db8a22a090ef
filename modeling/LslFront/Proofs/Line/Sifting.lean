import LslFront.Proofs.Line.Gathering
import LslFront.Proofs.Line.Writing

/-!
# What the lexer keeps of a source

Sifting a source drops the blanks and comments that stand between its tokens and copies its
literals.  The lexer does the same in passing, while it cuts the source into lines and tokens: it
accepts just those sources whose literals, comments and parentheses are closed, and what it keeps
is what sifting leaves.  Sources with a `#` in code are left out, since in a preprocessor line a
line feed counts and the name of an include is no code.
-/

namespace LslFront

/-! ### Sifting -/

/-- A character that is dropped between tokens. -/
def isSpacing (c : Char) : Bool :=
  c == ' ' || c == '\t' || c == '\r' || c == '\n'

/-- A part of a source that is kept: a character of code, or a literal with its quotes. -/
inductive Part where
  | code (c : Char)
  | literal (text : List Char)
deriving DecidableEq, Repr

def Part.chars : Part → List Char
  | .code c => [c]
  | .literal text => text

/-- The parts of a source that are kept, and whether its literals and block comments all end. -/
structure Sifted where
  parts : List Part
  closed : Bool
deriving DecidableEq, Repr

namespace Sifted

def prepend (parts : List Part) (sifted : Sifted) : Sifted :=
  { sifted with parts := parts ++ sifted.parts }

def chars (sifted : Sifted) : List Char :=
  sifted.parts.flatMap Part.chars

end Sifted

/-- The kind of text that the next character stands in.  A literal comes with what has been read of
    it. -/
inductive Stretch where
  | code
  | lineComment
  | blockComment
  | literal (quote : Char) (text : List Char)
deriving DecidableEq, Repr

def sift : Stretch → List Char → Sifted
  | .code, '/' :: '/' :: rest => sift .lineComment rest
  | .code, '/' :: '*' :: rest => sift .blockComment rest
  | .code, c :: rest =>
      if isSpacing c then sift .code rest
      else if c = '"' ∨ c = '\'' then sift (.literal c [c]) rest
      else (sift .code rest).prepend [.code c]
  | .lineComment, c :: rest =>
      if c = '\n' then sift .code rest else sift .lineComment rest
  | .blockComment, '*' :: '/' :: rest => sift .code rest
  | .blockComment, _ :: rest => sift .blockComment rest
  | .literal quote text, '\\' :: c :: rest => sift (.literal quote (text ++ ['\\', c])) rest
  | .literal quote text, c :: rest =>
      if c = quote then (sift .code rest).prepend [.literal (text ++ [c])]
      else sift (.literal quote (text ++ [c])) rest
  | .code, [] | .lineComment, [] => ⟨[], true⟩
  | .blockComment, [] | .literal .., [] => ⟨[], false⟩

def Sifted.ofText (source : String) : Sifted :=
  sift .code source.toList

/-- The count of open parentheses after one more part.  A literal opens none. -/
def parenStep (depth : Nat) : Part → Option Nat
  | .code c =>
      if c = '(' then some (depth + 1)
      else if c = ')' then if depth = 0 then none else some (depth - 1)
      else some depth
  | .literal _ => some depth

theorem singleton_eq_iff {c d : Char} : String.singleton c = String.singleton d ↔ c = d := by
  rw [← String.toList_inj]
  simp

/-- Parentheses are counted alike in characters and in tokens. -/
theorem parenStep_of_lineStep {depth after : Nat} {c : Char}
    (h : lineStep depth (String.singleton c) = some after) :
    parenStep depth (.code c) = some after := by
  have hopening : String.singleton c = "(" ↔ c = '(' := @singleton_eq_iff c '('
  have hclosing : String.singleton c = ")" ↔ c = ')' := @singleton_eq_iff c ')'
  simp only [lineStep, hopening, hclosing] at h
  grind [parenStep]

theorem parenStep_of_endsLine {depth : Nat} {c : Char} (h : EndsLine depth (String.singleton c)) :
    parenStep depth (.code c) = some depth := by
  have hne : c ≠ '(' ∧ c ≠ ')' := by
    constructor
    all_goals
      rintro rfl
      rcases h with h | h | ⟨h, -⟩ <;> exact absurd h (by decide)
  simp [parenStep, hne]

/-- Nothing in the source is left open, if `depth` parentheses are open before it. -/
structure Sifted.Complete (depth : Nat) (sifted : Sifted) : Prop where
  closed : sifted.closed
  balanced : sifted.parts.foldlM parenStep depth = some 0

instance (depth : Nat) (sifted : Sifted) : Decidable (sifted.Complete depth) :=
  decidable_of_iff (sifted.closed ∧ sifted.parts.foldlM parenStep depth = some 0)
    ⟨fun h => ⟨h.1, h.2⟩, fun h => ⟨h.1, h.2⟩⟩

namespace Sifted

@[simp] theorem prepend_nil (sifted : Sifted) : sifted.prepend [] = sifted := rfl

@[simp] theorem prepend_prepend (parts more : List Part) (sifted : Sifted) :
    (sifted.prepend more).prepend parts = sifted.prepend (parts ++ more) := by
  simp [prepend]

@[simp] theorem parts_prepend (parts : List Part) (sifted : Sifted) :
    (sifted.prepend parts).parts = parts ++ sifted.parts := rfl

@[simp] theorem chars_prepend (parts : List Part) (sifted : Sifted) :
    (sifted.prepend parts).chars = parts.flatMap Part.chars ++ sifted.chars := by
  simp [chars]

theorem complete_prepend_iff {parts : List Part} {sifted : Sifted} {depth : Nat} :
    (sifted.prepend parts).Complete depth
      ↔ ∃ after, parts.foldlM parenStep depth = some after ∧ sifted.Complete after := by
  constructor
  · intro h
    have hbalanced := h.balanced
    rw [parts_prepend] at hbalanced
    obtain ⟨after, hparts, hrest⟩ := foldlM_append_eq_some_iff.1 hbalanced
    exact ⟨after, hparts, h.closed, hrest⟩
  · rintro ⟨after, hparts, hrest⟩
    refine ⟨hrest.closed, ?_⟩
    rw [parts_prepend, List.foldlM_append, hparts]
    exact hrest.balanced

end Sifted

/-- A character of code that does not begin a comment. -/
theorem sift_code {c : Char} {rest : List Char} (hline : ∀ more, c = '/' → rest ≠ '/' :: more)
    (hblock : ∀ more, c = '/' → rest ≠ '*' :: more) :
    sift .code (c :: rest) = if isSpacing c then sift .code rest
      else if c = '"' ∨ c = '\'' then sift (.literal c [c]) rest
      else (sift .code rest).prepend [.code c] :=
  sift.eq_3 c rest hline hblock

theorem sift_code_of_ne {c : Char} (h : c ≠ '/') (rest : List Char) :
    sift .code (c :: rest) = if isSpacing c then sift .code rest
      else if c = '"' ∨ c = '\'' then sift (.literal c [c]) rest
      else (sift .code rest).prepend [.code c] :=
  sift_code (fun _ hc => absurd hc h) (fun _ hc => absurd hc h)

theorem sift_spacing {c : Char} (h : isSpacing c) (rest : List Char) :
    sift .code (c :: rest) = sift .code rest := by
  have hslash : c ≠ '/' := by
    rintro rfl
    cases h
  rw [sift_code_of_ne hslash, if_pos h]

theorem sift_quote {c : Char} (h : c = '"' ∨ c = '\'') (rest : List Char) :
    sift .code (c :: rest) = sift (.literal c [c]) rest := by
  have hslash : c ≠ '/' ∧ isSpacing c = false := by
    rcases h with rfl | rfl <;> decide
  rw [sift_code_of_ne hslash.1, if_neg (by simp [hslash.2]), if_pos h]

/-- A character that is kept wherever it stands in code.  A slash is not if it begins a comment. -/
def isKept (c : Char) : Bool :=
  !isSpacing c && c != '"' && c != '\'' && c != '/'

theorem isKept_of_word {c : Char} (h : c ∉ codeMarks) : isKept c := by
  simp only [codeMarks, List.mem_cons, List.not_mem_nil, or_false, not_or] at h
  simp [isKept, isSpacing, h]

theorem isKept_of_mark {c : Char} (h : String.singleton c ∈ markTokens) : isKept c := by
  have hall : ∀ mark ∈ markTokens, mark.toList.all isKept := by decide
  simpa using hall _ h

theorem sift_kept {c : Char} (h : isKept c) (rest : List Char) :
    sift .code (c :: rest) = (sift .code rest).prepend [.code c] := by
  simp only [isKept, Bool.and_eq_true, Bool.not_eq_true', bne_iff_ne, ne_eq] at h
  obtain ⟨⟨⟨hspacing, hdouble⟩, hsingle⟩, hslash⟩ := h
  rw [sift_code_of_ne hslash, if_neg (by simp [hspacing]), if_neg (by simp [hdouble, hsingle])]

/-- A slash is kept if it begins no comment. -/
theorem sift_slash {c : Char} (hslash : c ≠ '/') (hstar : c ≠ '*') (rest : List Char) :
    sift .code ('/' :: c :: rest) = (sift .code (c :: rest)).prepend [.code '/'] := by
  refine sift_code ?_ ?_
  · rintro more - heq
    exact hslash (List.cons.inj heq).1
  · rintro more - heq
    exact hstar (List.cons.inj heq).1

/-- A character of a comment that does not begin its end. -/
theorem sift_blockComment {c : Char} {rest : List Char}
    (h : ∀ more, c = '*' → rest ≠ '/' :: more) :
    sift .blockComment (c :: rest) = sift .blockComment rest :=
  sift.eq_6 c rest h

theorem sift_comment {c : Char} (h : c ≠ '*') (rest : List Char) :
    sift .blockComment (c :: rest) = sift .blockComment rest :=
  sift_blockComment fun _ hc => absurd hc h

theorem sift_star {c : Char} (h : c ≠ '/') (rest : List Char) :
    sift .blockComment ('*' :: c :: rest) = sift .blockComment (c :: rest) :=
  sift_blockComment fun _ _ heq => h (List.cons.inj heq).1

theorem sift_literal {c : Char} (h : c ≠ '\\') (quote : Char) (text rest : List Char) :
    sift (.literal quote text) (c :: rest)
      = if c = quote then (sift .code rest).prepend [.literal (text ++ [c])]
        else sift (.literal quote (text ++ [c])) rest :=
  sift.eq_8 quote text c rest fun _ _ hc _ => h hc

/-! ### Where the machine stands -/

/-- The mode is that of a stretch of text, with these characters read ahead. -/
inductive ScanMode.Stands : ScanMode → Stretch → List Char → Prop where
  | code : Stands .code .code []
  | slash : Stands .slash .code ['/']
  | lineComment : Stands .lineComment .lineComment []
  | blockComment : Stands .blockComment .blockComment []
  | blockStar : Stands .blockStar .blockComment ['*']
  | literal {quote : Char} {start : Nat} {text : String} : quote = '"' ∨ quote = '\'' →
      text.toList.head? = some quote →
      Stands (.literal quote start text) (.literal quote text.toList) []
  | escape {quote : Char} {start : Nat} {text : String} : quote = '"' ∨ quote = '\'' →
      text.toList.head? = some quote →
      Stands (.escape quote start (text.push '\\')) (.literal quote text.toList) ['\\']

/-- A line that does not begin with a `#`. -/
structure Draft.Plain (draft : Draft) : Prop where
  whole : draft.Whole
  unmarked : draft.chars.head? ≠ some '#'

namespace Draft.Plain

variable {draft : Draft} {line : Nat}

theorem empty : Draft.empty.Plain :=
  ⟨whole_empty, by simp⟩

theorem flush (h : draft.Plain) : draft.flush.Plain :=
  ⟨h.whole.flush, by simpa using h.unmarked⟩

theorem isDirective_eq_false (h : draft.Plain) :
    isDirective (draft.tokens.head?.getD draft.word) = false := by
  have hunmarked := h.unmarked
  cases htokens : draft.tokens with
  | nil => simpa [isDirective, chars, htokens] using hunmarked
  | cons first rest =>
      rw [h.whole.head?_chars htokens] at hunmarked
      simpa [isDirective] using hunmarked

theorem isPreprocessor_eq_false (h : draft.Plain) : draft.isPreprocessor = false := by
  have hdirective := h.isDirective_eq_false
  unfold isPreprocessor
  cases htokens : draft.tokens with
  | nil => rfl
  | cons first rest => simpa [htokens] using hdirective

theorem push (h : draft.Plain) {c : Char} (hc : c ≠ '#') : (draft.push c line).Plain where
  whole := h.whole.push c line
  unmarked := by
    have hunmarked := h.unmarked
    rw [chars_push]
    cases hchars : draft.chars with
    | nil => simpa using hc
    | cons d more => simpa [hchars] using hunmarked

end Draft.Plain

/-- From one state to the other these parts of the source are taken up. -/
structure Scan.TakesUp (scan next : Scan) (parts : List Part) : Prop where
  whole : next.draft.Whole
  chars : next.draft.chars = scan.draft.chars ++ parts.flatMap Part.chars
  depth : parts.foldlM parenStep scan.depth = some next.depth
  quoted : ∀ text, .literal text ∈ parts → text.head? = some '"' ∨ text.head? = some '\''

namespace Scan.TakesUp

variable {scan next last : Scan} {parts more : List Part}

theorem nil (hwhole : next.draft.Whole) (hchars : next.draft.chars = scan.draft.chars)
    (hdepth : next.depth = scan.depth) : scan.TakesUp next [] where
  whole := hwhole
  chars := by simp [hchars]
  depth := by simp [hdepth]
  quoted := by simp

theorem append (hfirst : scan.TakesUp next parts) (hrest : next.TakesUp last more) :
    scan.TakesUp last (parts ++ more) where
  whole := hrest.whole
  chars := by rw [hrest.chars, hfirst.chars, List.flatMap_append, List.append_assoc]
  depth := by
    rw [List.foldlM_append, hfirst.depth]
    exact hrest.depth
  quoted := by
    intro text hmem
    rcases List.mem_append.mp hmem with hmem | hmem
    · exact hfirst.quoted text hmem
    · exact hrest.quoted text hmem

theorem code {c : Char} (hwhole : next.draft.Whole)
    (hchars : next.draft.chars = scan.draft.chars ++ [c])
    (hdepth : parenStep scan.depth (.code c) = some next.depth) :
    scan.TakesUp next [.code c] where
  whole := hwhole
  chars := by simp [hchars, Part.chars]
  depth := by simpa using hdepth
  quoted := by simp

/-- A line that does not begin with a `#` goes on without one. -/
theorem plain (h : scan.TakesUp next parts) (hplain : scan.draft.Plain)
    (hcode : .code '#' ∉ parts) : next.draft.Plain := by
  refine ⟨h.whole, ?_⟩
  have hunmarked := hplain.unmarked
  rw [h.chars]
  cases hchars : scan.draft.chars with
  | cons c rest => simpa [hchars] using hunmarked
  | nil =>
      cases parts with
      | nil => simp
      | cons part rest =>
          cases part with
          | code c =>
              have hne : c ≠ '#' := by
                rintro rfl
                exact hcode List.mem_cons_self
              simpa [Part.chars] using hne
          | literal text =>
              have hquoted := h.quoted text (by simp)
              cases text with
              | nil => simp at hquoted
              | cons c more =>
                  rcases hquoted with hquoted | hquoted
                  all_goals
                    obtain rfl := Option.some.inj hquoted
                    simp [Part.chars]

end Scan.TakesUp

/-- What a step makes of a state, if sifting makes `sifted rest` of what was read ahead, the step's
    character and the rest. -/
def ScanStep.Sifts (scan : Scan) (sifted : List Char → Sifted) : ScanStep → Prop
  | .more next => ∃ stretch ahead, ∃ parts : List Part, next.mode.Stands stretch ahead ∧
      scan.TakesUp next parts ∧ ∀ rest, sifted rest = (sift stretch (ahead ++ rest)).prepend parts
  | .done last => ∃ parts : List Part, (last.draft.word = "" ∧ last.draft.chars ≠ []) ∧
      scan.TakesUp last parts ∧ ∀ rest, sifted rest = (sift .code rest).prepend parts
  | .refused _ => ∃ parts : List Part, parts.foldlM parenStep scan.depth = none ∧
      ∀ rest, ∃ more : Sifted, sifted rest = more.prepend parts

theorem ScanStep.Sifts.prepend {scan middle : Scan} {parts : List Part}
    {sifted : List Char → Sifted} {step : ScanStep} (hparts : scan.TakesUp middle parts)
    (h : step.Sifts middle sifted) : step.Sifts scan fun rest => (sifted rest).prepend parts := by
  cases step with
  | more next =>
      obtain ⟨stretch, ahead, more, hstands, htakes, hsifted⟩ := h
      refine ⟨stretch, ahead, parts ++ more, hstands, hparts.append htakes, fun rest => ?_⟩
      simp only [hsifted, Sifted.prepend_prepend]
  | done last =>
      obtain ⟨more, hword, htakes, hsifted⟩ := h
      refine ⟨parts ++ more, hword, hparts.append htakes, fun rest => ?_⟩
      simp only [hsifted, Sifted.prepend_prepend]
  | refused cause =>
      obtain ⟨more, hfails, hsifted⟩ := h
      refine ⟨parts ++ more, ?_, fun rest => ?_⟩
      · rw [List.foldlM_append, hparts.depth]
        exact hfails
      · obtain ⟨left, hleft⟩ := hsifted rest
        exact ⟨left, by simp only [hleft, Sifted.prepend_prepend]⟩

/-! ### One character -/

namespace Scan

variable {scan next : Scan} {c : Char}

/-- A blank ends the word and leaves nothing. -/
theorem sifts_flush (hcode : next.mode = .code) (hplain : scan.draft.Plain) (hc : isSpacing c)
    (hdraft : next.draft = scan.draft.flush) (hdepth : next.depth = scan.depth) :
    (ScanStep.more next).Sifts scan fun rest => sift .code (c :: rest) := by
  refine ⟨.code, [], [], hcode ▸ .code, .nil ?_ ?_ hdepth, fun rest => sift_spacing hc rest⟩
  · rw [hdraft]
    exact hplain.whole.flush
  · rw [hdraft, Draft.chars_flush]

theorem sifts_lineFeed (hplain : scan.draft.Plain) :
    scan.lineFeed.Sifts scan fun rest => sift .code ('\n' :: rest) := by
  unfold lineFeed
  simp only [hplain.flush.isPreprocessor_eq_false, Bool.false_eq_true, if_false]
  exact sifts_flush rfl hplain (by decide) rfl rfl

/-- A character that is a token of its own. -/
theorem takesUp_emitChar (hplain : scan.draft.Plain) {after : Nat}
    (hdepth : parenStep scan.depth (.code c) = some after) :
    scan.TakesUp { scan.emitChar c with depth := after } [.code c] :=
  .code (hplain.whole.emit String.singleton_ne_empty scan.line) (by simp [emitChar]) hdepth

theorem sifts_codeStep (hcode : scan.mode = .code) (hplain : scan.draft.Plain) (c : Char) :
    (scan.codeStep c).Sifts scan fun rest => sift .code (c :: rest) := by
  have hwhole := hplain.whole
  have hcases := scan.onCode_codeStep c
  generalize scan.codeStep c = step at hcases ⊢
  cases hcases with
  | blank hc => exact sifts_flush hcode hplain (by rcases hc with rfl | rfl | rfl <;> rfl) rfl rfl
  | lineFeed => exact sifts_lineFeed hplain
  | slash => exact ⟨.code, ['/'], [], .slash, .nil hwhole rfl rfl, fun _ => rfl⟩
  | quote hc =>
      refine ⟨_, [], [], .literal hc (by simp), .nil hwhole rfl rfl, fun rest => ?_⟩
      simp [sift_quote hc]
  | mark hmark hstep =>
      have htakes := takesUp_emitChar hplain (parenStep_of_lineStep hstep)
      exact ⟨.code, [], [.code c], hcode ▸ .code, htakes, sift_kept (isKept_of_mark hmark)⟩
  | ending hends =>
      have hkept := isKept_of_mark hends.mem_markTokens
      have htakes := takesUp_emitChar hplain (parenStep_of_endsLine hends)
      exact ⟨[.code c], ⟨rfl, by simp [emitChar]⟩, htakes, sift_kept hkept⟩
  | unmatched hdepth =>
      refine ⟨[.code ')'], ?_, fun rest => ⟨sift .code rest, sift_kept (by decide) rest⟩⟩
      simp [parenStep, hdepth]
  | includeName hinclude =>
      rw [Draft.isInclude_eq_false hplain.isDirective_eq_false] at hinclude
      cases hinclude
  | word hc =>
      have hparen : c ≠ '(' ∧ c ≠ ')' := by
        constructor
        all_goals
          rintro rfl
          exact hc (by decide)
      refine ⟨.code, [], [.code c], hcode ▸ .code, .code (hwhole.push c scan.line) ?_ ?_,
        sift_kept (isKept_of_word hc)⟩
      · simp
      · simp [parenStep, hparen]

theorem takesUp_keepSlash (hplain : scan.draft.Plain) : scan.TakesUp scan.keepSlash [.code '/'] :=
  .code (hplain.whole.push '/' scan.line) (by simp [keepSlash]) rfl

theorem sifts_slash (hplain : scan.draft.Plain) (hmode : scan.mode = .slash) (c : Char) :
    (scan.step c).Sifts scan fun rest => sift .code ('/' :: c :: rest) := by
  have hwhole := hplain.whole
  rw [step.eq_def, hmode]
  simp only
  split
  · exact ⟨.lineComment, [], [], .lineComment, .nil hwhole.flush (by simp) rfl, fun _ => rfl⟩
  · exact ⟨.blockComment, [], [], .blockComment, .nil hwhole.flush (by simp) rfl, fun _ => rfl⟩
  · rename_i hslash hstar
    have hkeep : scan.keepSlash.draft.Plain := hplain.push (by decide)
    have htaken := (sifts_codeStep rfl hkeep c).prepend (takesUp_keepSlash hplain)
    simpa only [sift_slash hslash hstar] using htaken

theorem sifts_lineComment (hplain : scan.draft.Plain) (hmode : scan.mode = .lineComment)
    (c : Char) : (scan.step c).Sifts scan fun rest => sift .lineComment (c :: rest) := by
  rw [step.eq_def, hmode]
  simp only
  split
  · rename_i hline
    simpa only [sift, hline, if_true, sift_spacing (c := '\n') rfl] using sifts_lineFeed hplain
  · rename_i hline
    exact ⟨.lineComment, [], [], hmode ▸ .lineComment, .nil hplain.whole rfl rfl,
      fun rest => by simp [sift, hline]⟩

theorem sifts_blockComment (hwhole : scan.draft.Whole) (hmode : scan.mode = .blockComment)
    (c : Char) : (scan.step c).Sifts scan fun rest => sift .blockComment (c :: rest) := by
  rw [step.eq_def, hmode]
  by_cases hstar : c = '*'
  · subst hstar
    exact ⟨.blockComment, ['*'], [], .blockStar, .nil hwhole rfl rfl, fun _ => rfl⟩
  · simp only [if_neg hstar]
    exact ⟨.blockComment, [], [], .blockComment, .nil hwhole rfl rfl, sift_comment hstar⟩

theorem sifts_blockStar (hwhole : scan.draft.Whole) (hmode : scan.mode = .blockStar) (c : Char) :
    (scan.step c).Sifts scan fun rest => sift .blockComment ('*' :: c :: rest) := by
  rw [step.eq_def, hmode]
  simp only
  split
  · exact ⟨.code, [], [], .code, .nil hwhole rfl rfl, fun _ => rfl⟩
  · exact ⟨.blockComment, ['*'], [], hmode ▸ .blockStar, .nil hwhole rfl rfl,
      fun rest => sift_star (by decide) _⟩
  · rename_i hslash hstar
    exact ⟨.blockComment, [], [], .blockComment, .nil hwhole rfl rfl,
      fun rest => (sift_star hslash rest).trans (sift_comment hstar rest)⟩

theorem head?_push {text : String} {quote : Char} (h : text.toList.head? = some quote) (c : Char) :
    (text.push c).toList.head? = some quote := by
  rw [String.toList_push, List.head?_append, h]
  rfl

theorem sifts_literal {quote : Char} {start : Nat} {text : String} (hwhole : scan.draft.Whole)
    (hmode : scan.mode = .literal quote start text) (hquote : quote = '"' ∨ quote = '\'')
    (htext : text.toList.head? = some quote) (c : Char) :
    (scan.step c).Sifts scan fun rest => sift (.literal quote text.toList) (c :: rest) := by
  have hescape : quote ≠ '\\' := by
    rcases hquote with rfl | rfl <;> decide
  have hpush := head?_push htext c
  rw [step_of_literal hmode]
  by_cases hend : c = quote
  · subst hend
    rw [if_pos rfl]
    refine ⟨.code, [], [.literal (text.push c).toList], .code,
      ⟨hwhole.emit String.push_ne_empty start, ?_, rfl, ?_⟩, fun rest => ?_⟩
    · simp [Part.chars]
    · intro found hfound
      obtain rfl : found = (text.push c).toList := by simpa using hfound
      rw [hpush]
      exact hquote.imp (congrArg some) (congrArg some)
    · simp only [sift_literal hescape, if_true, String.toList_push, List.nil_append]
  · rw [if_neg hend]
    by_cases hc : c = '\\'
    · subst hc
      exact ⟨_, ['\\'], [], .escape hquote htext, .nil hwhole rfl rfl, fun _ => rfl⟩
    · simp only [if_neg hc]
      refine ⟨_, [], [], .literal hquote hpush, .nil hwhole rfl rfl, fun rest => ?_⟩
      simp only [sift_literal hc, if_neg hend, String.toList_push, List.nil_append,
        Sifted.prepend_nil]

theorem sifts_escape {quote : Char} {start : Nat} {text : String} (hwhole : scan.draft.Whole)
    (hmode : scan.mode = .escape quote start (text.push '\\'))
    (hquote : quote = '"' ∨ quote = '\'') (htext : text.toList.head? = some quote) (c : Char) :
    (scan.step c).Sifts scan fun rest => sift (.literal quote text.toList) ('\\' :: c :: rest) := by
  rw [step.eq_def, hmode]
  refine ⟨_, [], [], .literal hquote (head?_push (head?_push htext '\\') c),
    .nil hwhole rfl rfl, fun rest => ?_⟩
  simp [sift]

/-- One character more leads to where sifting it leads. -/
theorem sifts_step {stretch : Stretch} {ahead : List Char} (hplain : scan.draft.Plain)
    (hstands : scan.mode.Stands stretch ahead) (c : Char) :
    (scan.step c).Sifts scan fun rest => sift stretch (ahead ++ c :: rest) := by
  generalize hmode : scan.mode = mode at hstands
  cases hstands with
  | code =>
      rw [step_of_code hmode]
      exact sifts_codeStep hmode hplain c
  | slash => exact sifts_slash hplain hmode c
  | lineComment => exact sifts_lineComment hplain hmode c
  | blockComment => exact sifts_blockComment hplain.whole hmode c
  | blockStar => exact sifts_blockStar hplain.whole hmode c
  | literal hquote htext => exact sifts_literal hplain.whole hmode hquote htext c
  | escape hquote htext => exact sifts_escape hplain.whole hmode hquote htext c

end Scan

/-! ### One line -/

/-- What a run makes of a line under way that holds `chars` and has `depth` parentheses open, if
    sifting makes `sifted` of what is to come. -/
def Scan.Outcome.Sifts (depth : Nat) (chars : List Char) (sifted : Sifted)
    (outcome : Scan.Outcome) : Prop :=
  match outcome.result with
  | .ok line => ∃ parts : List Part, sifted = (sift .code outcome.rest).prepend parts ∧
      (line.map fun line => charsOf line.tokens).getD [] = chars ++ parts.flatMap Part.chars ∧
      parts.foldlM parenStep depth = some outcome.depth ∧
      (outcome.rest = [] → outcome.depth = 0) ∧ (line = none → outcome.rest = [])
  | .error _ => ¬ sifted.Complete depth

theorem Scan.Outcome.Sifts.prepend {scan next : Scan} {parts : List Part} {sifted : Sifted}
    {outcome : Scan.Outcome} (hparts : scan.TakesUp next parts)
    (h : outcome.Sifts next.depth next.draft.chars sifted) :
    outcome.Sifts scan.depth scan.draft.chars (sifted.prepend parts) := by
  unfold Sifts at h ⊢
  split at h
  · obtain ⟨more, hsifted, hchars, hdepth, hend, hnone⟩ := h
    refine ⟨parts ++ more, by rw [hsifted, Sifted.prepend_prepend], ?_, ?_, hend, hnone⟩
    · rw [hchars, hparts.chars, List.flatMap_append, List.append_assoc]
    · rw [List.foldlM_append, hparts.depth]
      exact hdepth
  · rw [Sifted.complete_prepend_iff]
    rintro ⟨after, hafter, hcomplete⟩
    obtain rfl : next.depth = after := Option.some.inj (hparts.depth.symm.trans hafter)
    exact h hcomplete

namespace Scan

variable {scan : Scan}

theorem not_complete_of_open {last : Scan} {parts : List Part} (htakes : scan.TakesUp last parts)
    (hdepth : last.depth ≠ 0) : ¬ ((sift .code []).prepend parts).Complete scan.depth := by
  rw [Sifted.complete_prepend_iff]
  rintro ⟨after, hafter, hcomplete⟩
  obtain rfl : last.depth = after := Option.some.inj (htakes.depth.symm.trans hafter)
  exact hdepth (Option.some.inj hcomplete.balanced)

/-- At the end of a source in code, with what has been read ahead taken up. -/
theorem sifts_end {last : Scan} {parts : List Part} (htakes : scan.TakesUp last parts)
    {result : Except LexicalCause (Option Line)}
    (hresult : result = if last.depth = 0 then .ok last.draft.flush.line?
      else .error .openParenthesis) :
    Outcome.Sifts scan.depth scan.draft.chars ((sift .code []).prepend parts)
      ⟨result, [], scan.line, last.depth⟩ := by
  by_cases hdepth : last.depth = 0
  · rw [if_pos hdepth] at hresult
    subst hresult
    refine ⟨parts, rfl, ?_, htakes.depth, fun _ => hdepth, fun _ => rfl⟩
    rw [htakes.whole.flush.chars_line? rfl, Draft.chars_flush, htakes.chars]
  · rw [if_neg hdepth] at hresult
    subst hresult
    exact not_complete_of_open htakes hdepth

theorem sifts_atEnd {stretch : Stretch} {ahead : List Char} (hplain : scan.draft.Plain)
    (hstands : scan.mode.Stands stretch ahead) :
    (scan.run []).Sifts scan.depth scan.draft.chars (sift stretch ahead) := by
  have hopen : ∀ parts, ¬ Sifted.Complete scan.depth ⟨parts, false⟩ :=
    fun _ hcomplete => absurd hcomplete.closed (by simp)
  have hnothing : scan.TakesUp scan [] := .nil hplain.whole rfl rfl
  rw [run, atEnd.eq_def]
  generalize hmode : scan.mode = mode at hstands
  cases hstands with
  | code => exact sifts_end hnothing rfl
  | slash => exact sifts_end (takesUp_keepSlash hplain) rfl
  | lineComment => exact sifts_end hnothing rfl
  | blockComment => exact hopen []
  | blockStar => exact hopen []
  | literal => exact hopen []
  | @escape quote start text hquote =>
      have hescape : '\\' ≠ quote := by
        rcases hquote with rfl | rfl <;> decide
      simp only [sift, if_neg hescape]
      exact hopen []

theorem sifts_done {last : Scan} {parts : List Part}
    (hword : last.draft.word = "" ∧ last.draft.chars ≠ []) (htakes : scan.TakesUp last parts)
    (rest : List Char) :
    Outcome.Sifts scan.depth scan.draft.chars ((sift .code rest).prepend parts)
      (if rest.isEmpty && last.depth != 0 then
        ⟨.error .openParenthesis, rest, last.line, last.depth⟩
      else ⟨.ok last.draft.line?, rest, last.line, last.depth⟩) := by
  have hline := htakes.whole.chars_line? hword.1
  split
  · rename_i hopen
    simp only [Bool.and_eq_true, List.isEmpty_iff, bne_iff_ne, ne_eq] at hopen
    obtain ⟨rfl, hdepth⟩ := hopen
    exact not_complete_of_open htakes hdepth
  · rename_i hclosed
    refine ⟨parts, rfl, hline.trans htakes.chars, htakes.depth, ?_, ?_⟩
    · rintro hempty
      simpa [show rest = [] from hempty] using hclosed
    · intro hnone
      rw [hnone] at hline
      exact absurd hline.symm hword.2

theorem sifts_run (source : List Char) : ∀ {scan : Scan} {stretch : Stretch} {ahead : List Char},
    scan.draft.Plain → scan.mode.Stands stretch ahead →
    .code '#' ∉ (sift stretch (ahead ++ source)).parts →
    (scan.run source).Sifts scan.depth scan.draft.chars (sift stretch (ahead ++ source)) := by
  induction source with
  | nil =>
      intro scan stretch ahead hplain hstands _
      rw [List.append_nil]
      exact sifts_atEnd hplain hstands
  | cons c rest ih =>
      intro scan stretch ahead hplain hstands hcode
      have hstep := sifts_step hplain hstands c
      rw [run]
      split
      · rename_i next hnext
        rw [hnext] at hstep
        obtain ⟨stretch', ahead', parts, hstands', htakes, hsifted⟩ := hstep
        simp only [hsifted] at hcode ⊢
        have hparts : .code '#' ∉ parts := fun hmem => hcode (List.mem_append_left _ hmem)
        have hrest : .code '#' ∉ (sift stretch' (ahead' ++ rest)).parts :=
          fun hmem => hcode (List.mem_append_right _ hmem)
        exact (ih (htakes.plain hplain hparts) hstands' hrest).prepend htakes
      · rename_i last hlast
        rw [hlast] at hstep
        obtain ⟨parts, hword, htakes, hsifted⟩ := hstep
        simp only [hsifted]
        exact sifts_done hword htakes rest
      · rename_i cause hcause
        rw [hcause] at hstep
        obtain ⟨parts, hfails, hsifted⟩ := hstep
        obtain ⟨more, hmore⟩ := hsifted rest
        simp only at hmore
        rw [hmore]
        intro hcomplete
        obtain ⟨after, hafter, -⟩ := Sifted.complete_prepend_iff.1 hcomplete
        rw [hfails] at hafter
        cases hafter

end Scan

/-! ### All lines -/

namespace Lexer

variable {lexer after : Lexer}

theorem sifts_fresh (hcode : .code '#' ∉ (sift .code lexer.rest).parts) :
    (lexer.fresh.run lexer.rest).Sifts lexer.depth [] (sift .code lexer.rest) :=
  @Scan.sifts_run lexer.rest lexer.fresh .code [] .empty .code hcode

theorem sifts_nextLine {line : Option Line} (hcode : .code '#' ∉ (sift .code lexer.rest).parts)
    (h : lexer.nextLine = (.ok line, after)) :
    ∃ parts : List Part, sift .code lexer.rest = (sift .code after.rest).prepend parts ∧
      (line.map fun line => charsOf line.tokens).getD [] = parts.flatMap Part.chars ∧
      parts.foldlM parenStep lexer.depth = some after.depth ∧
      (after.rest = [] → after.depth = 0) ∧ (line = none → after.rest = []) := by
  have hsifts := sifts_fresh hcode
  obtain ⟨hresult, rfl⟩ := result_of_nextLine h
  simpa only [Scan.Outcome.Sifts, hresult, List.nil_append] using hsifts

theorem sifts_error {fault : Fault} (hcode : .code '#' ∉ (sift .code lexer.rest).parts)
    (h : lexer.nextLine = (.error fault, after)) :
    ¬ (sift .code lexer.rest).Complete lexer.depth := by
  have hsifts := sifts_fresh hcode
  simp only [nextLine] at h
  split at h
  · simp at h
  · rename_i cause hcause
    simpa only [Scan.Outcome.Sifts, hcause] using hsifts

/-- Reading all lines from a place on succeeds if nothing is left open, and only then; the lines
    hold what sifting leaves. -/
theorem sifts_lines (hcode : .code '#' ∉ (sift .code lexer.rest).parts) :
    match lexer.lines with
    | .ok lines => (sift .code lexer.rest).Complete lexer.depth ∧
        charsOf (lines.flatMap Line.tokens) = (sift .code lexer.rest).chars
    | .error _ => ¬ (sift .code lexer.rest).Complete lexer.depth := by
  fun_induction Lexer.lines lexer with
  | case1 lexer fault after hline => exact sifts_error hcode hline
  | case2 lexer after hline =>
      obtain ⟨parts, hsifted, hchars, hdepth, hend, hnone⟩ := sifts_nextLine hcode hline
      have hrest := hnone rfl
      rw [hend hrest] at hdepth
      rw [hrest] at hsifted
      rw [hsifted]
      refine ⟨Sifted.complete_prepend_iff.2 ⟨0, hdepth, rfl, rfl⟩, ?_⟩
      rw [Sifted.chars_prepend, ← hchars]
      rfl
  | case3 lexer line after hline _ ih =>
      obtain ⟨parts, hsifted, hchars, hdepth, -, -⟩ := sifts_nextLine hcode hline
      rw [hsifted] at hcode ⊢
      have hrest := ih fun hmem => hcode (List.mem_append_right _ hmem)
      cases hlines : after.lines with
      | error fault =>
          rw [hlines] at hrest
          intro hcomplete
          obtain ⟨depth, hparts, hcomplete⟩ := Sifted.complete_prepend_iff.1 hcomplete
          obtain rfl : after.depth = depth := Option.some.inj (hdepth.symm.trans hparts)
          exact hrest hcomplete
      | ok lines =>
          rw [hlines] at hrest
          refine ⟨Sifted.complete_prepend_iff.2 ⟨_, hdepth, hrest.1⟩, ?_⟩
          rw [List.flatMap_cons, charsOf_append, hrest.2, Sifted.chars_prepend, ← hchars]
          rfl

end Lexer

/-- The lexer accepts the sources in which nothing is left open, and its tokens, one after the
    other, are what sifting leaves of the source. -/
theorem tokenize_sifts {source : String} (hcode : .code '#' ∉ (Sifted.ofText source).parts) :
    ((∃ lines, tokenize source = .ok lines) ↔ (Sifted.ofText source).Complete 0) ∧
      ∀ lines, tokenize source = .ok lines →
        charsOf (lines.flatMap Line.tokens) = (Sifted.ofText source).chars := by
  have hlines := @Lexer.sifts_lines (.ofText source none) hcode
  unfold tokenize
  cases hresult : (Lexer.ofText source none).lines with
  | error fault =>
      rw [hresult] at hlines
      refine ⟨⟨?_, fun hcomplete => absurd hcomplete hlines⟩, ?_⟩
      · rintro ⟨_, ⟨⟩⟩
      · rintro _ ⟨⟩
  | ok lines =>
      rw [hresult] at hlines
      refine ⟨⟨fun _ => hlines.1, fun _ => ⟨lines, rfl⟩⟩, ?_⟩
      rintro _ ⟨⟩
      exact hlines.2

/-- Comments, a literal and a run of signs, with parentheses and a `#` where they do not count. -/
theorem tokenize_sifts_literal :
    let source := "f(a /*)#*/, '\\'#(') // (#\n \x7b i+++j;"
    .code '#' ∉ (Sifted.ofText source).parts ∧ ∃ lines, tokenize source = .ok lines ∧
      charsOf (lines.flatMap Line.tokens) = "f(a,'\\'#(')\x7bi+++j;".toList := by
  intro source
  have hcode : .code '#' ∉ (Sifted.ofText source).parts := by decide
  have hsifts := tokenize_sifts hcode
  obtain ⟨lines, hlines⟩ := hsifts.1.mpr (by decide)
  refine ⟨hcode, lines, hlines, (hsifts.2 lines hlines).trans ?_⟩
  decide

end LslFront
