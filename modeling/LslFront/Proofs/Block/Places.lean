import LslFront.Block.Reader
import LslFront.Proofs.Block.Else
import LslFront.Proofs.Block.Header
import LslFront.Proofs.Resolved.Tokens

/-!
# How a line leads to a place

The first tokens of a line may be the headers of control statements, and before them an `else`.
`Leads` says which place of the innermost block such tokens lead to; what the rest of the line is
read as then depends on the place alone.
-/

namespace LslFront

/-- The tokens with which a line begins lead to a place of the block that holds `statements`. -/
inductive Leads (scope : Scope) (statements : List Statement) : List String → Hole → Prop where
  | statement : Leads scope statements [] .statement
  | elseBranch : takesElse statements → Leads scope statements ["else"] .elseBranch
  | body {before hole word header control} : Leads scope statements before hole →
      word ∈ headedWords → Balanced bracketStep header → isUncontrolled header →
      resolveControl scope word header = .ok control →
      Leads scope statements (before ++ word :: "(" :: header ++ [")"]) (.body control hole)

theorem Leads.fits {scope : Scope} {statements : List Statement} {before : List String}
    {hole : Hole} (h : Leads scope statements before hole) : hole.Fits statements := by
  induction h with
  | statement => trivial
  | elseBranch htakes => exact htakes
  | body _ _ _ _ _ ih => exact ih

/-! ### Reading what stands at a place -/

theorem not_mem_of_headed {word : String} (h : word ∈ headedWords) :
    word ∉ ["\x7b", "\x7d", ";", "else"] := by
  simp only [headedWords, List.mem_cons, List.not_mem_nil, or_false] at h
  rcases h with rfl | rfl | rfl <;> decide

section

variable {scope : Scope} {kind : BodyKind} {number : Nat} {hole : Hole}

/-- The tokens of a line are looked at from the front. -/
theorem readEffect_cons (hole : Hole) (word : String) (rest : List String) :
    readEffect scope kind number hole (word :: rest)
      = if word = "\x7b" ∧ rest = [] then .ok (.opens hole)
        else if word = "\x7d" then .error (.structural .strayBrace)
        else if word = ";" ∧ rest = [] then .ok (.complete hole (.empty number))
        else if word = "else" then .error (.structural .strayElse)
        else if word ∈ headedWords then do
          let (header, after) ← (splitHeader word rest).mapError .structural
          let control ← resolveControl scope word header
          readEffect scope kind number (.body control hole) after
        else if word = "do" then
          if rest = ["\x7b"] then .ok (.opensDo hole) else .error (.structural .doBrace)
        else if isDirective word then .error (.structural (.directive word))
        else
          match Ty.ofWord? word with
          | some ty =>
              if hole.isStatement then localDeclaration scope ty rest
              else .error (.structural .bareDeclaration)
          | none => (simpleStatement scope kind number word rest).map (.complete hole) := by
  rw [readEffect.eq_def]
  simp only
  congr 4
  by_cases hheaded : word ∈ headedWords
  · rw [if_pos hheaded, if_pos hheaded]
    split
    · rename_i cause hcut
      rw [hcut]
      rfl
    · rename_i header after hcut
      rw [hcut]
      simp only [ok_mapError, ok_bind]
      cases resolveControl scope word header with
      | error cause => rfl
      | ok control => rfl
  · have hsame : ∀ first second other : Except Cause Effect,
        (if word ∈ headedWords then first else other)
          = if word ∈ headedWords then second else other := by
      intro first second other
      rw [if_neg hheaded, if_neg hheaded]
    exact hsame _ _ _

theorem readEffect_header {word : String} {header : List String} {control : Control}
    (after : List String) (hword : word ∈ headedWords) (hbalanced : Balanced bracketStep header)
    (hfree : isUncontrolled header) (hcontrol : resolveControl scope word header = .ok control) :
    readEffect scope kind number hole (word :: "(" :: (header ++ ")" :: after))
      = readEffect scope kind number (.body control hole) after := by
  have hcut := splitHeader_balanced word after hbalanced hfree
  have hnot := not_mem_of_headed hword
  simp only [List.mem_cons, List.not_mem_nil, or_false, not_or] at hnot
  rw [readEffect_cons]
  simp only [hnot, false_and, if_false, hword, if_true, hcut, ok_mapError, ok_bind, hcontrol]

/-- A line that begins with no word of a block, of a control statement or of a type holds a
    statement without a body. -/
theorem readEffect_simple {word : String} {rest : List String}
    (hnot : word ∉ ["\x7b", "\x7d", ";", "if", "else", "while", "for", "do"])
    (hdirective : isDirective word = false) (htype : Ty.ofWord? word = none) :
    readEffect scope kind number hole (word :: rest)
      = (simpleStatement scope kind number word rest).map (.complete hole) := by
  simp only [List.mem_cons, List.not_mem_nil, or_false, not_or] at hnot
  rw [readEffect_cons]
  simp [headedWords, hnot, hdirective, htype]

theorem not_mem_of_directive {word : String} {known : List String} (h : isDirective word)
    (hknown : ∀ other ∈ known, isDirective other = false) : word ∉ known := by
  intro hmem
  rw [hknown word hmem] at h
  cases h

theorem readEffect_directive {word : String} (h : isDirective word) (rest : List String) :
    readEffect scope kind number hole (word :: rest)
      = .error (.structural (.directive word)) := by
  have hnot : word ∉ ["\x7b", "\x7d", ";", "if", "else", "while", "for", "do"] :=
    not_mem_of_directive h (by decide)
  simp only [List.mem_cons, List.not_mem_nil, or_false, not_or] at hnot
  rw [readEffect_cons]
  simp [headedWords, hnot, h]

theorem not_mem_of_ofWord? {word : String} {ty : Ty} (h : Ty.ofWord? word = some ty) :
    word ∉ ["\x7b", "\x7d", ";", "if", "else", "while", "for", "do"] ∧
      isDirective word = false := by
  rcases Ty.word_of_ofWord? h with rfl | ⟨rfl, rfl⟩
  · cases ty <;> decide
  · decide

theorem readEffect_declaration {word : String} {ty : Ty} (rest : List String)
    (htype : Ty.ofWord? word = some ty) :
    readEffect scope kind number .statement (word :: rest) = localDeclaration scope ty rest := by
  obtain ⟨hnot, hdirective⟩ := not_mem_of_ofWord? htype
  simp only [List.mem_cons, List.not_mem_nil, or_false, not_or] at hnot
  rw [readEffect_cons]
  simp [headedWords, hnot, hdirective, htype, Hole.isStatement]

end

section

variable {symbols : Symbols} {body : Body} {before : List String} {hole : Hole}

/-- Behind tokens that lead to a place, the rest of a line is read for that place. -/
theorem Leads.step (h : Leads symbols.scope body.statements before hole)
    (hidle : body.doBlock = none) (kind : BodyKind) (number : Nat) {word : String}
    (rest : List String) (hbrace : word ≠ "\x7d") (helse : word ≠ "else") :
    body.step symbols kind ⟨number, before ++ word :: rest⟩
      = onLine number (do
          body.apply symbols number
            (← readEffect symbols.scope kind number hole (word :: rest))) := by
  induction h generalizing word rest with
  | statement =>
      have hline : ¬word :: rest = ["\x7d"] := fun heq => hbrace (List.cons.inj heq).1
      simp only [Body.step, hidle, List.nil_append, if_neg hline]
      congr 1
      rw [Body.readStatement]
      split
      · rename_i heq
        exact absurd (List.cons.inj heq).1 helse
      · rfl
  | elseBranch htakes =>
      have hline : ¬["else"] ++ word :: rest = ["\x7d"] := by simp
      simp only [Body.step, hidle, if_neg hline]
      congr 1
      simp [Body.readStatement, htakes]
  | @body outer hole headed header control hbefore hword hbalanced hfree hcontrol ih =>
      have hnot := not_mem_of_headed hword
      simp only [List.mem_cons, List.not_mem_nil, or_false, not_or] at hnot
      have hread := ih ("(" :: (header ++ ")" :: word :: rest)) hnot.2.1 hnot.2.2.2
      rw [readEffect_header (word :: rest) hword hbalanced hfree hcontrol] at hread
      rw [← hread]
      simp

end

end LslFront
