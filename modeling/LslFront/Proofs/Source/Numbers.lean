import LslFront.Proofs.Line.Numbers
import LslFront.Proofs.Source.Rounds

/-!
# Numbers of lines from several texts

A stack of sources is read from several texts.  Each open source counts the line feeds of its own
text, so every line that is handed out, and every fault that is found on the way to one, carries the
number of a line that one of the texts has.
-/

namespace LslFront

/-- One of the texts has a line of this number. -/
def LineOf (texts : Set String) (number : Nat) : Prop :=
  1 ≤ number ∧ ∃ text ∈ texts, number ≤ 1 + text.toList.count '\n'

/-- The lexer stands at a place of one of the texts. -/
def Lexer.Reads (texts : Set String) (lexer : Lexer) : Prop :=
  ∃ text ∈ texts, ∃ passed, text.toList = passed ++ lexer.rest ∧ lexer.line = numberAfter passed

/-- A line or a fault carries a number that one of the texts has. -/
structure NumberedBy (texts : Set String) (result : Except Fault (Option Line)) : Prop where
  line : ∀ line, result = .ok (some line) → LineOf texts line.number
  fault : ∀ fault, result = .error fault → LineOf texts fault.line

section

variable {texts : Set String}

theorem lineOf_numberAfter {text : String} (htext : text ∈ texts) {passed rest : List Char}
    (hsplit : text.toList = passed ++ rest) : LineOf texts (numberAfter passed) := by
  refine ⟨Nat.le_add_right 1 _, text, htext, ?_⟩
  rw [hsplit, List.count_append, numberAfter]
  omega

namespace Lexer

variable {lexer after : Lexer} {result : Except Fault (Option Line)}

theorem reads_ofText {text : String} (htext : text ∈ texts) (name : Option String) :
    (ofText text name).Reads texts :=
  ⟨text, htext, [], rfl, rfl⟩

theorem Reads.nextLine (h : lexer.Reads texts) (hnext : lexer.nextLine = (result, after)) :
    after.Reads texts ∧ NumberedBy texts result := by
  obtain ⟨text, htext, passed, hsplit, hline⟩ := h
  obtain ⟨taken, hcall⟩ := exists_callPlaced hline hnext
  have hafter : text.toList = (passed ++ taken) ++ after.rest := by
    rw [hsplit, hcall.rest, List.append_assoc]
  have hlast := lineOf_numberAfter htext hafter
  refine ⟨⟨text, htext, passed ++ taken, hafter, hcall.counter⟩, ?_, ?_⟩
  · rintro line rfl
    obtain ⟨hfirst, hle⟩ := hcall.number_le
    obtain ⟨-, found, hfound, hbound⟩ := hlast
    exact ⟨(Nat.le_add_right 1 _).trans hfirst, found, hfound, hle.trans hbound⟩
  · intro fault hfault
    rw [(hcall.fault fault hfault).1]
    exact hlast

end Lexer

theorem reads_pullLine {top : Lexer} {below : List Lexer}
    (h : ∀ lexer ∈ top :: below, lexer.Reads texts) :
    (∀ lexer ∈ (pullLine top below).2.1 :: (pullLine top below).2.2, lexer.Reads texts) ∧
      NumberedBy texts (pullLine top below).1 := by
  induction below generalizing top with
  | nil =>
      obtain ⟨hafter, hnumbered⟩ := (h top List.mem_cons_self).nextLine rfl
      exact ⟨List.forall_mem_singleton.mpr hafter, hnumbered⟩
  | cons next rest ih =>
      obtain ⟨htop, hbelow⟩ := List.forall_mem_cons.mp h
      rw [pullLine]
      split
      · exact ih hbelow
      · rename_i result after hnot hline
        obtain ⟨hafter, hnumbered⟩ := htop.nextLine hline
        exact ⟨List.forall_mem_cons.mpr ⟨hafter, hbelow⟩, hnumbered⟩

/-! ### Sources -/

namespace Source

variable {limit : Nat} {source place opened : Source limit} {loader : Loader}

/-- All open sources read from the texts, and so did the line handed out last. -/
structure Reads (texts : Set String) (source : Source limit) : Prop where
  lexers : ∀ lexer ∈ source.top :: source.below, lexer.Reads texts
  lastLine : LineOf texts source.lastLine

theorem reads_ofText {text : String} (htext : text ∈ texts) :
    (ofText text limit).Reads texts where
  lexers := List.forall_mem_singleton.mpr (Lexer.reads_ofText htext none)
  lastLine := lineOf_numberAfter htext (List.nil_append _).symm

theorem Reads.nextLine (h : source.Reads texts) {result : Except Fault (Option Line)}
    (hnext : source.nextLine = (result, place)) : place.Reads texts ∧ NumberedBy texts result := by
  obtain ⟨hlexers, hnumbered⟩ := reads_pullLine h.lexers
  simp only [Source.nextLine] at hnext
  split at hnext
  · rename_i line hline
    obtain ⟨rfl, rfl⟩ := Prod.mk.inj hnext
    rw [hline] at hnumbered
    exact ⟨⟨hlexers, hnumbered.line line rfl⟩, hnumbered⟩
  · obtain ⟨rfl, rfl⟩ := Prod.mk.inj hnext
    exact ⟨⟨hlexers, h.lastLine⟩, hnumbered⟩

/-- A source that is opened is one of the texts, if all that are given are. -/
theorem Reads.splice (h : source.Reads texts) {name : String} {once answer : Bool}
    (hsplice : source.splice loader name once = .ok (answer, opened))
    (hgiven : ∀ text, answer = true → loader name = .ok text → text ∈ texts) :
    opened.Reads texts := by
  rcases exists_of_splice hsplice with ⟨-, rfl⟩ | ⟨text, hanswer, htext, -, htop, hbelow, hlast⟩
  · exact h
  · have hmem := hgiven text hanswer htext
    constructor
    · rw [htop, hbelow]
      exact List.forall_mem_cons.mpr ⟨Lexer.reads_ofText hmem name, h.lexers⟩
    · rw [hlast]
      exact h.lastLine

end Source

end

end LslFront
