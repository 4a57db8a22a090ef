import LslFront.Constant.Reading
import LslFront.Token

/-!
# Strings as literals

A string becomes a literal between quotes when a backslash is put before every backslash and before
every quote of that kind.  Reading the literal takes these backslashes away and changes nothing
else: the two escapes that stand for other characters are a backslash before a letter, and before a
letter none has been put.
-/

namespace LslFront

/-! ### Writing -/

/-- The inside of a literal between such quotes that stands for the text. -/
def escaped (quote : Char) (text : List Char) : List Char :=
  text.flatMap fun c => if c = '\\' ∨ c = quote then ['\\', c] else [c]

/-- The literal between such quotes that stands for the text. -/
def literalOf (quote : Char) (text : String) : String :=
  String.ofList (quote :: (escaped quote text.toList ++ [quote]))

theorem escaped_cons (quote c : Char) (rest : List Char) : escaped quote (c :: rest) =
    if c = '\\' ∨ c = quote then '\\' :: c :: escaped quote rest else c :: escaped quote rest := by
  rw [escaped, List.flatMap_cons]
  split <;> rfl

theorem unescape_backslash {c : Char} (hn : c ≠ 'n') (ht : c ≠ 't') (rest : List Char) :
    unescape ('\\' :: c :: rest) = c :: unescape rest := by
  rw [unescape]
  · exact fun h => hn h
  · exact fun h => ht h

theorem unescape_plain {c : Char} (hc : c ≠ '\\') (rest : List Char) :
    unescape (c :: rest) = c :: unescape rest := by
  rw [unescape]
  all_goals
    intros
    contradiction

theorem unescape_escaped {quote : Char} (hquote : quote = '"' ∨ quote = '\'') (text : List Char) :
    unescape (escaped quote text) = text := by
  have hletters : quote ≠ 'n' ∧ quote ≠ 't' := by
    rcases hquote with rfl | rfl <;> decide
  induction text with
  | nil => rfl
  | cons c rest ih =>
      rw [escaped_cons]
      split
      · rename_i hc
        rcases hc with rfl | rfl
        · rw [unescape_backslash (by decide) (by decide), ih]
        · rw [unescape_backslash hletters.1 hletters.2, ih]
      · rename_i hc
        rw [unescape_plain (fun h => hc (.inl h)), ih]

/-! ### Reading -/

section

variable {token : String} {quote : Char} {body : List Char}

/-- What is between two quotes of one kind is a literal, whatever it is. -/
theorem stringOfLiteral?_of_closed (hquote : quote = '"' ∨ quote = '\'')
    (htoken : token.toList = quote :: (body ++ [quote])) :
    stringOfLiteral? token = some (.ofList (unescape body)) := by
  simp [stringOfLiteral?, Text.between?, htoken, hquote]

theorem stringOfLiteral?_literalOf (hquote : quote = '"' ∨ quote = '\'') (text : String) :
    stringOfLiteral? (literalOf quote text) = some text := by
  have htoken : (literalOf quote text).toList = quote :: (escaped quote text.toList ++ [quote]) :=
    String.toList_ofList
  rw [stringOfLiteral?_of_closed hquote htoken, unescape_escaped hquote, String.ofList_toList]

/-- The token begins with a quote and is no string literal. -/
def IsMalformed (token : String) : Prop :=
  isQuoted token ∧ stringOfLiteral? token = none

theorem not_isMalformed_of_closed (hquote : quote = '"' ∨ quote = '\'')
    (htoken : token.toList = quote :: (body ++ [quote])) : ¬ IsMalformed token := by
  rintro ⟨-, hnone⟩
  rw [stringOfLiteral?_of_closed hquote htoken] at hnone
  cases hnone

end

end LslFront
