import SettingsLint.Main

/-! # Verbatim strings

A verbatim string stands for any text: it is written as it is, with each quote doubled. Reading
it gives it back as one token, whatever line breaks, backslashes and quotes it has inside, and
leaves the text after it alone. The exception is a text that starts with a quote: the opening
quote and the doubled one make three, which open a raw string.
-/

namespace SettingsLint

namespace Lexeme

variable {rest : List Char}

/-- A text with each of its quotes written twice. -/
def doubled : List Char → List Char
  | [] => []
  | c :: cs => if c = '"' then '"' :: '"' :: doubled cs else c :: doubled cs

/-- The verbatim string that stands for a text. -/
def verbatim (content : List Char) : List Char := '@' :: '"' :: (doubled content ++ ['"'])

/-- Inside a verbatim string, the first quote that is not doubled ends it. -/
theorem stringTail_doubled (content : List Char)
    (hrest : rest.head? ≠ some '"') :
    stringTail ⟨true, false⟩ 0 (doubled content ++ '"' :: rest)
      = ⟨(doubled content).length + 1, true⟩ := by
  induction content with
  | nil =>
    cases rest with
    | nil => rfl
    | cons d ds =>
      have hd : d ≠ '"' := fun h => hrest (congrArg some h)
      simp [doubled, stringTail, hd]
  | cons c cs ih =>
    unfold doubled
    split
    next hquote =>
      -- A doubled quote counts two and leaves the string open.
      simp [stringTail, ih, Extent.after, Nat.add_comm 2]
    next hother =>
      rw [stringTail.eq_def]
      simp [hother, ih, Extent.after, Nat.add_comm 1]

/-- The quotes at the start of a verbatim string are too few for a raw string, unless the text
starts with one. -/
theorem runLength_quotes_doubled {content : List Char} (hcontent : content.head? ≠ some '"')
    (hrest : rest.head? ≠ some '"') :
    runLength (· = '"') ('"' :: (doubled content ++ '"' :: rest)) < 3 := by
  cases content with
  | nil =>
    -- The opening and the closing quote stand side by side.
    cases rest with
    | nil => decide
    | cons d ds =>
      have hd : d ≠ '"' := fun h => hrest (congrArg some h)
      simp [doubled, runLength, hd]
  | cons c cs =>
    have hc : c ≠ '"' := fun h => hcontent (congrArg some h)
    simp [doubled, runLength, hc]

theorem quoted_doubled {content : List Char} (hcontent : content.head? ≠ some '"')
    (hrest : rest.head? ≠ some '"') :
    quoted ⟨true, false⟩ ('"' :: (doubled content ++ '"' :: rest))
      = ⟨(doubled content).length + 2, true⟩ := by
  unfold quoted
  have hfew := runLength_quotes_doubled hcontent hrest
  rw [if_neg (by omega), List.drop_one, List.tail_cons, stringTail_doubled content hrest,
    Extent.after]
  simp only [Extent.mk.injEq, and_true]
  omega

/-- A verbatim string is the first lexeme of a text that starts with it. -/
theorem ofText_verbatim {content : List Char} (hcontent : content.head? ≠ some '"')
    (hrest : rest.head? ≠ some '"') :
    ofText '@' ('"' :: (doubled content ++ '"' :: rest))
      = ⟨.string, (doubled content).length + 3⟩ := by
  have hat : isNameStart '@' = false := by decide
  have hquote : isNameStart '"' = false := by decide
  have hmark : isStringMark '@' = true ∧ isStringMark '"' = false := by decide
  simp [ofText, hat, hquote, hmark, markedString, quoted_doubled hcontent hrest, Extent.after,
    Extent.lexeme, Nat.add_comm 1]

end Lexeme

namespace Token

open Lexeme

/-- After a quote, no line starts. -/
theorem lineStartAfter_verbatim (lineStart : Bool) (content : List Char) :
    lineStartAfter lineStart (verbatim content) = false := by
  simp [lineStartAfter, verbatim]

/-- Reading goes on behind a verbatim string as if it stood alone. -/
theorem lexFrom_verbatim {content rest : List Char} (hcontent : content.head? ≠ some '"')
    (hrest : rest.head? ≠ some '"') (lineStart : Bool) (offset : Nat) (trivia : List Trivia) :
    lexFrom lineStart offset trivia (verbatim content ++ rest)
      = ⟨.string (String.ofList (verbatim content)),
          ⟨offset, offset + Text.byteSize (verbatim content)⟩, trivia⟩
        :: lexFrom false (offset + Text.byteSize (verbatim content)) [] rest := by
  have hshape : verbatim content ++ rest = '@' :: '"' :: (doubled content ++ '"' :: rest) := by
    simp [verbatim]
  have htail : '"' :: (doubled content ++ '"' :: rest)
      = ('"' :: (doubled content ++ ['"'])) ++ rest := by simp
  have hlength : ('"' :: (doubled content ++ ['"'])).length = (doubled content).length + 2 := by
    simp
  rw [hshape, lexFrom_cons, ofText_verbatim hcontent hrest]
  simp only [Nat.add_sub_cancel (m := 1), htail,
    ← hlength, List.take_left, List.drop_left]
  rw [← verbatim, lineStartAfter_verbatim]
  rfl

/-- A verbatim string whose text does not start with a quote is one token, alone or in front of
any text that does not go on with a quote. -/
theorem lex_verbatim (content rest : String) (hcontent : content.toList.head? ≠ some '"')
    (hrest : rest.toList.head? ≠ some '"') :
    let text := String.ofList (verbatim content.toList)
    lex text = [⟨.string text, ⟨0, Text.byteSize text.toList⟩, []⟩] ∧
    lexToEnd (text ++ rest)
      = ⟨.string text, ⟨0, Text.byteSize text.toList⟩, []⟩
        :: lexFrom false (Text.byteSize text.toList) [] rest.toList := by
  intro text
  have hall (rest : List Char) (hrest : rest.head? ≠ some '"') :=
    lexFrom_verbatim hcontent hrest true 0 []
  constructor
  · unfold lex lexToEnd
    have halone := hall [] (by decide)
    rw [List.append_nil, lexFrom_nil] at halone
    rw [String.toList_ofList, halone, Nat.zero_add]
    rfl
  · unfold lexToEnd
    rw [String.toList_append, String.toList_ofList, hall _ hrest, Nat.zero_add]

/-- Quotes inside and at the end, a line break and a backslash, in front of a name. -/
theorem lex_verbatim_escapes :
    lex (String.ofList (verbatim "a\"\n\\\"".toList))
      = [⟨.string "@\"a\"\"\n\\\"\"\"", ⟨0, 10⟩, []⟩] ∧
    lexToEnd ("@\"a\"\"\n\\\"\"\"" ++ "b")
      = ⟨.string "@\"a\"\"\n\\\"\"\"", ⟨0, 10⟩, []⟩ :: lexFrom false 10 [] ['b'] :=
  lex_verbatim "a\"\n\\\"" "b" (by decide) (by decide)

/-- A text that starts with a quote is not read back: its verbatim string is taken for a raw
string that is never closed. -/
theorem lex_verbatim_leading_quote :
    (lex (String.ofList (verbatim "\"a".toList))).map Token.kind = [.error "@\"\"\"a\""] := by
  decide +kernel

end Token

end SettingsLint
