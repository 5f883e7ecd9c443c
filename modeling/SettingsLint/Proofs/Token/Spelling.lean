import SettingsLint.Main

/-! # What texts spell

The kinds of the tokens of a text do not depend on where the text stands. A text
*spells* kinds if it is read as tokens of those kinds whatever comes after it.
-/

namespace SettingsLint.Token

def kindsFrom (lineStart : Bool) (text : List Char) : List TokenKind :=
  (lexFrom lineStart 0 [] text).map (·.kind)

/-- The kinds depend neither on the place of the text nor on the trivia before it. -/
theorem map_kind_lexFrom (lineStart : Bool) (offset : Nat) (trivia : List Trivia)
    (text : List Char) :
    (lexFrom lineStart offset trivia text).map (·.kind) = kindsFrom lineStart text := by
  suffices h : ∀ offset' trivia', (lexFrom lineStart offset trivia text).map (·.kind)
      = (lexFrom lineStart offset' trivia' text).map (·.kind) from h 0 []
  induction hn : text.length using Nat.strongRecOn generalizing lineStart offset trivia text with
  | _ n ih =>
    intro offset' trivia'
    cases text with
    | nil => rw [lexFrom_nil, lexFrom_nil]; rfl
    | cons c cs =>
      rw [lexFrom_cons, lexFrom_cons]
      cases Lexeme.triviaOfText lineStart c cs with
      | some found =>
        refine ih _ ?_ _ _ _ _ rfl _ _
        simp only [← hn, List.length_drop, List.length_cons]
        omega
      | none =>
        simp only [List.map_cons, List.cons.injEq, true_and]
        refine ih _ ?_ _ _ _ _ rfl _ _
        simp only [← hn, List.length_drop, List.length_cons]
        omega

theorem kindsFrom_of_trivia {lineStart : Bool} {c : Char} {cs : List Char} {kind : TriviaKind}
    {n : Nat} (h : Lexeme.triviaOfText lineStart c cs = some (kind, n)) :
    kindsFrom lineStart (c :: cs) =
      kindsFrom (lineStartAfter lineStart (c :: cs.take (n - 1))) (cs.drop (n - 1)) := by
  rw [kindsFrom, lexFrom_cons, h]
  exact map_kind_lexFrom ..

theorem kindsFrom_of_token {lineStart : Bool} {c : Char} {cs : List Char}
    (h : Lexeme.triviaOfText lineStart c cs = none) :
    kindsFrom lineStart (c :: cs) =
      (Lexeme.ofText c cs).cls.kind (c :: cs.take ((Lexeme.ofText c cs).length - 1)) ::
        kindsFrom (lineStartAfter lineStart (c :: cs.take ((Lexeme.ofText c cs).length - 1)))
          (cs.drop ((Lexeme.ofText c cs).length - 1)) := by
  rw [kindsFrom, lexFrom_cons, h]
  exact congrArg _ (map_kind_lexFrom ..)

/-! ## Spelling -/

/-- The text is read as tokens of the kinds, whatever comes after it, and none of them is malformed.
    It does not stand at the start of a line, and ends on a line that has a token. -/
structure Spelled (text : List Char) (kinds : List TokenKind) : Prop where
  reads : ∀ rest, kindsFrom false (text ++ rest) = kinds ++ kindsFrom false rest
  ne_error : ∀ kind ∈ kinds, ∀ malformed, kind ≠ .error malformed

theorem Spelled.append {text text' : List Char} {kinds kinds' : List TokenKind}
    (h : Spelled text kinds) (h' : Spelled text' kinds') :
    Spelled (text ++ text') (kinds ++ kinds') := by
  refine ⟨fun rest => ?_, List.forall_mem_append.mpr ⟨h.ne_error, h'.ne_error⟩⟩
  rw [List.append_assoc, h.reads, h'.reads, List.append_assoc]

theorem spelled_leftParen : Spelled ['('] [.leftParen] :=
  ⟨fun _ => kindsFrom_of_token rfl, by simp⟩

theorem spelled_rightParen : Spelled [')'] [.rightParen] :=
  ⟨fun _ => kindsFrom_of_token rfl, by simp⟩

/-- A space says nothing. -/
theorem spelled_space : Spelled [' '] [] := by
  have hblank (cs : List Char) : Lexeme.triviaOfText false ' ' cs
      = some (.whitespace, 1 + Lexeme.runLength Text.isBlank cs) := rfl
  refine ⟨fun rest => ?_, by simp⟩
  rw [List.cons_append, List.nil_append, kindsFrom_of_trivia (hblank _)]
  cases rest with
  | nil => rfl
  | cons c cs =>
    by_cases hc : Text.isBlank c = true
    · have hmore : Lexeme.triviaOfText false c cs
          = some (.whitespace, 1 + Lexeme.runLength Text.isBlank cs) := by
        rw [Lexeme.triviaOfText, if_pos hc]
      rw [kindsFrom_of_trivia hmore]
      simp only [Lexeme.runLength, List.takeWhile_cons, hc, Nat.add_sub_cancel_left]
      rfl
    · simp only [Lexeme.runLength, List.takeWhile_cons, hc]
      rfl

theorem spelled_comma : Spelled [',', ' '] [.comma] := by
  have hcomma : Spelled [','] [.comma] := ⟨fun _ => kindsFrom_of_token rfl, by simp⟩
  exact hcomma.append spelled_space

end SettingsLint.Token
