import SettingsLint.Proofs.Token.Tiling

/-! # What tokens are made of

Every token other than the end of the source is the first lexeme of some text. So what holds of
lexemes holds of tokens: a name has characters of names only, and a literal does not start with
a sign.
-/

namespace SettingsLint

namespace Lexeme

variable {c : Char} {cs : List Char}

theorem isNamePart_of_isNameStart (h : isNameStart c = true) : isNamePart c = true := by
  simp only [isNameStart, isNamePart, Bool.or_eq_true] at h ⊢
  exact .inl h

/-- What is taken as long as it belongs to a name belongs to a name. -/
theorem isNamePart_of_mem_take
    (h : c ∈ cs.take (runLength isNamePart cs)) : isNamePart c = true := by
  have htake : cs.take (runLength isNamePart cs) = cs.takeWhile isNamePart :=
    (List.prefix_iff_eq_take.mp (List.takeWhile_prefix _)).symm
  rw [htake] at h
  exact List.all_eq_true.mp List.all_takeWhile c h

/-- No literal and no malformed text is a name. -/
theorem kind_ne_identifier_of_isLiteral {cls : LexemeClass} (h : cls.isLiteral = true)
    (text : List Char) (name : String) : cls.kind text ≠ .identifier name := by
  cases cls with
  | integer | real | string | char | malformed => exact nofun
  | name | verbatimName | mark => contradiction

theorem kind_punctuation_ne_identifier (c : Char) (cs text : List Char) (name : String) :
    (punctuation c cs).cls.kind text ≠ .identifier name := by
  unfold punctuation
  split <;> try split
  all_goals simp [LexemeClass.kind]

/-- A name has characters of names only. -/
theorem isNamePart_of_ofText {name : String}
    (h : (ofText c cs).cls.kind ((ofText c cs).textAt c cs) = .identifier name) :
    ∀ x ∈ name.toList, isNamePart x = true := by
  have hliteral {lexeme : Lexeme} (hlexeme : lexeme.cls.isLiteral = true) :
      lexeme.cls.kind (lexeme.textAt c cs) ≠ .identifier name :=
    kind_ne_identifier_of_isLiteral hlexeme _ name
  unfold ofText at h
  split at h
  next hstart =>
    -- A name as it is written.
    cases h
    rw [String.toList_ofList, textAt, Nat.add_sub_cancel_left]
    intro x hx
    rcases List.mem_cons.mp hx with rfl | hx
    · exact isNamePart_of_isNameStart hstart
    · exact isNamePart_of_mem_take hx
  next =>
  split at h
  next =>
    -- A name behind its mark.
    cases h
    rw [String.toList_ofList, textAt, Nat.add_sub_cancel_left]
    intro x hx
    exact isNamePart_of_mem_take hx
  next =>
  split at h
  next => exact absurd h (hliteral (isLiteral_markedString _))
  next =>
  split at h
  next => exact absurd h (hliteral (isLiteral_lexeme _ rfl))
  next =>
  split at h
  next => exact absurd h (hliteral (isLiteral_lexeme _ rfl))
  next =>
  split at h
  next => exact absurd h (hliteral (isLiteral_number _))
  next => exact absurd h (kind_punctuation_ne_identifier c cs _ name)

/-- A minus sign is a token of its own. -/
theorem ofText_minus (cs : List Char) : ofText '-' cs = ⟨.mark (.operator '-'), 1⟩ := by
  have hstart : isNameStart '-' = false := by decide
  have hmark : isStringMark '-' = false := by decide
  simp [ofText, hstart, hmark, punctuation]

/-- A literal starts with the first character of its text, and this is no minus sign. -/
theorem head?_ne_minus
    (h : ((ofText c cs).cls.kind ((ofText c cs).textAt c cs)).isLiteral = true) :
    ((ofText c cs).cls.kind ((ofText c cs).textAt c cs)).text.toList.head? ≠ some '-' := by
  have hc : c ≠ '-' := by
    rintro rfl
    cases h
  have hwrites := writes_ofText c cs
  generalize (ofText c cs).cls.kind ((ofText c cs).textAt c cs) = kind at h hwrites
  have htext : kind.text.toList = c :: cs.take ((ofText c cs).length - 1) := by
    cases kind with
    | integer | real | string | char => exact hwrites
    | _ => cases h
  rw [htext]
  simpa using hc

end Lexeme

namespace Token

variable {t : Token}

/-- A token is the end of the source or the first lexeme of some text. -/
theorem exists_lexeme {lineStart : Bool} {offset : Nat} {trivia : List Trivia} {cs : List Char} (ht : t ∈ lexFrom lineStart offset trivia cs) : t.kind = .eof ∨
    ∃ c cs', t.kind = (Lexeme.ofText c cs').cls.kind ((Lexeme.ofText c cs').textAt c cs') := by
  induction hn : cs.length using Nat.strongRecOn generalizing lineStart offset trivia cs with
  | _ n ih =>
    cases cs with
    | nil =>
      rw [lexFrom_nil] at ht
      exact .inl (List.mem_singleton.mp ht ▸ rfl)
    | cons c cs =>
      have hshorter (k : Nat) : (cs.drop k).length < n := by
        rw [← hn, List.length_drop, List.length_cons]
        omega
      rw [lexFrom_cons] at ht
      cases htrivia : Lexeme.triviaOfText lineStart c cs with
      | some found =>
        rw [htrivia] at ht
        exact ih _ (hshorter _) ht rfl
      | none =>
        rw [htrivia] at ht
        rcases List.mem_cons.mp ht with rfl | ht
        · exact .inr ⟨c, cs, rfl⟩
        · exact ih _ (hshorter _) ht rfl

/-- The names of a text have characters of names only. -/
theorem isNamePart_of_mem_lexToEnd {text name : String} (ht : t ∈ lexToEnd text)
    (hkind : t.kind = .identifier name) : ∀ c ∈ name.toList, Lexeme.isNamePart c = true := by
  rcases exists_lexeme ht with heof | ⟨c, cs, hlexeme⟩
  · rw [heof] at hkind
    cases hkind
  · exact Lexeme.isNamePart_of_ofText (hlexeme.symm.trans hkind)

/-- No literal of a text starts with a minus sign. -/
theorem head?_ne_minus_of_mem_lexToEnd {text : String} (ht : t ∈ lexToEnd text)
    (hkind : t.kind.isLiteral = true) : t.kind.text.toList.head? ≠ some '-' := by
  rcases exists_lexeme ht with heof | ⟨c, cs, hlexeme⟩
  · rw [heof] at hkind
    cases hkind
  · rw [hlexeme] at hkind ⊢
    exact Lexeme.head?_ne_minus hkind

end Token

end SettingsLint
