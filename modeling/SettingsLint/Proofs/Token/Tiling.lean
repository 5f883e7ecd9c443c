import SettingsLint.Proofs.Text.Slices
import SettingsLint.Token.Lexer

/-! # Tokens tile the text

Reading a text as tokens loses nothing. Each token is preceded by its trivia, and the
trivia and the tokens in turn are the text, from its first byte to its last one. So the
span of a token cuts out of the text what its kind says.

`Tiles offset tokens text` states this of a text that stands at a byte offset. It holds
after every piece that is read, and all other facts about places come from it.
-/

namespace SettingsLint

open Text (byteSize)

/-! ## What a token is written as -/

namespace TokenKind

/-- The text of a token, but for the `@` that may stand before a name. -/
def spelling : TokenKind → List Char
  | error text => text.toList
  | eof => []
  | kind => kind.text.toList

/-- The text without an `@` in front. -/
def unmarked (text : List Char) : List Char :=
  if text.head? = some '@' then text.tail else text

/-- Is the token written as `text`? The `@` before a name is no part of the name. -/
def Writes (kind : TokenKind) (text : List Char) : Prop :=
  match kind with
  | identifier name => name.toList = unmarked text
  | kind => kind.spelling = text

theorem isEof_eq_false {kind : TokenKind} (h : kind ≠ .eof) : kind.isEof = false := by
  cases kind with
  | eof => exact absurd rfl h
  | _ => rfl

theorem Writes.ne_eof {kind : TokenKind} {text : List Char} (h : kind.Writes text)
    (hne : text ≠ []) : kind ≠ .eof := by
  rintro rfl
  exact hne h.symm

end TokenKind

/-- Does the token of this class carry its text as it is written? -/
def LexemeClass.isLiteral : LexemeClass → Bool
  | integer | real | string | char | malformed => true
  | name | verbatimName | mark _ => false

theorem LexemeClass.writes_of_isLiteral {cls : LexemeClass} (h : cls.isLiteral = true)
    (text : List Char) : (cls.kind text).Writes text := by
  cases cls with
  | integer | real | string | char | malformed => exact String.toList_ofList
  | name | verbatimName | mark => contradiction

namespace Lexeme

/-- The text of a lexeme at the start of `c :: cs`. -/
def textAt (lexeme : Lexeme) (c : Char) (cs : List Char) : List Char :=
  c :: cs.take (lexeme.length - 1)

theorem isLiteral_lexeme (e : Extent) {cls : LexemeClass} (h : cls.isLiteral = true) :
    (e.lexeme cls).cls.isLiteral = true := by
  simp only [Extent.lexeme]
  split
  · exact h
  · rfl

theorem isLiteral_markedString (cs : List Char) : (markedString cs).cls.isLiteral = true := by
  simp only [markedString]
  split
  · exact isLiteral_lexeme _ rfl
  · rfl

theorem isLiteral_number (cs : List Char) : (number cs).cls.isLiteral = true := by
  simp only [number]
  split <;> rfl

/-- A name does not start with `@`. -/
theorem unmarked_of_isNameStart {c : Char} {cs : List Char} (h : isNameStart c = true) :
    TokenKind.unmarked (c :: cs) = c :: cs := by
  have hc : c ≠ '@' := by
    rintro rfl
    exact absurd h (by decide)
  simp [TokenKind.unmarked, hc]

/-- The text of a mark is fixed by its kind. -/
theorem writes_punctuation (c : Char) (cs : List Char) :
    ((punctuation c cs).cls.kind ((punctuation c cs).textAt c cs)).Writes
      ((punctuation c cs).textAt c cs) := by
  have two {d : Char} (h : cs.head? = some d) : cs.take 1 = [d] := by
    obtain ⟨ds, rfl⟩ := List.head?_eq_some_iff.mp h
    rfl
  unfold punctuation
  split <;> try split
  all_goals simp_all [textAt, TokenKind.Writes, LexemeClass.kind, TokenKind.spelling, TokenKind.text]

/-- The token at the start of a text is written as the text it takes. -/
theorem writes_ofText (c : Char) (cs : List Char) :
    ((ofText c cs).cls.kind ((ofText c cs).textAt c cs)).Writes ((ofText c cs).textAt c cs) := by
  unfold ofText
  split
  next h => exact String.toList_ofList.trans (unmarked_of_isNameStart h).symm
  next =>
  split
  next h =>
    obtain ⟨rfl, -⟩ : c = '@' ∧ _ := by simpa using h
    exact String.toList_ofList
  next =>
  split
  next => exact LexemeClass.writes_of_isLiteral (isLiteral_markedString _) _
  next =>
  split
  next => exact LexemeClass.writes_of_isLiteral (isLiteral_lexeme _ rfl) _
  next =>
  split
  next => exact LexemeClass.writes_of_isLiteral (isLiteral_lexeme _ rfl) _
  next =>
  split
  next => exact LexemeClass.writes_of_isLiteral (isLiteral_number _) _
  next => exact writes_punctuation c cs

end Lexeme

/-! ## Tiles -/

/-- What stands after a text and a part that is skipped is found again between its ends. -/
theorem Span.slice?_append {start stop : Nat} {before skipped part after : List Char}
    (hstart : start = byteSize before + byteSize skipped) (hstop : stop = start + byteSize part) :
    (Span.mk start stop).slice? (before ++ (skipped ++ (part ++ after))) = some part := by
  rw [hstop, hstart, ← Text.byteSize_append, ← List.append_assoc]
  exact Text.slice?_append _ _ _

/-- Nothing stands at the end of a text. -/
theorem Span.slice?_point_append (before skipped : List Char) :
    (Span.point (byteSize before + byteSize skipped)).slice? (before ++ skipped) = some [] := by
  have := Text.slice?_append (before ++ skipped) [] []
  rw [List.append_nil, List.append_nil, Text.byteSize_append] at this
  exact this

/-- The text of a list of trivia. -/
def Trivia.textOf (trivia : List Trivia) : List Char := trivia.flatMap (·.text.toList)

/-- The tokens with their trivia make up the text, which stands at the byte `offset`. -/
inductive Tiles : Nat → List Token → List Char → Prop where
  | eof (offset : Nat) (trivia : List Trivia) :
    Tiles offset [⟨.eof, .point (offset + byteSize (Trivia.textOf trivia)), trivia⟩]
      (Trivia.textOf trivia)
  | token {offset start stop : Nat} {kind : TokenKind} {text rest : List Char} {tokens : List Token}
    (trivia : List Trivia) (hne : text ≠ []) (hwrites : kind.Writes text)
    (hstart : start = offset + byteSize (Trivia.textOf trivia))
    (hstop : stop = start + byteSize text) (hrest : Tiles stop tokens rest) :
    Tiles offset (⟨kind, ⟨start, stop⟩, trivia⟩ :: tokens) (Trivia.textOf trivia ++ (text ++ rest))

namespace Token

/-- The text of the token in the source, with the trivia before it. -/
def written (source : List Char) (t : Token) : List Char :=
  Trivia.textOf t.trivia ++ t.span.slice source

/-- The text before `cs` that is not yet given out is that of the trivia already read. -/
theorem tiles_lexFrom (lineStart : Bool) (offset : Nat) (trivia : List Trivia) (cs : List Char) :
    Tiles offset (lexFrom lineStart (offset + byteSize (Trivia.textOf trivia)) trivia cs)
      (Trivia.textOf trivia ++ cs) := by
  induction hn : cs.length using Nat.strongRecOn generalizing lineStart offset trivia cs with
  | _ n ih =>
    cases cs with
    | nil =>
      rw [lexFrom_nil, List.append_nil]
      exact .eof offset trivia
    | cons c cs =>
      rw [lexFrom_cons]
      cases Lexeme.triviaOfText lineStart c cs with
      | some found =>
        obtain ⟨kind, length⟩ := found
        have hlen : (cs.drop (length - 1)).length < n := by
          simp only [← hn, List.length_drop, List.length_cons]
          omega
        have htext : Trivia.textOf (trivia ++ [⟨kind, String.ofList (c :: cs.take (length - 1))⟩])
            = Trivia.textOf trivia ++ c :: cs.take (length - 1) := by
          simp [Trivia.textOf]
        have := ih _ hlen (lineStartAfter lineStart (c :: cs.take (length - 1))) offset
          (trivia ++ [⟨kind, String.ofList (c :: cs.take (length - 1))⟩]) _ rfl
        rw [htext, Text.byteSize_append, ← Nat.add_assoc, List.append_assoc, List.cons_append,
          List.take_append_drop] at this
        exact this
      | none =>
        have hlen : (cs.drop ((Lexeme.ofText c cs).length - 1)).length < n := by
          simp only [← hn, List.length_drop, List.length_cons]
          omega
        have hcut : c :: cs = (Lexeme.ofText c cs).textAt c cs
            ++ cs.drop ((Lexeme.ofText c cs).length - 1) := by
          rw [Lexeme.textAt, List.cons_append, List.take_append_drop]
        rw [hcut]
        exact .token trivia (List.cons_ne_nil _ _) (Lexeme.writes_ofText c cs) rfl rfl
          (ih _ hlen _ _ [] _ rfl)

theorem tiles_lexToEnd (source : String) : Tiles 0 (lexToEnd source) source.toList :=
  tiles_lexFrom true 0 [] source.toList

end Token

namespace Tiles

variable {offset : Nat} {tokens : List Token} {cs : List Char}

/-- The end of the source is the last token, and no other one. -/
theorem exists_eof (h : Tiles offset tokens cs) : ∃ body trivia,
    tokens = body ++ [⟨.eof, .point (offset + byteSize cs), trivia⟩] ∧
      ∀ t ∈ body, t.kind ≠ .eof := by
  induction h with
  | eof offset trivia => exact ⟨[], trivia, rfl, by simp⟩
  | @token offset start stop kind text rest tokens trivia hne hwrites hstart hstop _ ih =>
    obtain ⟨body, last, hbody, hkinds⟩ := ih
    refine ⟨⟨kind, ⟨start, stop⟩, trivia⟩ :: body, last, ?_, ?_⟩
    · rw [hbody, hstop, hstart, Text.byteSize_append, Text.byteSize_append, List.cons_append]
      simp only [Nat.add_assoc]
    · exact List.forall_mem_cons.mpr ⟨hwrites.ne_eof hne, hkinds⟩

theorem le_start (h : Tiles offset tokens cs) {t : Token} (ht : t ∈ tokens) :
    offset ≤ t.span.start := by
  induction h with
  | eof offset trivia =>
    rw [List.mem_singleton.mp ht]
    exact Nat.le_add_right _ _
  | token trivia hne hwrites hstart hstop _ ih =>
    rcases List.mem_cons.mp ht with rfl | ht
    · exact hstart ▸ Nat.le_add_right _ _
    · have := ih ht
      omega

/-- The tokens stand one after the other. -/
theorem pairwise (h : Tiles offset tokens cs) :
    tokens.Pairwise fun t u => t.span.stop ≤ u.span.start := by
  induction h with
  | eof => exact List.pairwise_singleton _ _
  | token trivia _ _ _ _ hrest ih => exact .cons (fun _ ht => hrest.le_start ht) ih

/-- Only the end of the source is empty. -/
theorem start_lt_stop (h : Tiles offset tokens cs) {t : Token} (ht : t ∈ tokens)
    (heof : t.kind ≠ .eof) : t.span.start < t.span.stop := by
  induction h with
  | eof offset trivia =>
    rw [List.mem_singleton.mp ht] at heof
    exact absurd rfl heof
  | token trivia hne hwrites hstart hstop _ ih =>
    rcases List.mem_cons.mp ht with rfl | ht
    · exact hstop ▸ Nat.lt_add_of_pos_right (Text.byteSize_pos hne)
    · exact ih ht

/-- The span of a token cuts out what the token is written as. -/
theorem slice? (h : Tiles offset tokens cs) (before : List Char) (hbefore : byteSize before = offset)
    {t : Token} (ht : t ∈ tokens) :
    ∃ text, t.span.slice? (before ++ cs) = some text ∧ t.kind.Writes text := by
  induction h generalizing before with
  | eof offset trivia =>
    rw [List.mem_singleton.mp ht, ← hbefore]
    exact ⟨[], Span.slice?_point_append _ _, rfl⟩
  | @token offset start stop kind text rest tokens trivia hne hwrites hstart hstop _ ih =>
    rcases List.mem_cons.mp ht with rfl | ht
    · exact ⟨text, Span.slice?_append (hbefore ▸ hstart) hstop, hwrites⟩
    · rw [← List.append_assoc, ← List.append_assoc]
      refine ih _ ?_ ht
      rw [Text.byteSize_append, Text.byteSize_append, hbefore, ← hstart, hstop]

/-- The trivia and the tokens in turn are the text. -/
theorem flatMap_written (h : Tiles offset tokens cs) (before : List Char)
    (hbefore : byteSize before = offset) :
    tokens.flatMap (·.written (before ++ cs)) = cs := by
  induction h generalizing before with
  | eof offset trivia =>
    rw [List.flatMap_cons, List.flatMap_nil, Token.written, Span.slice, ← hbefore,
      Span.slice?_point_append, Option.getD_some, List.append_nil, List.append_nil]
  | @token offset start stop kind text rest tokens trivia hne hwrites hstart hstop _ ih =>
    have hslice : (Span.mk start stop).slice? (before ++ (Trivia.textOf trivia ++ (text ++ rest)))
        = some text := Span.slice?_append (hbefore ▸ hstart) hstop
    have hafter : byteSize (before ++ Trivia.textOf trivia ++ text) = stop := by
      rw [Text.byteSize_append, Text.byteSize_append, hbefore, ← hstart, hstop]
    have hrest := ih _ hafter
    rw [List.append_assoc, List.append_assoc] at hrest
    rw [List.flatMap_cons, hrest, Token.written, Span.slice, hslice, Option.getD_some,
      List.append_assoc]

end Tiles

/-- Nothing of a source is lost: the tokens stand one after the other, only the last one is
    the end of the source, each is written as its kind says, and with the trivia between them
    they are the source. -/
theorem Token.lexToEnd_lossless (source : String) :
    ∃ body trivia,
      lexToEnd source = body ++ [⟨.eof, .point (byteSize source.toList), trivia⟩] ∧
      lex source = body ∧
      (lexToEnd source).Pairwise (fun t u => t.span.stop ≤ u.span.start) ∧
      (∀ t ∈ body, t.kind ≠ .eof ∧ t.span.start < t.span.stop ∧
        ∃ text, t.span.slice? source.toList = some text ∧ t.kind.Writes text) ∧
      (lexToEnd source).flatMap (·.written source.toList) = source.toList := by
  have htiles := tiles_lexToEnd source
  obtain ⟨body, trivia, htokens, hkinds⟩ := htiles.exists_eof
  refine ⟨body, trivia, by simpa using htokens, ?_, htiles.pairwise, ?_, ?_⟩
  · rw [lex, htokens, List.takeWhile_append_of_pos]
    · simp [TokenKind.isEof]
    · intro t ht
      rw [TokenKind.isEof_eq_false (hkinds t ht)]
      rfl
  · intro t ht
    have hmem : t ∈ lexToEnd source := htokens ▸ List.mem_append_left _ ht
    exact ⟨hkinds t ht, htiles.start_lt_stop hmem (hkinds t ht), htiles.slice? [] rfl hmem⟩
  · exact htiles.flatMap_written [] rfl

end SettingsLint
