import SettingsLint.Token.Lexeme

/-! # From text to tokens

`Token.lexToEnd` reads a source text as tokens with an `eof` token at the end, which
carries the trivia after the last real token. `Token.lex` leaves the `eof` token out.

Reading goes from left to right and never fails. At each place the text up to there
has been given out as trivia and tokens, and what is left is strictly shorter after
every piece. Of the text already read, one fact is kept: whether only spaces and
tabs stand between the last line break and the place, since only there a `#` starts
a preprocessor line.
-/

namespace SettingsLint.Token

/-- Whether only spaces and tabs precede the place after `text` on its line, given the
same of the place before it. -/
def lineStartAfter (lineStart : Bool) (text : List Char) : Bool :=
  text.foldl (fun fresh c => c = '\n' || (fresh && (c = ' ' || c = '\t'))) lineStart

/-- The tokens of `cs`, which stands at the byte `offset` of the source, with the
trivia already read before it. -/
def lexFrom (lineStart : Bool) (offset : Nat) (trivia : List Trivia) : List Char → List Token
  | [] => [⟨.eof, Span.point offset, trivia⟩]
  | c :: cs =>
    match Lexeme.triviaOfText lineStart c cs with
    | some (kind, n) =>
      let text := c :: cs.take (n - 1)
      lexFrom (lineStartAfter lineStart text) (offset + Text.byteSize text)
        (trivia ++ [⟨kind, String.ofList text⟩]) (cs.drop (n - 1))
    | none =>
      let lexeme := Lexeme.ofText c cs
      let text := c :: cs.take (lexeme.length - 1)
      let stop := offset + Text.byteSize text
      ⟨lexeme.cls.kind text, ⟨offset, stop⟩, trivia⟩
        :: lexFrom (lineStartAfter lineStart text) stop [] (cs.drop (lexeme.length - 1))
termination_by cs => cs.length
decreasing_by all_goals simp only [List.length_drop, List.length_cons]; omega

theorem lexFrom_nil (lineStart : Bool) (offset : Nat) (trivia : List Trivia) :
    lexFrom lineStart offset trivia [] = [⟨.eof, Span.point offset, trivia⟩] :=
  lexFrom.eq_1 ..

theorem lexFrom_cons (lineStart : Bool) (offset : Nat) (trivia : List Trivia) (c : Char)
    (cs : List Char) : lexFrom lineStart offset trivia (c :: cs) =
      match Lexeme.triviaOfText lineStart c cs with
      | some (kind, n) =>
        let text := c :: cs.take (n - 1)
        lexFrom (lineStartAfter lineStart text) (offset + Text.byteSize text)
          (trivia ++ [⟨kind, String.ofList text⟩]) (cs.drop (n - 1))
      | none =>
        let lexeme := Lexeme.ofText c cs
        let text := c :: cs.take (lexeme.length - 1)
        let stop := offset + Text.byteSize text
        ⟨lexeme.cls.kind text, ⟨offset, stop⟩, trivia⟩
          :: lexFrom (lineStartAfter lineStart text) stop [] (cs.drop (lexeme.length - 1)) :=
  lexFrom.eq_2 ..

/-- The tokens of a source text, with an `eof` token at the end. -/
def lexToEnd (source : String) : List Token :=
  lexFrom true 0 [] source.toList

/-- The tokens of a source text without the `eof` token. -/
def lex (source : String) : List Token :=
  (lexToEnd source).takeWhile (!·.kind.isEof)

end SettingsLint.Token
