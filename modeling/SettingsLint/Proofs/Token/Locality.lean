import SettingsLint.Proofs.Token.Gaps

/-! # Tokens are read one by one

A source may be cut at its tokens. Up to the end of a token it is read as the tokens up to there,
since a token shows its end also where the text ends. From the start of a token on it is read as the
tokens from there on, since of the text before only one thing is kept: whether a line starts. It is
lost with the first character of every token, and only a `#` asks for it there.
-/

namespace SettingsLint

open Text (byteSize)

namespace Lexeme

theorem length_ofText_pos (c : Char) (cs : List Char) : 0 < (ofText c cs).length := by
  unfold ofText
  split
  · exact Nat.add_pos_left Nat.one_pos _
  split
  · exact Nat.add_pos_left Nat.one_pos _
  split
  next hmark =>
    rw [markedString]
    split
    · exact Nat.add_pos_right _ (quoted_pos _ _)
    · simp [hmark]
  split
  · exact quoted_pos _ _
  split
  · exact Nat.add_pos_left Nat.one_pos _
  split
  next hnumber => exact Nat.add_pos_left (numberBody_pos hnumber) _
  unfold punctuation
  split <;> try split
  all_goals exact Nat.succ_pos _

/-- A hash is a token of its own. -/
theorem ofText_hash (cs : List Char) : ofText '#' cs = ⟨.mark (.operator '#'), 1⟩ := by
  have hstart : isNameStart '#' = false := by decide
  have hmark : isStringMark '#' = false := by decide
  simp [ofText, hstart, hmark, punctuation]

end Lexeme

namespace Token

open Lexeme (triviaOfText ofText Resumes SameStart)

variable {lineStart : Bool} {offset : Nat} {trivia : List Trivia} {c : Char} {cs : List Char}
  {before after : List Token} {t : Token}

/-- The token `n` bytes further on. -/
def further (n : Nat) (t : Token) : Token := { t with span := ⟨n + t.span.start, n + t.span.stop⟩ }

/-- A text that stands further on is read as the same tokens, further on. -/
theorem lexFrom_add (lineStart : Bool) (n offset : Nat) (trivia : List Trivia) (cs : List Char) :
    lexFrom lineStart (n + offset) trivia cs = (lexFrom lineStart offset trivia cs).map (further n) := by
  induction hlength : cs.length using Nat.strongRecOn generalizing lineStart offset trivia cs with
  | _ length ih =>
    cases cs with
    | nil => rw [lexFrom_nil, lexFrom_nil]; rfl
    | cons c cs =>
      have hshorter (k : Nat) : (cs.drop k).length < length := by
        rw [← hlength, List.length_drop, List.length_cons]
        omega
      rw [lexFrom_cons, lexFrom_cons]
      cases triviaOfText lineStart c cs with
      | some found =>
        dsimp only
        rw [Nat.add_assoc, ih _ (hshorter _) _ _ _ _ rfl]
      | none =>
        dsimp only
        rw [Nat.add_assoc, ih _ (hshorter _) _ _ _ _ rfl]
        rfl

/-- The token at the start of a text is the same before another text, and then this one is read. -/
theorem exists_token (h : triviaOfText lineStart c cs = none) :
    ∃ w r, cs = w ++ r ∧ ∀ r', Resumes r r' → (r = [] → r' = []) → ∀ offset trivia,
      lexFrom lineStart offset trivia (c :: (w ++ r')) =
        ⟨(ofText c cs).cls.kind (c :: w), ⟨offset, offset + byteSize (c :: w)⟩, trivia⟩ ::
          lexFrom (lineStartAfter lineStart (c :: w)) (offset + byteSize (c :: w)) [] r' := by
  have hpos := Lexeme.length_ofText_pos c cs
  obtain ⟨w, r, rfl, hw⟩ : ∃ w r, cs = w ++ r ∧
      ((ofText c cs).length = w.length + 1 ∨ r = [] ∧ w.length ≤ (ofText c cs).length - 1) := by
    rcases Nat.le_total ((ofText c cs).length - 1) cs.length with hle | hle
    · obtain ⟨w, r, hcs, hlength⟩ := Lexeme.exists_split hle
      exact ⟨w, r, hcs, .inl (by omega)⟩
    · exact ⟨cs, [], (List.append_nil cs).symm, .inr ⟨rfl, hle⟩⟩
  refine ⟨w, r, rfl, fun r' hr hnil offset trivia => ?_⟩
  have hsame : ofText c (w ++ r') = ofText c (w ++ r) := by
    rcases hw with hlength | ⟨rfl, -⟩
    · exact Lexeme.ofText_eq hr (fun _ => hnil) hlength
    · rw [hnil rfl]
  have hcut : (w ++ r').take ((ofText c (w ++ r)).length - 1) = w ∧
      (w ++ r').drop ((ofText c (w ++ r)).length - 1) = r' := by
    rcases hw with hlength | ⟨rfl, hle⟩
    · simp [hlength]
    · obtain rfl := hnil rfl
      rw [List.append_nil] at hle ⊢
      exact ⟨List.take_of_length_le hle, List.drop_eq_nil_of_le hle⟩
  rw [lexFrom_cons, Lexeme.triviaOfText_none_eq h hr]
  simp only [hsame, hcut]

/-- Wherever a token of a text stands, the text may be cut after the token, and the rest of it is read
from the token on. -/
theorem exists_cut (h : lexFrom lineStart offset trivia cs = before ++ t :: after)
    (ht : t.kind ≠ .eof) : ∃ u c w r next, cs = u ++ (c :: (w ++ r)) ∧
      t.span = ⟨offset + byteSize u, offset + byteSize u + byteSize (c :: w)⟩ ∧
      lexFrom lineStart offset trivia (u ++ c :: w) = before ++ [t, ⟨.eof, .point t.span.stop, []⟩] ∧
      triviaOfText next c (w ++ r) = none ∧
      lexFrom next t.span.start [] (c :: (w ++ r)) = { t with trivia := [] } :: after := by
  induction hn : cs.length using Nat.strongRecOn generalizing lineStart offset trivia cs before with
  | _ n ih =>
    cases cs with
    | nil =>
      rw [lexFrom_nil] at h
      cases before with
      | nil => exact absurd (congrArg Token.kind (List.cons.inj h).1).symm ht
      | cons first before => exact absurd (List.cons.inj h).2 (by simp)
    | cons c cs =>
      cases htrivia : triviaOfText lineStart c cs with
      | some found =>
        obtain ⟨kind, length⟩ := found
        obtain ⟨w, rest, rfl, rfl⟩ := Lexeme.triviaOfText_length htrivia
        have hread {rest' : List Char} (hrest : SameStart rest rest') :
            lexFrom lineStart offset trivia (c :: (w ++ rest')) =
              lexFrom (lineStartAfter lineStart (c :: w)) (offset + byteSize (c :: w))
                (trivia ++ [⟨kind, String.ofList (c :: w)⟩]) rest' := by
          rw [lexFrom_cons, Lexeme.triviaOfText_eq htrivia hrest]
          simp only [Nat.add_sub_cancel, List.take_left, List.drop_left]
        rw [hread (.inl rfl)] at h
        obtain ⟨u, d, x, r, next, rfl, hspan, hcut, hnone, hrest⟩ :=
          ih _ (by simp only [← hn, List.length_cons, List.length_append]; omega) h rfl
        have hstart : SameStart (d :: (x ++ r)) (d :: x) := .inl rfl
        refine ⟨c :: (w ++ u), d, x, r, next, by simp, ?_, ?_, hnone, hrest⟩
        · rw [hspan, ← List.cons_append, Text.byteSize_append (c :: w)]
          simp only [Nat.add_assoc]
        · rw [List.cons_append, List.append_assoc, hread (hstart.append u), hcut]
      | none =>
        obtain ⟨w, r, rfl, hread⟩ := exists_token htrivia
        rw [hread r (.same r) id] at h
        cases before with
        | nil =>
          obtain ⟨rfl, rfl⟩ := List.cons.inj h
          refine ⟨[], c, w, r, lineStart, rfl, rfl, ?_, htrivia, hread r (.same r) id _ _⟩
          have hend := hread [] (.cut r) (fun _ => rfl) offset trivia
          rwa [List.append_nil, lexFrom_nil] at hend
        | cons first before =>
          obtain ⟨rfl, hmore⟩ := List.cons.inj h
          obtain ⟨u, d, x, r, next, rfl, hspan, hcut, hnone, hrest⟩ :=
            ih _ (by simp only [← hn, List.length_cons, List.length_append]; omega) hmore rfl
          have hresumes : Resumes (u ++ d :: (x ++ r)) (u ++ d :: x) := by
            simpa using ((Resumes.cut r).append (d :: x)).append u
          refine ⟨c :: (w ++ u), d, x, r, next, by simp, ?_, ?_, hnone, hrest⟩
          · rw [hspan, ← List.cons_append, Text.byteSize_append (c :: w)]
            simp only [Nat.add_assoc]
          · rw [List.cons_append, List.append_assoc, hread _ hresumes (by simp), hcut]
            rfl

/-- A token other than `#` is read in the same way at the start of a line. -/
theorem lexFrom_lineStart (h : triviaOfText lineStart c cs = none) (hc : c ≠ '#') (offset : Nat)
    (trivia : List Trivia) :
    lexFrom true offset trivia (c :: cs) = lexFrom lineStart offset trivia (c :: cs) := by
  have hblank := isBlank_of_triviaOfText h
  have htrivia : triviaOfText true c cs = none := by
    simp only [triviaOfText, hc] at h ⊢
    simpa using h
  have hline (w : List Char) : lineStartAfter true (c :: w) = lineStartAfter lineStart (c :: w) := by
    have hne : c ≠ ' ' ∧ c ≠ '\t' :=
      ⟨by rintro rfl; exact absurd hblank (by decide), by rintro rfl; exact absurd hblank (by decide)⟩
    simp [lineStartAfter, hne]
  rw [lexFrom_cons, lexFrom_cons, htrivia, h]
  simp only [hline]

/-- The source may be cut at its token number `i`: what ends with the token is read as the tokens up
to it, and what starts with it as the tokens from it on, unless it is a `#`. -/
def CutsAt (source : String) (i : Nat) : Prop :=
  ∃ t head tail, (lexToEnd source)[i]? = some t ∧
    Text.takeBytes? t.span.stop source.toList = some head ∧
    Text.dropBytes? t.span.start source.toList = some tail ∧
    lexToEnd (String.ofList head) =
      (lexToEnd source).take (i + 1) ++ [⟨.eof, .point t.span.stop, []⟩] ∧
    (t.kind ≠ .operator '#' → (lexToEnd (String.ofList tail)).map (further t.span.start) =
      { t with trivia := [] } :: (lexToEnd source).drop (i + 1))

/-- Reading is local: a source may be cut at each of its tokens. -/
theorem cutsAt_of_lt (source : String) (i : Nat) (hi : i + 1 < (lexToEnd source).length) :
    CutsAt source i := by
  obtain ⟨body, last, hbody, hkinds⟩ := (tiles_lexToEnd source).exists_eof
  have hlt : i < body.length := by
    rw [hbody, List.length_append, List.length_singleton] at hi
    omega
  have hget : (lexToEnd source)[i]? = some body[i] := by
    rw [hbody, List.getElem?_append_left hlt, List.getElem?_eq_getElem hlt]
  have htokens : lexToEnd source =
      (lexToEnd source).take i ++ body[i] :: (lexToEnd source).drop (i + 1) := by
    obtain ⟨hle, heq⟩ := List.getElem?_eq_some_iff.mp hget
    rw [← heq, ← List.drop_eq_getElem_cons hle, List.take_append_drop]
  obtain ⟨u, c, w, r, next, hsource, hspan, hcut, hnone, hrest⟩ :=
    exists_cut htokens (hkinds _ (List.getElem_mem hlt))
  refine ⟨body[i], u ++ c :: w, c :: (w ++ r), hget, ?_, ?_, ?_, fun hhash => ?_⟩
  · exact Text.takeBytes?_eq_some_iff.2 ⟨r, by simp [hsource], by simp [hspan]⟩
  · exact Text.dropBytes?_eq_some_iff.2 ⟨u, hsource, by simp [hspan]⟩
  · rw [List.take_add_one, hget, List.append_assoc, lexToEnd, String.toList_ofList, hcut]
    rfl
  · have hc : c ≠ '#' := by
      rintro rfl
      rw [lexFrom_cons, hnone] at hrest
      exact hhash (congrArg Token.kind (List.cons.inj hrest).1).symm
    rw [lexToEnd, String.toList_ofList, ← lexFrom_add, Nat.add_zero, lexFrom_lineStart hnone hc, hrest]

/-- After a comment that ends with a `#`, between a malformed text that ends its line and a string. -/
theorem cutsAt_sample : 2 < (lexToEnd "a /*\n#*/ \"b\n#1\n\"c\"").length ∧
    CutsAt "a /*\n#*/ \"b\n#1\n\"c\"" 1 :=
  ⟨by decide +kernel, cutsAt_of_lt _ 1 (by decide +kernel)⟩

end Token

end SettingsLint
