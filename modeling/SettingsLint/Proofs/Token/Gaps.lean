import SettingsLint.Proofs.Token.Resuming
import SettingsLint.Proofs.Token.Spelling

/-! # Tokens and the gaps between them

Before each token of a text there is a gap of trivia. A gap is read in the same way before another
token (`Gap.resume`), and a token in the same way before another text, so a part of a text is read as
the same tokens wherever it stands (`kindsFrom_of_tokens`).
-/

namespace SettingsLint

open Text (byteSize)

namespace Lexeme

variable {cs cs' w rest rest' : List Char} {lineStart : Bool} {c : Char}

/-! ## Trivia -/

/-- What a gap is followed by may be replaced: both texts start with the same character, or both
    with one that is not blank. -/
def SameStart (cs cs' : List Char) : Prop :=
  cs'.head? = cs.head? ∨ cs ≠ [] ∧ cs' ≠ [] ∧ Stops Text.isBlank cs ∧ Stops Text.isBlank cs'

theorem SameStart.append (h : SameStart cs cs') (u : List Char) :
    SameStart (u ++ cs) (u ++ cs') := by
  cases u with
  | nil => exact h
  | cons c u => exact .inl rfl

theorem SameStart.stops (h : SameStart cs cs') (hs : Stops Text.isBlank cs) :
    Stops Text.isBlank cs' := by
  rcases h with heq | h
  · rwa [Stops, heq]
  · exact h.2.2.2

theorem SameStart.eq_nil (h : SameStart [] cs') : cs' = [] := by
  rcases h with heq | h
  · exact List.head?_eq_none_iff.mp heq
  · exact absurd rfl h.1

theorem blockCommentTail_pos (c : Char) (cs : List Char) : 0 < blockCommentTail (c :: cs) := by
  rw [blockCommentTail]
  split <;> omega

theorem blockCommentTail_le (cs : List Char) : blockCommentTail cs ≤ cs.length := by
  induction cs with
  | nil => exact Nat.le_refl 0
  | cons c cs ih =>
    rw [blockCommentTail]
    split
    case isTrue h =>
      cases cs with
      | nil => simp at h
      | cons d cs => simp
    case isFalse =>
      rw [List.length_cons]
      omega

/-- A comment that is closed is the same before any text. -/
theorem blockCommentTail_eq (h : blockCommentTail (w ++ rest) = w.length)
    (hrest : SameStart rest rest') : blockCommentTail (w ++ rest') = w.length := by
  induction w with
  | nil =>
    cases rest with
    | nil =>
      rw [hrest.eq_nil]
      rfl
    | cons c rest => exact absurd h (Nat.ne_of_gt (blockCommentTail_pos c rest))
  | cons c w ih =>
    rw [List.cons_append, blockCommentTail] at h ⊢
    cases w with
    | nil =>
      split at h
      · exact absurd h (by simp)
      · obtain rfl : rest = [] := by
          cases rest with
          | nil => rfl
          | cons d rest =>
            have hpos := blockCommentTail_pos d rest
            rw [List.nil_append, List.length_singleton] at h
            omega
        rw [hrest.eq_nil, if_neg (by simp)]
        rfl
    | cons d w =>
      have hhead : ((d :: w) ++ rest').head? = ((d :: w) ++ rest).head? := rfl
      rw [hhead]
      split at h
      case isTrue hclosed => rwa [if_pos hclosed]
      case isFalse hopen =>
        have htail : blockCommentTail ((d :: w) ++ rest) = (d :: w).length := by
          rw [List.length_cons] at h
          omega
        rw [if_neg hopen, ih htail, Nat.add_comm]
        rfl

/-- A line ends before a line break or at the end of the text. -/
theorem stops_of_lineLength (h : lineLength (w ++ rest) = w.length + 1) :
    (∀ c ∈ w, decide (c ≠ '\n') = true) ∧ Stops (fun c => decide (c ≠ '\n')) rest :=
  runLength_spec (by rw [lineLength] at h; omega)

theorem SameStart.stops_line (h : SameStart rest rest')
    (hs : Stops (fun c => decide (c ≠ '\n')) rest) : Stops (fun c => decide (c ≠ '\n')) rest' := by
  rcases h with heq | ⟨hne, -, hblank, -⟩
  · rwa [Stops, heq]
  · obtain ⟨c, rest, rfl⟩ := List.exists_cons_of_ne_nil hne
    obtain rfl : c = '\n' := by simpa using hs c rfl
    exact absurd (hblank '\n' rfl) (by decide)

/-- A line is the same before another text. -/
theorem lineLength_eq (h : lineLength (w ++ rest) = w.length + 1)
    (hrest : SameStart rest rest') : lineLength (w ++ rest') = w.length + 1 := by
  obtain ⟨hw, hs⟩ := stops_of_lineLength h
  rw [lineLength, runLength_append hw (hrest.stops_line hs), Nat.add_comm]

/-- The slashes of a comment stand on its line. -/
theorem isDocComment_append (hs : Stops (fun c => decide (c ≠ '\n')) rest) :
    isDocComment (w ++ rest) = isDocComment w := by
  cases rest with
  | nil => rw [List.append_nil]
  | cons c rest =>
    obtain rfl : c = '\n' := by simpa using hs c rfl
    rcases w with _ | ⟨_, _ | ⟨_, _ | ⟨_, _ | ⟨_, _⟩⟩⟩⟩ <;> simp [isDocComment, List.isPrefixOf]

theorem head?_append_eq (hw : w ≠ []) (rest rest' : List Char) :
    (w ++ rest').head? = (w ++ rest).head? := by
  obtain ⟨c, w, rfl⟩ := List.exists_cons_of_ne_nil hw
  rfl

/-- Trivia are the same before another text. -/
theorem triviaOfText_eq {kind : TriviaKind}
    (h : triviaOfText lineStart c (w ++ rest) = some (kind, w.length + 1))
    (hrest : SameStart rest rest') :
    triviaOfText lineStart c (w ++ rest') = some (kind, w.length + 1) := by
  unfold triviaOfText at h ⊢
  by_cases h1 : Text.isBlank c = true
  · rw [if_pos h1, Option.some.injEq, Prod.mk.injEq] at h
    have hspec := runLength_spec (p := Text.isBlank) (w := w) (r := rest) (by omega)
    rw [if_pos h1, runLength_append hspec.1 (hrest.stops hspec.2), Nat.add_comm, h.1]
  rw [if_neg h1] at h ⊢
  by_cases h2 : (c = '/' && (w ++ rest).head? = some '/') = true
  · rw [if_pos h2, Option.some.injEq, Prod.mk.injEq] at h
    have hw : w ≠ [] := by
      rintro rfl
      have hhead : (rest).head? = some '/' := by simp_all
      obtain ⟨cs, rfl⟩ := List.head?_eq_some_iff.mp hhead
      have := h.2
      simp [lineLength, runLength] at this
    obtain ⟨-, hs⟩ := stops_of_lineLength h.2
    have hdoc : isDocComment (c :: (w ++ rest')) = isDocComment (c :: (w ++ rest)) :=
      (isDocComment_append (hrest.stops_line hs)).trans
        (isDocComment_append (w := c :: w) hs).symm
    rw [head?_append_eq hw rest rest', if_pos h2, lineLength_eq h.2 hrest, hdoc, h.1]
  rw [if_neg h2] at h
  by_cases h3 : (c = '/' && (w ++ rest).head? = some '*') = true
  · rw [if_pos h3, Option.some.injEq, Prod.mk.injEq] at h
    have hw : w ≠ [] := by
      rintro rfl
      have := h.2
      simp at this
      omega
    have hhead := head?_append_eq hw rest rest'
    obtain ⟨d, w, rfl⟩ := List.exists_cons_of_ne_nil hw
    have htail : blockCommentTail (w ++ rest) = w.length := by
      have := h.2
      simp only [List.cons_append, List.drop_succ_cons, List.drop_zero, List.length_cons] at this
      omega
    rw [hhead, if_neg h2, if_pos h3, ← h.1]
    simp only [List.cons_append, List.drop_succ_cons, List.drop_zero, List.length_cons,
      blockCommentTail_eq htail hrest, Option.some.injEq, Prod.mk.injEq, true_and]
    omega
  rw [if_neg h3] at h
  by_cases h4 : (c = '#' && lineStart) = true
  · rw [if_pos h4, Option.some.injEq, Prod.mk.injEq] at h
    have hc : c ≠ '/' := by
      rintro rfl
      exact absurd h4 (by simp)
    rw [if_neg (by simp [hc]), if_neg (by simp [hc]), if_pos h4, lineLength_eq h.2 hrest, h.1]
  rw [if_neg h4] at h
  exact absurd h (by simp)

theorem triviaOfText_length {kind : TriviaKind} {n : Nat}
    (h : triviaOfText lineStart c cs = some (kind, n)) : ∃ w rest, cs = w ++ rest ∧ n = w.length + 1 := by
  have hrun (p : Char → Bool) : runLength p cs ≤ cs.length := (List.takeWhile_sublist _).length_le
  have hline : 1 ≤ lineLength cs ∧ lineLength cs ≤ cs.length + 1 := by
    have := hrun (fun x => decide (x ≠ '\n'))
    rw [lineLength]
    omega
  have hbounds : 1 ≤ n ∧ n ≤ cs.length + 1 := by
    unfold triviaOfText at h
    by_cases h1 : Text.isBlank c = true
    · rw [if_pos h1, Option.some.injEq, Prod.mk.injEq] at h
      have := hrun Text.isBlank
      omega
    rw [if_neg h1] at h
    by_cases h2 : (c = '/' && cs.head? = some '/') = true
    · rw [if_pos h2, Option.some.injEq, Prod.mk.injEq] at h
      exact h.2 ▸ hline
    rw [if_neg h2] at h
    by_cases h3 : (c = '/' && cs.head? = some '*') = true
    · rw [if_pos h3, Option.some.injEq, Prod.mk.injEq] at h
      obtain ⟨cs, rfl⟩ := List.head?_eq_some_iff.mp (of_decide_eq_true (Bool.and_eq_true_iff.mp h3).2)
      have := blockCommentTail_le cs
      simp only [List.drop_succ_cons, List.drop_zero] at h
      rw [List.length_cons]
      omega
    rw [if_neg h3] at h
    by_cases h4 : (c = '#' && lineStart) = true
    · rw [if_pos h4, Option.some.injEq, Prod.mk.injEq] at h
      exact h.2 ▸ hline
    · rw [if_neg h4] at h
      exact absurd h (by simp)
  refine ⟨cs.take (n - 1), cs.drop (n - 1), (List.take_append_drop _ _).symm, ?_⟩
  rw [List.length_take]
  omega

theorem triviaOfText_eq_none (h1 : Text.isBlank c = false) (h2 : c ≠ '/') (h3 : c ≠ '#')
    (lineStart : Bool) (cs : List Char) : triviaOfText lineStart c cs = none := by
  simp [triviaOfText, h1, h2, h3]

/-- Trivia start with a character that is clear. -/
theorem isClear_of_triviaOfText
    {found : TriviaKind × Nat} (h : triviaOfText lineStart c cs = some found) : isClear c = true := by
  refine Decidable.byContradiction fun hclear => ?_
  have hmem : c ∈ ['.', 'e', 'E', '+', '-'] := by
    rw [isClear, Bool.not_eq_true', Bool.not_eq_false, List.contains_iff_mem] at hclear
    exact hclear
  have hnone : triviaOfText lineStart c cs = none := by
    simp only [List.mem_cons, List.not_mem_nil, or_false] at hmem
    rcases hmem with rfl | rfl | rfl | rfl | rfl <;>
      exact triviaOfText_eq_none (by decide) (by decide) (by decide) _ _
  rw [hnone] at h
  exact absurd h (by simp)

/-- Where no trivia start none do before another text, nor after the start of a line. -/
theorem triviaOfText_none_eq
    (h : triviaOfText lineStart c (w ++ rest) = none) (hr : Resumes rest rest') :
    triviaOfText lineStart c (w ++ rest') = none := by
  have hblank : Text.isBlank c = false := by
    refine Bool.eq_false_iff.mpr fun hc => ?_
    rw [triviaOfText, if_pos hc] at h
    exact absurd h (by simp)
  by_cases hslash : c = '/'
  · subst hslash
    have h1 : (w ++ rest).head? ≠ some '/' := by
      intro hhead
      rw [triviaOfText, if_neg (by simp [hblank]), if_pos (by rw [hhead]; rfl)] at h
      exact absurd h (by simp)
    have h2 : (w ++ rest).head? ≠ some '*' := by
      intro hhead
      rw [triviaOfText, if_neg (by simp [hblank]), if_neg (by rw [hhead]; decide),
        if_pos (by rw [hhead]; rfl)] at h
      exact absurd h (by simp)
    have h1' := (hr.append w).head?_ne rfl h1
    have h2' := (hr.append w).head?_ne rfl h2
    simp only [triviaOfText, hblank, h1', h2']
    simp
  · simp only [triviaOfText, hblank, hslash] at h ⊢
    simpa using h

theorem triviaOfText_none_false
    (h : triviaOfText lineStart c cs = none) : triviaOfText false c cs = none := by
  cases lineStart with
  | false => exact h
  | true =>
    unfold triviaOfText at h ⊢
    grind

end Lexeme

namespace Token

open Lexeme (triviaOfText ofText Resumes SameStart Stops EndsText)

variable {x r : List Char}

/-! ## Gaps -/

/-- Before the text `y` the text is read as trivia. It starts with nothing but a margin before it on
    its line if `lineStart`, and so does `y` for the second flag. -/
inductive Gap (y : List Char) : (lineStart : Bool) → List Char → Bool → Prop where
  | nil (lineStart : Bool) : Gap y lineStart [] lineStart
  | cons {lineStart next : Bool} {c : Char} {w u : List Char} {kind : TriviaKind}
    (h : triviaOfText lineStart c (w ++ (u ++ y)) = some (kind, w.length + 1))
    (hu : Gap y (lineStartAfter lineStart (c :: w)) u next) : Gap y lineStart (c :: (w ++ u)) next

section

variable {next : Bool} {u y y' : List Char}

/-- A gap is one before another text that starts with a token, too. -/
theorem Gap.resume (h : Gap y lineStart u next) (hy : SameStart y y') : Gap y' lineStart u next := by
  induction h with
  | nil => exact .nil _
  | @cons _ _ c w u _ h _ ih =>
    exact .cons (Lexeme.triviaOfText_eq h (hy.append u)) ih

theorem Gap.isClear_head (h : Gap y lineStart u next) : ∀ c ∈ u.head?, Lexeme.isClear c = true := by
  cases h with
  | nil => exact fun _ hc => absurd hc (by simp)
  | cons h =>
    intro c hc
    obtain rfl := Option.some.inj hc
    exact Lexeme.isClear_of_triviaOfText h

/-- A gap is stepped over. -/
theorem Gap.lexFrom (h : Gap y lineStart u next) (offset : Nat) (trivia : List Trivia) :
    ∃ trivia', lexFrom lineStart offset trivia (u ++ y) =
      Token.lexFrom next (offset + byteSize u) trivia' y := by
  induction h generalizing offset trivia with
  | nil => exact ⟨trivia, rfl⟩
  | @cons lineStart next c w u kind h _ ih =>
    obtain ⟨trivia', htrivia⟩ := ih (offset + byteSize (c :: w))
      (trivia ++ [⟨kind, String.ofList (c :: w)⟩])
    refine ⟨trivia', ?_⟩
    have hsize : byteSize (c :: (w ++ u)) = byteSize (c :: w) + byteSize u :=
      Text.byteSize_append (c :: w) u
    rw [hsize, ← Nat.add_assoc, ← htrivia, List.cons_append, List.append_assoc, lexFrom_cons, h]
    simp only [Nat.add_sub_cancel, List.take_left, List.drop_left]

/-- Every text starts with a gap, which may be empty. -/
theorem exists_gap (lineStart : Bool) (cs : List Char) :
    ∃ u y next, cs = u ++ y ∧ Gap y lineStart u next ∧
      ∀ c cs', y = c :: cs' → triviaOfText next c cs' = none := by
  induction hn : cs.length using Nat.strongRecOn generalizing lineStart cs with
  | _ n ih =>
    cases cs with
    | nil => exact ⟨[], [], lineStart, rfl, .nil _, fun _ _ h => absurd h (by simp)⟩
    | cons c cs =>
      cases h : triviaOfText lineStart c cs with
      | none =>
        refine ⟨[], c :: cs, lineStart, rfl, .nil _, fun _ _ heq => ?_⟩
        obtain ⟨rfl, rfl⟩ := List.cons.inj heq
        exact h
      | some found =>
        obtain ⟨kind, n⟩ := found
        obtain ⟨w, rest, rfl, hlength⟩ := Lexeme.triviaOfText_length h
        obtain ⟨u, y, next, rfl, hgap, hnone⟩ := ih rest.length (by simp only [← hn, List.length_append, List.length_cons]; omega)
          (lineStartAfter lineStart (c :: w)) rest rfl
        rw [hlength] at h
        exact ⟨c :: (w ++ u), y, next, by simp, .cons h hgap, hnone⟩

end

/-! ## Single tokens -/

/-- The text is a token before `r`. Only a margin stands before it on its line if `lineStart`. -/
structure Lexes (lineStart : Bool) (x r : List Char) (kind : TokenKind) : Prop where
  token : ∃ c w, x = c :: w ∧ triviaOfText lineStart c (w ++ r) = none ∧
    (ofText c (w ++ r)).length = w.length + 1 ∧ (ofText c (w ++ r)).cls ≠ .malformed ∧
    (ofText c (w ++ r)).cls.kind x = kind

theorem isBlank_of_triviaOfText {lineStart : Bool} {c : Char} {cs : List Char}
    (h : triviaOfText lineStart c cs = none) : Text.isBlank c = false := by
  refine Bool.eq_false_iff.mpr fun hc => ?_
  rw [triviaOfText, if_pos hc] at h
  exact absurd h (by simp)

theorem exists_getLast_of_endsText (h : EndsText x.length (x ++ r)) :
    ∃ c, Text.isBlank c = false ∧ x = x.dropLast ++ [c] := by
  obtain ⟨c, hc, w, rest, heq, hlength⟩ := h
  have hx : x = w ++ [c] := by
    have := congrArg (List.take x.length) heq
    rwa [List.take_left, hlength, List.append_cons, List.take_left' (by simp)] at this
  exact ⟨c, hc, by rw [hx, List.dropLast_concat]⟩

/-- After a character that is not blank a line does not start. -/
theorem lineStartAfter_of_endsText {lineStart : Bool}
    (h : EndsText x.length (x ++ r)) : lineStartAfter lineStart x = false := by
  obtain ⟨c, hc, hx⟩ := exists_getLast_of_endsText h
  rw [hx, lineStartAfter]
  have hne : c ≠ '\n' ∧ c ≠ ' ' ∧ c ≠ '\t' :=
    ⟨by rintro rfl; exact absurd hc (by decide), by rintro rfl; exact absurd hc (by decide),
      by rintro rfl; exact absurd hc (by decide)⟩
  simp [hne]

namespace Lexes

variable {x r r' : List Char} {kind : TokenKind}

/-- A token is read, and the line has a token then. -/
theorem lexFrom (h : Lexes lineStart x r kind) (offset : Nat) (trivia : List Trivia) :
    lexFrom lineStart offset trivia (x ++ r) =
      ⟨kind, ⟨offset, offset + byteSize x⟩, trivia⟩ :: Token.lexFrom false (offset + byteSize x) [] r := by
  obtain ⟨c, w, rfl, hnone, hlength, hcls, rfl⟩ := h.token
  have hends := Lexeme.endsText_ofText
    (isBlank_of_triviaOfText hnone) hcls
  rw [hlength] at hends
  have hline : lineStartAfter lineStart (c :: w) = false := lineStartAfter_of_endsText hends
  rw [List.cons_append, lexFrom_cons, hnone]
  simp only [hlength, Nat.add_sub_cancel, List.take_left, List.drop_left, hline]

theorem kindsFrom (h : Lexes lineStart x r kind) :
    kindsFrom lineStart (x ++ r) = kind :: Token.kindsFrom false r := by
  rw [Token.kindsFrom, h.lexFrom, List.map_cons, map_kind_lexFrom]

theorem stops_isBlank (h : Lexes lineStart x r kind) (r' : List Char) : Stops Text.isBlank (x ++ r') := by
  obtain ⟨c, w, rfl, hnone, -⟩ := h.token
  intro d hd
  obtain rfl := Option.some.inj hd
  exact isBlank_of_triviaOfText hnone

theorem writes (h : Lexes lineStart x r kind) : kind.Writes x := by
  obtain ⟨c, w, rfl, -, hlength, -, rfl⟩ := h.token
  have htext : (ofText c (w ++ r)).textAt c (w ++ r) = c :: w := by
    rw [Lexeme.textAt, hlength, Nat.add_sub_cancel, List.take_left]
  have := Lexeme.writes_ofText c (w ++ r)
  rwa [htext] at this

/-- A token is the same before another text. -/
theorem resume (h : Lexes lineStart x r kind) (hr : Resumes r r') : Lexes lineStart x r' kind := by
  obtain ⟨c, w, rfl, hnone, hlength, hcls, hkind⟩ := h.token
  have hsame := Lexeme.ofText_eq hr (fun h => absurd h hcls) hlength
  exact ⟨c, w, rfl, Lexeme.triviaOfText_none_eq hnone hr, hsame ▸ hlength, hsame ▸ hcls, hsame ▸ hkind⟩

/-- A token that starts a line may as well stand after another one. -/
theorem of_lineStart (h : Lexes lineStart x r kind) : Lexes false x r kind := by
  obtain ⟨c, w, rfl, hnone, hrest⟩ := h.token
  exact ⟨c, w, rfl, Lexeme.triviaOfText_none_false hnone, hrest⟩

end Lexes

/-! ## Taking texts apart -/

variable {offset : Nat} {trivia : List Trivia} {t : Token} {tokens more : List Token}

/-- The token is neither the end of the source nor malformed. -/
structure Proper (t : Token) : Prop where
  ne_eof : t.kind ≠ .eof
  ne_error : ∀ text, t.kind ≠ .error text

/-- A text whose first token is not its end starts with a gap and the token. -/
theorem exists_lexes (h : lexFrom lineStart offset trivia cs = t :: tokens) (ht : t.Proper) :
    ∃ u x r next, cs = u ++ (x ++ r) ∧ Gap (x ++ r) lineStart u next ∧ Lexes next x r t.kind ∧
      t.span = ⟨offset + byteSize u, offset + byteSize u + byteSize x⟩ ∧
      tokens = lexFrom false t.span.stop [] r := by
  obtain ⟨u, y, next, rfl, hgap, hnone⟩ := exists_gap lineStart cs
  obtain ⟨trivia', heq⟩ := hgap.lexFrom offset trivia
  rw [heq] at h
  cases y with
  | nil =>
    rw [lexFrom_nil] at h
    obtain ⟨rfl, -⟩ := List.cons.inj h
    exact absurd rfl ht.ne_eof
  | cons c cs =>
    have hnone := hnone c cs rfl
    have hhead : t.kind = (ofText c cs).cls.kind (c :: cs.take ((ofText c cs).length - 1)) := by
      rw [lexFrom_cons, hnone] at h
      exact (congrArg Token.kind (List.cons.inj h).1).symm
    have hcls : (ofText c cs).cls ≠ .malformed := by
      intro hcls
      rw [hcls] at hhead
      exact ht.ne_error _ hhead
    obtain ⟨d, -, w, rest, hsplit, hlength⟩ := Lexeme.endsText_ofText
      (isBlank_of_triviaOfText hnone) hcls
    -- The token is a part of the text.
    obtain ⟨w, r, rfl, hlength⟩ : ∃ w r, cs = w ++ r ∧ (ofText c cs).length = w.length + 1 := by
      cases w with
      | nil =>
        refine ⟨[], cs, rfl, hlength⟩
      | cons a w =>
        obtain ⟨-, rfl⟩ := List.cons.inj hsplit
        exact ⟨w ++ [d], rest, by simp, by simpa using hlength⟩
    have hlexes : Lexes next (c :: w) r t.kind := by
      refine ⟨c, w, rfl, hnone, hlength, hcls, ?_⟩
      rw [hhead, hlength, Nat.add_sub_cancel, List.take_left]
    rw [← List.cons_append, hlexes.lexFrom] at h
    obtain ⟨hfirst, rfl⟩ := List.cons.inj h
    have hspan := (congrArg Token.span hfirst).symm
    exact ⟨u, c :: w, r, next, rfl, hgap, hlexes, hspan, by rw [hspan]⟩

/-- A part of a text that starts and ends with a token. -/
structure Solid (x : List Char) : Prop where
  ne_nil : x ≠ []
  first : Stops Text.isBlank x
  last : Stops Text.isBlank x.reverse

theorem Solid.trimBlank (h : Solid x) : Text.trimBlank x = x := by
  have hkeep {y : List Char} (hy : Stops Text.isBlank y) : y.dropWhile Text.isBlank = y := by
    cases y with
    | nil => rfl
    | cons c y => exact List.dropWhile_cons_of_neg (by simp [hy c rfl])
  rw [Text.trimBlank, hkeep h.first, hkeep h.last, List.reverse_reverse]

theorem Solid.sameStart (h : Solid x) (r r' : List Char) : SameStart (x ++ r) (x ++ r') :=
  .inl (Lexeme.head?_append_eq h.ne_nil r r')

theorem Solid.append {y : List Char} (hx : Solid x) (u : List Char) (hy : Solid y) :
    Solid (x ++ (u ++ y)) := by
  obtain ⟨c, x, rfl⟩ := List.exists_cons_of_ne_nil hx.ne_nil
  refine ⟨by simp, hx.first, ?_⟩
  have hne : y.reverse ≠ [] := by simpa using hy.ne_nil
  have hlast := hy.last
  obtain ⟨d, z, hz⟩ := List.exists_cons_of_ne_nil hne
  rw [hz] at hlast
  rw [List.reverse_append, List.reverse_append, hz]
  exact hlast

theorem Lexes.solid {kind : TokenKind} (h : Lexes lineStart x r kind) : Solid x := by
  obtain ⟨c, w, rfl, hnone, hlength, hcls, -⟩ := h.token
  refine ⟨List.cons_ne_nil c w, ?_, ?_⟩
  · simpa using h.stops_isBlank []
  · have hends := Lexeme.endsText_ofText (isBlank_of_triviaOfText hnone) hcls
    rw [hlength] at hends
    obtain ⟨d, hd, hlast⟩ := exists_getLast_of_endsText (x := c :: w) hends
    rw [hlast, List.reverse_append]
    intro e he
    obtain rfl := Option.some.inj he
    exact hd

/-- Some tokens of a text stand in a part of it, which is read as such tokens before another text,
    too, and also if it stands after another token. -/
theorem exists_part (h : lexFrom lineStart offset trivia cs = t :: tokens ++ more)
    (hproper : ∀ t' ∈ t :: tokens, t'.Proper) :
    ∃ u x r next, cs = u ++ (x ++ r) ∧ Gap (x ++ r) lineStart u next ∧ Solid x ∧
      t.span.start = offset + byteSize u ∧
      (tokens.getLastD t).span.stop = t.span.start + byteSize x ∧
      more = lexFrom false (tokens.getLastD t).span.stop [] r ∧
      ∀ start r', start = next ∨ start = false → Resumes r r' →
        kindsFrom start (x ++ r') = (t :: tokens).map (·.kind) ++ kindsFrom false r' := by
  have hfrom {next start : Bool} {x r : List Char} {kind : TokenKind} (h : Lexes next x r kind)
      (hstart : start = next ∨ start = false) : Lexes start x r kind := by
    rcases hstart with rfl | rfl
    · exact h
    · exact h.of_lineStart
  induction tokens generalizing lineStart offset trivia cs t with
  | nil =>
    obtain ⟨u, x, r, next, rfl, hgap, hlexes, hspan, hmore⟩ := exists_lexes h (hproper t (by simp))
    refine ⟨u, x, r, next, rfl, hgap, hlexes.solid, by rw [hspan], by rw [List.getLastD_nil, hspan],
      hmore, fun start r' hstart hr => ?_⟩
    rw [((hfrom hlexes hstart).resume hr).kindsFrom]
    rfl
  | cons t' tokens ih =>
    obtain ⟨u, x, r, next, rfl, hgap, hlexes, hspan, hmore⟩ := exists_lexes h (hproper t (by simp))
    obtain ⟨u', x', r', next', rfl, hgap', hsolid', hstart', hstop', hmore', hkinds'⟩ :=
      ih hmore.symm fun t'' ht => hproper t'' (List.mem_cons_of_mem t ht)
    refine ⟨u, x ++ (u' ++ x'), r', next, by simp, by simpa using hgap, hlexes.solid.append u' hsolid',
      by rw [hspan], ?_, ?_, fun start r'' hstart hr => ?_⟩
    · rw [List.getLastD_cons, hstop', hstart', hspan]
      simp only [Text.byteSize_append]
      omega
    · rw [List.getLastD_cons]
      exact hmore'
    · rw [List.append_assoc, List.append_assoc,
        ((hfrom hlexes hstart).resume ((hr.append x').append u')).kindsFrom, List.map_cons,
        List.cons_append, ← hkinds' next' r'' (.inl rfl) hr]
      obtain ⟨trivia', heq⟩ := (hgap'.resume (hsolid'.sameStart r' r'')).lexFrom 0 []
      rw [kindsFrom, heq, map_kind_lexFrom]

end Token

end SettingsLint
