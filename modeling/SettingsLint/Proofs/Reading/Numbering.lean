import SettingsLint.Proofs.Reading.LayoutDeclarations
import SettingsLint.Proofs.Token.Tiling

/-! # Numbered boundaries

The boundaries of the tokens of a text are numbered from left to right: the token with
index `i` goes from boundary `2 * i` to boundary `2 * i + 1`. A list of kinds alone gives
the tokens of a text whose offsets are these numbers. The tokens of any text are these
tokens in another layout, so what is read from the text is what is read from the kinds,
with each boundary put where it is in the text.
-/

namespace SettingsLint

open Placed (relocate)

/-- The tokens of a text: in order, with an empty `eof` at the end. -/
structure Laid (ts : List Token) : Prop where
  ordered : Ordered ts
  ends : EndsInEof ts
  eof : ∀ t ∈ ts, t.kind = .eof → t.span.start = t.span.stop

namespace Laid

variable {ts : List Token}

theorem filled (h : Laid ts) {t : Token} (ht : t ∈ ts) (heof : t.kind ≠ .eof) :
    t.span.start < t.span.stop := by
  obtain ⟨last, hlast, hlast_eof⟩ := h.ends
  obtain ⟨body, rfl⟩ := List.getLast?_eq_some_iff.mp hlast
  rcases List.mem_append.mp ht with ht | ht
  · exact (h.ordered.filled t (by rwa [List.dropLast_concat])).2
  · rw [List.mem_singleton.mp ht] at heof
    exact absurd hlast_eof heof

theorem valid (h : Laid ts) {t : Token} (ht : t ∈ ts) : t.span.start ≤ t.span.stop := by
  by_cases heof : t.kind = .eof
  · exact Nat.le_of_eq (h.eof t ht heof)
  · exact Nat.le_of_lt (h.filled ht heof)

/-- The tokens stay where they are. -/
def layout (h : Laid ts) : Layout ts where
  offset := id
  trivia := Token.trivia
  ordered := h.ordered
  valid _ ht := h.valid ht
  mono _ _ := id
  lt _ _ _ _ := id

end Laid

theorem Tiles.laid {offset : Nat} {ts : List Token} {cs : List Char} (h : Tiles offset ts cs) :
    Laid ts := by
  obtain ⟨body, trivia, rfl, hkinds⟩ := h.exists_eof
  refine ⟨⟨h.pairwise, fun t ht => ?_⟩, ⟨_, List.getLast?_concat, rfl⟩, fun t ht heof => ?_⟩
  · rw [List.dropLast_concat] at ht
    exact ⟨hkinds t ht, h.start_lt_stop (List.mem_append_left _ ht) (hkinds t ht)⟩
  · rcases List.mem_append.mp ht with ht | ht
    · exact absurd heof (hkinds t ht)
    · rw [List.mem_singleton.mp ht]
      rfl

/-- The kinds of the tokens of a text. -/
def Token.kindsOf (text : String) : List TokenKind := (lexToEnd text).map (·.kind)

theorem Token.laid_lexToEnd (source : String) : Laid (lexToEnd source) := (tiles_lexToEnd source).laid

namespace Cursor

variable {s t : Cursor} {text : String}

/-- The cursor stands before tokens of the text. -/
def LexedFrom (text : String) (s : Cursor) : Prop := s.tokens <:+ Token.lexToEnd text

/-- The cursor stands before tokens of some text. -/
def Lexed (s : Cursor) : Prop := ∃ text, s.LexedFrom text

theorem LexedFrom.lexed (h : s.LexedFrom text) : s.Lexed := ⟨text, h⟩

theorem Lexed.endsInEof (h : s.Lexed) : EndsInEof s.tokens := by
  obtain ⟨text, hsuffix⟩ := h
  exact (Token.laid_lexToEnd text).ends.of_suffix hsuffix s.tokens_ne_nil

theorem Lexed.ordered (h : s.Lexed) : Ordered s.tokens := by
  obtain ⟨text, hsuffix⟩ := h
  exact (Token.laid_lexToEnd text).ordered.of_suffix hsuffix

/-- The whole text is to be read at its start. -/
theorem lexedFrom_ofTokens (text : String) : (ofTokens (Token.lexToEnd text)).LexedFrom text := by
  simp only [LexedFrom, tokens_ofTokens (Token.laid_lexToEnd text).ends, List.suffix_rfl]

theorem Reaches.lexedFrom (h : s.Reaches t) (hs : s.LexedFrom text) : t.LexedFrom text :=
  h.suffix.trans hs

theorem Reaches.lexed (h : s.Reaches t) (hs : s.Lexed) : t.Lexed := by
  obtain ⟨text, hsuffix⟩ := hs
  exact ⟨text, h.lexedFrom hsuffix⟩

end Cursor

/-! ## Numbers -/

namespace Token

/-- The token of the kind at the index, with the numbers of its boundaries for offsets. -/
def ofIndex (i : Nat) (kind : TokenKind) : Token :=
  ⟨kind, ⟨2 * i, if kind.isEof then 2 * i else 2 * i + 1⟩, []⟩

/-- The tokens of the kinds, with the numbers of their boundaries for offsets. -/
def numbered (kinds : List TokenKind) : List Token := kinds.mapIdx ofIndex

/-- The offset of the boundary with the number. -/
def boundary (ts : List Token) (n : Nat) : Nat :=
  match ts[n / 2]? with
  | some t => if n % 2 = 0 then t.span.start else t.span.stop
  | none => (ts.getLast?.map (·.span.stop)).getD 0

variable {ts : List Token} {i : Nat}

theorem stop_ofIndex_eof (i : Nat) : (ofIndex i .eof).span.stop = 2 * i := rfl

theorem stop_ofIndex {kind : TokenKind} (h : kind ≠ .eof) (i : Nat) :
    (ofIndex i kind).span.stop = 2 * i + 1 := by
  rw [ofIndex, TokenKind.isEof_eq_false h]
  rfl

theorem boundary_start (hi : i < ts.length) : boundary ts (2 * i) = ts[i].span.start := by
  rw [boundary, Nat.mul_div_cancel_left i Nat.two_pos, List.getElem?_eq_getElem hi]
  exact if_pos (Nat.mul_mod_right 2 i)

theorem boundary_stop (hi : i < ts.length) : boundary ts (2 * i + 1) = ts[i].span.stop := by
  have hdiv : (2 * i + 1) / 2 = i := by omega
  rw [boundary, hdiv, List.getElem?_eq_getElem hi]
  exact if_neg (by omega)

theorem boundary_of_length_le (hi : ts.length ≤ i) (b : Nat) :
    boundary ts (2 * i + b) = (ts.getLast?.map (·.span.stop)).getD 0 := by
  rw [boundary, List.getElem?_eq_none (by omega)]

theorem length_numbered (kinds : List TokenKind) : (numbered kinds).length = kinds.length :=
  List.length_mapIdx

theorem numbered_concat (kinds : List TokenKind) (kind : TokenKind) :
    numbered (kinds ++ [kind]) = numbered kinds ++ [ofIndex kinds.length kind] :=
  List.mapIdx_concat

theorem mem_numbered {kinds : List TokenKind} {t : Token} :
    t ∈ numbered kinds ↔ ∃ (i : Nat) (hi : i < kinds.length), ofIndex i kinds[i] = t :=
  List.mem_mapIdx

end Token

namespace Laid

variable {ts : List Token} {i j : Nat}

theorem apart (h : Laid ts) (hij : i < j) (hj : j < ts.length) :
    ts[i].span.stop ≤ ts[j].span.start :=
  List.pairwise_iff_getElem.mp h.ordered.apart i j (Nat.lt_trans hij hj) hj hij

theorem not_eof (h : Laid ts) (hi : i + 1 < ts.length) : ts[i].kind ≠ .eof := by
  have hi' : i < ts.dropLast.length := by
    rw [List.length_dropLast]
    omega
  rw [← List.getElem_dropLast]
  exact (h.ordered.filled _ (List.getElem_mem hi')).1

theorem start_le (h : Laid ts) (hij : i ≤ j) (hj : j < ts.length) :
    ts[i].span.start ≤ ts[j].span.start := by
  rcases Nat.eq_or_lt_of_le hij with rfl | hij
  · exact Nat.le_refl _
  · exact Nat.le_trans (h.valid (List.getElem_mem _)) (h.apart hij hj)

theorem start_lt (h : Laid ts) (hij : i < j) (hj : j < ts.length) :
    ts[i].span.start < ts[j].span.start :=
  Nat.lt_of_lt_of_le (h.filled (List.getElem_mem _) (h.not_eof (by omega))) (h.apart hij hj)

theorem boundary_le_succ (h : Laid ts) (n : Nat) :
    Token.boundary ts n ≤ Token.boundary ts (n + 1) := by
  obtain ⟨i, rfl | rfl⟩ : ∃ i, n = 2 * i ∨ n = 2 * i + 1 := ⟨n / 2, by omega⟩
  · rcases Nat.lt_or_ge i ts.length with hi | hi
    · rw [Token.boundary_start hi, Token.boundary_stop hi]
      exact h.valid (List.getElem_mem hi)
    · rw [Token.boundary_of_length_le hi 1, ← Token.boundary_of_length_le hi 0]
      exact Nat.le_refl _
  · rcases Nat.lt_trichotomy (i + 1) ts.length with hi | hi | hi
    · rw [Token.boundary_stop (by omega)]
      show _ ≤ Token.boundary ts (2 * (i + 1))
      rw [Token.boundary_start hi]
      exact h.apart (Nat.lt_succ_self i) hi
    · rw [Token.boundary_stop (by omega)]
      show _ ≤ Token.boundary ts (2 * (i + 1) + 0)
      rw [Token.boundary_of_length_le (Nat.le_of_eq hi.symm), List.getLast?_eq_getElem?,
        show ts.length - 1 = i by omega, List.getElem?_eq_getElem (by omega)]
      exact Nat.le_refl _
    · rw [Token.boundary_of_length_le (by omega)]
      exact Nat.le_of_eq (Token.boundary_of_length_le (i := i + 1) (by omega) 0).symm

/-- Boundaries with larger numbers are not further left. -/
theorem boundary_mono (h : Laid ts) {x y : Nat} (hle : x ≤ y) :
    Token.boundary ts x ≤ Token.boundary ts y := by
  induction hle with
  | refl => exact Nat.le_refl _
  | step _ ih => exact Nat.le_trans ih (h.boundary_le_succ _)

theorem numbered (h : Laid ts) : Laid (Token.numbered (ts.map (·.kind))) := by
  have hstop (i : Nat) (hi : i + 1 < ts.length) :
      (Token.ofIndex i ts[i].kind).span.stop = 2 * i + 1 := Token.stop_ofIndex (h.not_eof hi) i
  refine ⟨⟨List.pairwise_iff_getElem.mpr fun i j hi hj hij => ?_, fun t ht => ?_⟩, ?_, fun t ht heof => ?_⟩
  · rw [Token.length_numbered, List.length_map] at hj
    simp only [Token.numbered, List.getElem_mapIdx, List.getElem_map]
    rw [hstop i (by omega)]
    show 2 * i + 1 ≤ 2 * j
    omega
  · obtain ⟨i, hi, rfl⟩ := List.mem_iff_getElem.mp ht
    rw [List.length_dropLast, Token.length_numbered, List.length_map] at hi
    simp only [Token.numbered, List.getElem_dropLast, List.getElem_mapIdx, List.getElem_map]
    rw [hstop i (by omega)]
    exact ⟨h.not_eof (by omega), Nat.lt_succ_self _⟩
  · obtain ⟨last, hlast, heof⟩ := h.ends
    obtain ⟨body, rfl⟩ := List.getLast?_eq_some_iff.mp hlast
    rw [List.map_append]
    exact ⟨_, (congrArg List.getLast? (Token.numbered_concat _ _)).trans List.getLast?_concat, heof⟩
  · obtain ⟨i, hi, rfl⟩ := Token.mem_numbered.1 ht
    exact (if_pos (congrArg TokenKind.isEof heof)).symm

/-- The tokens are the numbered ones in another layout. -/
def ofNumbers (h : Laid ts) : Layout (Token.numbered (ts.map (·.kind))) where
  offset := Token.boundary ts
  trivia t := (ts[t.span.start / 2]?.map (·.trivia)).getD []
  ordered := h.numbered.ordered
  valid _ ht := h.numbered.valid ht
  mono _ _ := h.boundary_mono
  lt t ht u hu hlt := by
    obtain ⟨i, hi, rfl⟩ := Token.mem_numbered.1 ht
    obtain ⟨j, hj, rfl⟩ := Token.mem_numbered.1 hu
    rw [List.length_map] at hi hj
    rw [List.getElem_map] at hlt ⊢
    rw [List.getElem_map] at hlt ⊢
    show Token.boundary ts (2 * i) < _
    have hlt : 2 * i < (Token.ofIndex j ts[j].kind).span.stop := hlt
    rw [Token.boundary_start hi]
    by_cases heof : ts[j].kind = .eof
    · rw [heof, Token.stop_ofIndex_eof] at hlt ⊢
      rw [Token.boundary_start hj]
      exact h.start_lt (by omega) hj
    · rw [Token.stop_ofIndex heof] at hlt ⊢
      rw [Token.boundary_stop hj]
      exact Nat.lt_of_le_of_lt (h.start_le (by omega) hj) (h.filled (List.getElem_mem hj) heof)

theorem map_ofNumbers (h : Laid ts) :
    (Token.numbered (ts.map (·.kind))).map h.ofNumbers.token = ts := by
  refine List.ext_getElem (by rw [List.length_map, Token.length_numbered, List.length_map]) ?_
  intro i _ hi
  simp only [Token.numbered, List.getElem_mapIdx, List.getElem_map]
  have hstart : Token.boundary ts (2 * i) = ts[i].span.start := Token.boundary_start hi
  have hstop : Token.boundary ts (Token.ofIndex i ts[i].kind).span.stop = ts[i].span.stop := by
    by_cases heof : ts[i].kind = .eof
    · rw [heof, Token.stop_ofIndex_eof, hstart]
      exact h.eof _ (List.getElem_mem hi) heof
    · rw [Token.stop_ofIndex heof, Token.boundary_stop hi]
  have htrivia : h.ofNumbers.trivia (Token.ofIndex i ts[i].kind) = ts[i].trivia := by
    show (ts[2 * i / 2]?.map (·.trivia)).getD [] = _
    rw [Nat.mul_div_cancel_left i Nat.two_pos, List.getElem?_eq_getElem hi]
    rfl
  show Token.mk ts[i].kind ⟨Token.boundary ts (2 * i), Token.boundary ts _⟩ _ = _
  rw [hstart, hstop, htrivia]

end Laid

end SettingsLint
