import Mathlib.Data.List.Forall2
import SettingsLint.Proofs.Reading.Progress
import SettingsLint.Proofs.Reading.Correspondence

/-! # Reading the same tokens again

A reader that gets through some tokens without an error does the same wherever the
tokens stand, and whatever comes after them, as long as the few tokens that it looks at
beyond its end are of the same kinds.

Two cursors are *twins* (`Twin v v'`) if the tokens before the ends `v` and `v'` are
of the same kinds. A reader *replays* (`Replays v v'`) if from twins it goes on to twins,
with results that are the same apart from places. The ends are the same for all parts of
a reader, so a sequence replays if its parts do; before ends that agree this is left to
class resolution.
-/

namespace SettingsLint

open Read
open Correspondence (erasing)

/-! ## Tokens -/

/-- The tokens are of the same kind. -/
abbrev Token.Twin (t t' : Token) : Prop := t'.kind = t.kind

/-- How many of the tokens at the start of the list a reader that ends there may have
    looked at. After a comma or a closing bracket nothing is read on. -/
def lookahead : List Token → Nat
  | [] => 0
  | t :: rest =>
    if t.kind = .comma ∨ t.kind = .rightBracket ∨ t.kind = .rightParen then 1
    else if rest.head?.map (·.kind) = some .greater then 3
    else 2

/-- The kind at a place of the list, or of the last token if the list is shorter. -/
def kindAt (kinds : List TokenKind) (n : Nat) : TokenKind :=
  kinds[n]?.getD (kinds.getLastD .eof)

/-- Lists that start with the same kinds have the same kind at every place that far. -/
theorem kindAt_eq_of_take_eq {ks ks' : List TokenKind} {m n : Nat} (h : ks'.take m = ks.take m)
    (hn : n < m) : kindAt ks' n = kindAt ks n := by
  by_cases hlen : n < ks.length
  · have hget : ks'[n]? = ks[n]? := by
      rw [← List.getElem?_take_of_lt hn, h, List.getElem?_take_of_lt hn]
    have hsome : ∃ k, ks[n]? = some k := ⟨_, List.getElem?_eq_getElem hlen⟩
    obtain ⟨k, hk⟩ := hsome
    simp [kindAt, hget, hk]
  · -- The shorter list ends before `n`, so the other one is the same list.
    have hshort : ks.length ≤ m := by omega
    have hlen' := congrArg List.length h
    simp only [List.length_take] at hlen'
    have hks' : ks' = ks := by
      rw [← List.take_of_length_le hshort, ← h, List.take_of_length_le (by omega)]
    rw [hks']

theorem Cursor.peek_eq (s : Cursor) (n : Nat) :
    s.peek n = kindAt (s.tokens.map (·.kind)) n := by
  have hlast : (s.tokens.map (·.kind)).getLastD .eof = (s.ahead.getLastD s.current).kind := by
    simp only [Cursor.tokens, List.map_cons, List.getLastD_cons]
    rw [List.getLastD_eq_getLast?, List.getLastD_eq_getLast?, List.getLast?_map]
    cases s.ahead.getLast? <;> rfl
  unfold Cursor.peek kindAt
  rw [hlast, List.getElem?_map]
  cases s.tokens[n]? <;> rfl

/-! ## Ends -/

/-- Two lists of tokens up to the end of the source. -/
class Ends (v v' : List Token) : Prop where
  ends : EndsInEof v
  ends' : EndsInEof v'

/-- The ends agree as far as any reader looks. -/
class Agree (v v' : List Token) : Prop extends Ends v v' where
  kinds : (v'.take (lookahead v)).map (·.kind) = (v.take (lookahead v)).map (·.kind)

/-! ## Twins -/

/-- The cursors stand before the ends `v` and `v'` with the same tokens in between. -/
structure Twin (v v' : List Token) (s s' : Cursor) : Prop where
  split : ∃ u u', s.tokens = u ++ v ∧ s'.tokens = u' ++ v' ∧ List.Forall₂ (Token.Twin) u u'
  depth : s'.depth = s.depth
  clean : s.errors = []
  clean' : s'.errors = []

variable {u u' v v' : List Token} {s s' : Cursor}

namespace Twin

theorem kinds_eq (h : List.Forall₂ (Token.Twin) u u') :
    u'.map (·.kind) = u.map (·.kind) := by
  induction h with
  | nil => rfl
  | cons h _ ih =>
    rw [List.map_cons, ih]
    exact congrArg (· :: _) h

theorem of_kinds_eq (h : u'.map (·.kind) = u.map (·.kind)) :
    List.Forall₂ (Token.Twin) u u' := by
  induction u generalizing u' with
  | nil =>
    rw [List.map_nil, List.map_eq_nil_iff] at h
    subst h
    exact .nil
  | cons t u ih =>
    cases u' with
    | nil => simp at h
    | cons t' u' =>
      simp only [List.map_cons, List.cons.injEq] at h
      exact .cons h.1 (ih h.2)

/-- Between twins nothing but the tokens after the ends makes a difference in size. -/
theorem length_eq (h : Twin v v' s s') :
    s'.tokens.length + v.length = s.tokens.length + v'.length := by
  obtain ⟨u, u', hs, hs', hu⟩ := h.split
  have := hu.length_eq
  rw [hs, hs', List.length_append, List.length_append]
  omega

theorem suffix (h : Twin v v' s s') : v <:+ s.tokens := by
  obtain ⟨u, u', hs, -⟩ := h.split
  exact ⟨u, hs.symm⟩

/-- From twins as many tokens have been read on one side as on the other. -/
theorem size_lt_iff {t t' : Cursor} (h : Twin v v' s s') (g : Twin v v' t t') :
    t'.size < s'.size ↔ t.size < s.size := by
  have hs := h.length_eq
  have ht := g.length_eq
  simp only [Cursor.tokens, List.length_cons] at hs ht
  simp only [Cursor.size]
  omega

theorem take_kinds [hv : Agree v v']
    (hu : List.Forall₂ (Token.Twin) u u') :
    ((u' ++ v').map (·.kind)).take (u.length + lookahead v)
      = ((u ++ v).map (·.kind)).take (u.length + lookahead v) := by
  have hk := kinds_eq hu
  have hv := hv.kinds
  simp only [List.map_append, List.map_take] at *
  rw [hk, List.take_append, List.take_append]
  simp only [List.length_map, Nat.add_sub_cancel_left]
  rw [hv]

/-- Twins see the same kinds as far as the lookahead goes. -/
theorem peek_eq (h : Twin v v' s s') [Agree v v'] {n : Nat}
    (hn : ∀ u, s.tokens = u ++ v → n < u.length + lookahead v) : s'.peek n = s.peek n := by
  obtain ⟨u, u', hs, hs', hu⟩ := h.split
  rw [Cursor.peek_eq, Cursor.peek_eq, hs, hs']
  exact kindAt_eq_of_take_eq (take_kinds hu) (hn u hs)

end Twin

theorem lookahead_pos {v : List Token} (h : v ≠ []) : 0 < lookahead v := by
  cases v with
  | nil => exact absurd rfl h
  | cons t rest =>
    simp only [lookahead]
    split
    · decide
    · split <;> decide

namespace Twin

theorem peek_zero (s : Cursor) : s.peek 0 = s.kind := by
  simp [Cursor.peek, Cursor.tokens, Cursor.kind]

theorem kind (h : Twin v v' s s') [hv : Agree v v'] : s'.kind = s.kind := by
  exact h.peek_eq fun u _ => Nat.lt_add_left _ (lookahead_pos hv.ends.ne_nil)

/-- Before the end the kinds are the same whatever comes after it. -/
theorem kind_of_ne (h : Twin v v' s s') (hs : s.tokens ≠ v) : s'.kind = s.kind := by
  obtain ⟨u, u', hu, hu', htwin⟩ := h.split
  cases htwin with
  | nil => exact absurd hu hs
  | cons ht _ =>
    simp only [Cursor.tokens, List.cons_append, List.cons.injEq] at hu hu'
    rw [Cursor.kind, Cursor.kind, hu.1, hu'.1]
    exact ht

/-- The next kind but one is the same, too, unless an argument or a list ends. -/
theorem peek_one (h : Twin v v' s s') [hv : Agree v v'] (h1 : s.kind ≠ .comma)
    (h2 : s.kind ≠ .rightBracket) (h3 : s.kind ≠ .rightParen) : s'.peek 1 = s.peek 1 := by
  refine h.peek_eq fun u hu => ?_
  have hpos := lookahead_pos hv.ends.ne_nil
  cases u with
  | cons t u => simp only [List.length_cons]; omega
  | nil =>
    obtain ⟨t, rest, rfl⟩ := List.exists_cons_of_ne_nil hv.ends.ne_nil
    have hkind : s.kind = t.kind := by
      have := congrArg List.head? hu
      simp only [Cursor.tokens, List.head?_cons, List.nil_append, Option.some.injEq] at this
      simp [Cursor.kind, this]
    rw [hkind] at h1 h2 h3
    simp only [lookahead, h1, h2, h3, or_self, if_false]
    split <;> decide

/-- The token after a name is the same for both. -/
theorem peek_one_of_name (h : Twin v v' s s') [Agree v v'] (hk : s.kind.name?.isSome = true) :
    s'.peek 1 = s.peek 1 := by
  refine h.peek_one ?_ ?_ ?_ <;> intro hkind <;> simp [hkind, TokenKind.name?] at hk

end Twin

section

variable [hv : Ends v v']

include hv

theorem Twin.endsInEof (h : Twin v v' s s') : EndsInEof s.tokens := by
  obtain ⟨u, -, hu, -⟩ := h.split
  exact hu ▸ hv.ends.append u

theorem Twin.endsInEof' (h : Twin v v' s s') : EndsInEof s'.tokens := by
  obtain ⟨-, u', -, hu', -⟩ := h.split
  exact hu' ▸ hv.ends'.append u'

/-- Twins that are not at their ends take a step each. -/
theorem Twin.advance (h : Twin v v' s s') (hk : s.kind ≠ .eof) (hend : v <:+ s.ahead) :
    Twin v v' (advance s).2 (advance s').2 := by
  obtain ⟨u, u', hs, hs', hu⟩ := h.split
  cases hu with
  | nil =>
    have := hend.length_le
    rw [List.nil_append] at hs
    rw [← hs, Cursor.tokens] at this
    simp only [List.length_cons] at this
    omega
  | @cons t t' w w' ht hw =>
    simp only [Cursor.tokens, List.cons_append, List.cons.injEq] at hs hs'
    have hk' : s'.kind ≠ .eof := by
      rw [Cursor.kind, hs.1] at hk
      rw [Cursor.kind, hs'.1]
      exact ht.symm ▸ hk
    obtain ⟨x, rest, hx⟩ := List.exists_cons_of_ne_nil (hv.ends.append w).ne_nil
    obtain ⟨x', rest', hx'⟩ := List.exists_cons_of_ne_nil (hv.ends'.append w').ne_nil
    rw [advance_eq hk (hs.2.trans hx), advance_eq hk' (hs'.2.trans hx')]
    exact ⟨⟨w, w', hx.symm, hx'.symm, hw⟩, h.depth, h.clean, h.clean'⟩

end

/-- Cursors that are twins. -/
structure Twins (v v' : List Token) where
  left : Cursor
  right : Cursor
  twin : Twin v v' left right

/-! ## Replaying -/

/-- If the reader `r` gets from `s` to a place before the end `v` without an error, then
    `r'` gets from the twin `s'` to a twin of that place, with a result that is alike. -/
class Replays [Placed α] (v v' : List Token) (r r' : Read α) (s s' : Cursor) : Prop where
  replays : Twin v v' s s' → v <:+ (r s).2.tokens → (r s).2.errors = [] →
    Twin v v' (r s).2 (r' s').2 ∧ Alike (r s).1 (r' s').1

namespace Replays

section

variable [Placed α] [Placed β]

theorem pure {a a' : α} (h : Alike a a') : Replays v v' (pure a : Read α) (pure a') s s' :=
  ⟨fun twin _ _ => ⟨twin, h⟩⟩

instance {a a' : α} [h : Alike a a'] : Replays v v' (Pure.pure a : Read α) (Pure.pure a') s s' := .pure h

/-- Facts about the twins may be used to show that a reader replays. -/
theorem of_twin {r r' : Read α} (h : Twin v v' s s' → Replays v v' r r' s s') :
    Replays v v' r r' s s' := ⟨fun twin => (h twin).replays twin⟩

/-- Only what the readers do at the twins matters. -/
theorem congr {r r' p q : Read α} (h : r s = p s) (h' : r' s' = q s')
    (g : Replays v v' p q s s') : Replays v v' r r' s s' := ⟨by rw [h, h']; exact g.replays⟩

/-- The parts of a sequence are replayed one after the other. -/
theorem bindAt {r r' : Read α} {f f' : α → Read β} (h : Replays v v' r r' s s')
    (g : Alike (r s).1 (r' s').1 → Replays v v' (f (r s).1) (f' (r' s').1) (r s).2 (r' s').2)
    [hf : ∀ a, Forward (f a)] : Replays v v' (r >>= f) (r' >>= f') s s' := by
  refine ⟨fun twin hend hclean => ?_⟩
  have hreach := (hf (r s).1).reaches (r s).2
  obtain ⟨twin', like⟩ := h.replays twin (hend.trans hreach.suffix) (hreach.clean hclean)
  exact (g like).replays twin' hend hclean

theorem bind {r r' : Read α} {f f' : α → Read β} (hf : ∀ a, Forward (f a))
    (h : Replays v v' r r' s s') (g : ∀ a a' t t', Alike a a' → Replays v v' (f a) (f' a') t t') :
    Replays v v' (r >>= f) (r' >>= f') s s' := bindAt h (g _ _ _ _)

instance {r r' : Read α} {f f' : α → Read β} [h : Replays v v' r r' s s'] [hf : ∀ a, Forward (f a)]
    [g : ∀ (x : erasing.Pair α) t t', Replays v v' (f x.left) (f' x.right) t t'] :
    Replays v v' (r >>= f) (r' >>= f') s s' := .bind hf h fun a a' t t' like => g ⟨a, a', like⟩ t t'

theorem getAt {f f' : Cursor → Read β} (h : Twin v v' s s' → Replays v v' (f s) (f' s') s s') :
    Replays v v' (get >>= f) (get >>= f') s s' := ⟨fun twin => (h twin).replays twin⟩

theorem get {f f' : Cursor → Read β} (h : ∀ x : Twins v v', Replays v v' (f x.left) (f' x.right) x.left x.right) :
    Replays v v' (get >>= f) (get >>= f') s s' := getAt fun twin => h ⟨s, s', twin⟩

instance {f f' : Cursor → Read β} [h : ∀ x : Twins v v', Replays v v' (f x.left) (f' x.right) x.left x.right] :
    Replays v v' (MonadState.get >>= f) (MonadState.get >>= f') s s' := .get h

instance {r r' : Read α} {f f' : α → β} [h : Replays v v' r r' s s']
    [g : ∀ x : erasing.Pair α, Alike (f x.left) (f' x.right)] : Replays v v' (f <$> r) (f' <$> r') s s' :=
  ⟨fun twin hend hclean => (h.replays twin hend hclean).imp_right fun like => g ⟨_, _, like⟩⟩

theorem ite {c d : Prop} [Decidable c] [Decidable d] {r r' q q' : Read α} (hc : d ↔ c)
    (h : c → Replays v v' r r' s s') (g : ¬c → Replays v v' q q' s s') :
    Replays v v' (if c then r else q) (if d then r' else q') s s' := by
  by_cases hcase : c
  · rw [if_pos hcase, if_pos (hc.mpr hcase)]
    exact h hcase
  · rw [if_neg hcase, if_neg fun hd => hcase (hc.mp hd)]
    exact g hcase

instance {c c' : Prop} [Decidable c] [Decidable c'] {r r' q q' : Read α} [hc : erasing.Keeps c c']
    [hr : Replays v v' r r' s s'] [hq : Replays v v' q q' s s'] :
    Replays v v' (if c then r else q) (if c' then r' else q') s s' := .ite hc.iff (fun _ => hr) fun _ => hq

/-- A reader that reports an error has nothing to replay. -/
theorem of_fault {r r' : Read α} (h : (r s).2.errors ≠ []) : Replays v v' r r' s s' :=
  ⟨fun _ _ hclean => absurd hclean h⟩

instance (priority := 2000) {what : String} {f : Unit → Read α} {r' : Read α} [∀ a, Forward (f a)] :
    Replays v v' (expected what >>= f) r' s s' := of_fault (errors_ne_nil_of_report _ _)

instance {instead r' : Read α} [Forward instead] : Replays v v' (refuse instead) r' s s' :=
  of_fault (refuse_ne_clean instead s)

instance : Replays v v' span span s s' := ⟨fun twin _ _ => ⟨twin, inferInstance⟩⟩

instance (first first' : Span) : Replays v v' (spanFrom first) (spanFrom first') s s' :=
  ⟨fun twin _ _ => ⟨twin, inferInstance⟩⟩

end

/-! ### Loops and nesting -/

section

variable [Placed α]

/-- A loop replays if its rounds do. A round that goes on may use that the rounds after it
    stay before the end, and report nothing. -/
theorem gather_of {step step' : Read (Option α × Bool)} [hf : Forward step]
    (h : ∀ s s', ((step s).1.2 = true → (step s).2.size < s.size →
      v <:+ (gather step (step s).2).2.tokens ∧
        (gather step (step s).2).2.errors = []) → Replays v v' step step' s s')
    (s s' : Cursor) : Replays v v' (gather step) (gather step') s s' := by
  induction hn : s.size using Nat.strongRecOn generalizing s s' with
  | _ n ih =>
    refine ⟨fun twin hend hclean => ?_⟩
    have hround : Replays v v' step step' s s' := by
      refine h s s' fun again hlt => ?_
      rw [gather_eq, if_pos (by simpa using ⟨again, hlt⟩)] at hend hclean
      exact ⟨hend, hclean⟩
    refine (congr (gather_eq_bind ..) (gather_eq_bind ..) (hround.bindAt fun like => .getAt fun twin' =>
      .ite ?_ (fun hgo => ?_) fun _ => ?_)).replays twin hend hclean
    · rw [show (step' s').1.2 = (step s).1.2 from like.pair.2.same, Bool.and_eq_true, Bool.and_eq_true,
        decide_eq_true_eq, decide_eq_true_eq, twin.size_lt_iff twin']
    · exact (ih _ (hn ▸ of_decide_eq_true (Bool.and_eq_true_iff.mp hgo).2) _ _ rfl).bindAt fun likes =>
        .pure (like.pair.1.toList.append likes)
    · exact .pure like.pair.1.toList

instance {step step' : Read (Option α × Bool)} [Forward step]
    [h : ∀ s s', Replays v v' step step' s s'] : Replays v v' (gather step) (gather step') s s' :=
  gather_of (fun s s' _ => h s s') s s'

/-- If every round takes a token, a round that goes on does not reach the end. -/
theorem gather_of_takes {step step' : Read (Option α × Bool)} [hf : Forward step]
    [hv : Ends v v'] (htakes : Takes step)
    (h : ∀ s s', ((step s).1.2 = true → (step s).2.tokens ≠ v) → Replays v v' step step' s s')
    (s s' : Cursor) : Replays v v' (gather step) (gather step') s s' := by
  refine gather_of (fun s s' hrest => ⟨fun twin hend hclean => ?_⟩) s s'
  have hlt := htakes s twin.endsInEof hclean
  refine (h s s' fun again hs => ?_).replays twin hend hclean
  obtain ⟨hend', hclean'⟩ := hrest again hlt
  have := htakes.gather (step s).2 (hs ▸ hv.ends) hclean'
  have hle := hend'.length_le
  rw [← hs] at hle
  simp only [Cursor.tokens, List.length_cons, Cursor.size] at this hle
  omega

instance {goOn goOn' : Cursor → Bool} {step step' : Read (Option α)} [Forward step]
    [∀ s s', Replays v v' step step' s s'] [∀ x : Twins v v', Alike (goOn x.left) (goOn' x.right)] :
    Replays v v' (gatherWhile goOn step) (gatherWhile goOn' step') s s' := by
  unfold gatherWhile
  infer_instance

theorem whileDo {goOn goOn' : Cursor → Bool} {step step' : Read Unit} [Forward step]
    (hgo : ∀ x : Twins v v', Alike (goOn x.left) (goOn' x.right))
    (h : ∀ s s', goOn s = true → Replays v v' step step' s s') (s s' : Cursor) :
    Replays v v' (Read.whileDo goOn step) (Read.whileDo goOn' step') s s' := by
  induction hn : s.size using Nat.strongRecOn generalizing s s' with
  | _ n ih =>
    refine of_twin fun twin => congr (whileDo_eq_bind ..) (whileDo_eq_bind ..) (.ite ?_ (fun hgoes => ?_)
      fun _ => inferInstance)
    · rw [show goOn' s' = goOn s from (hgo ⟨s, s', twin⟩).same]
    · exact .bind inferInstance (h s s' hgoes) fun _ _ t t' _ => .getAt fun twin' =>
        .ite (twin.size_lt_iff twin') (fun hlt => ih _ (hn ▸ hlt) _ _ rfl) fun _ => inferInstance

instance {goOn goOn' : Cursor → Bool} {step step' : Read Unit} [Forward step]
    [h : ∀ s s', Replays v v' step step' s s'] [hgo : ∀ x : Twins v v', Alike (goOn x.left) (goOn' x.right)] :
    Replays v v' (Read.whileDo goOn step) (Read.whileDo goOn' step') s s' := .whileDo hgo (fun s s' _ => h s s') s s'

instance {body body' instead instead' : Read α} [Forward instead]
    [h : ∀ s s', Replays v v' body body' s s'] :
    Replays v v' (nested body instead) (nested body' instead') s s' := by
  refine ⟨fun twin hend hclean => ?_⟩
  rcases Nat.lt_or_ge s.depth maxNesting with shallow | deep
  · have shallow' : s'.depth < maxNesting := twin.depth ▸ shallow
    rw [nested_of_lt shallow] at hend hclean ⊢
    rw [nested_of_lt shallow']
    have inner : Twin v v' { s with depth := s.depth + 1 } { s' with depth := s'.depth + 1 } :=
      ⟨twin.split, by rw [twin.depth], twin.clean, twin.clean'⟩
    obtain ⟨twin', like⟩ := (h _ _).replays inner hend hclean
    exact ⟨⟨twin'.split, by rw [twin'.depth], twin'.clean, twin'.clean'⟩, like⟩
  · rw [nested_of_le deep] at hclean
    exact absurd hclean (refuse_ne_clean instead s)

end

/-! ### Single tokens -/

section

variable [Placed α] [hv : Ends v v'] {what : String}

theorem advance_of_ne (hk : s.kind ≠ .eof) : Replays v v' advance advance s s' := by
  refine ⟨fun twin hend _ => ?_⟩
  obtain ⟨t, rest, hs⟩ := List.exists_cons_of_ne_nil (twin.endsInEof.ahead_ne_nil hk)
  refine ⟨twin.advance hk ?_, inferInstance⟩
  rw [advance_eq hk hs] at hend
  rw [hs]
  exact hend

/-- There is nothing to replay for a reader that takes a token at the end. -/
theorem of_takes {r r' : Read α} (hs : s.tokens = v) (h : TakesAt r s) :
    Replays v v' r r' s s' :=
  ⟨fun _ hend hclean => absurd hs (h.tokens_ne (hs ▸ hv.ends) hclean hend)⟩

/-- Nor is there for one that takes a token after the end has been reached. -/
theorem of_takes_after {r : Read β} {f : β → Read α} {r' : Read α} (hs : (r s).2.tokens = v)
    (h : ∀ a, Takes (f a)) : Replays v v' (r >>= f) r' s s' :=
  ⟨fun _ hend hclean => absurd hs ((h _ (r s).2).tokens_ne (hs ▸ hv.ends) hclean hend)⟩

omit hv in
/-- If only the first twin goes into a branch, there is nothing to replay. -/
theorem ite_of {c d : Prop} [Decidable c] [Decidable d] {r r' q q' : Read α} (hd : d → c)
    (hfail : c → ¬d → ∀ x, Replays v v' r x s s') (h : c → Replays v v' r r' s s')
    (g : ¬c → Replays v v' q q' s s') :
    Replays v v' (if c then r else q) (if d then r' else q') s s' := by
  by_cases hc : c ∧ ¬d
  · rw [if_pos hc.1]
    exact hfail hc.1 hc.2 _
  · exact .ite ⟨hd, fun h => Decidable.not_not.mp fun hn => hc ⟨h, hn⟩⟩ h g

/-- What is expected is there, since nothing is reported. -/
theorem expect_bind {kind : TokenKind} {f f' : Option Span → Read α} (hkind : kind ≠ .eof)
    (h : ∀ place place' t t', Replays v v' (f (some place)) (f' (some place')) t t')
    [hf : ∀ a, Forward (f a)] :
    Replays v v' (expect kind what >>= f) (expect kind what >>= f') s s' := by
  refine of_twin fun twin => ?_
  by_cases hk : s.kind = kind
  · by_cases hs : s.tokens = v
    · exact of_takes hs ((takes_expect what hkind s).bind_of hf)
    · refine congr (p := advance >>= fun place => f (some place))
        (q := advance >>= fun place => f' (some place)) ?_ ?_ ?_
      · rw [bind_apply, expect_of_eq hk]
        rfl
      · rw [bind_apply, expect_of_eq ((twin.kind_of_ne hs).trans hk)]
        rfl
      · exact .bind inferInstance (advance_of_ne (hk ▸ hkind)) fun place place' t t' _ => h place place' t t'
  · refine of_fault ?_
    rw [bind_apply, expect_of_ne hk]
    exact errors_ne_nil_of_report _ _

/-- The name that is expected is there, since nothing is reported. -/
theorem ident_bindAt {f f' : Option Ident → Read α} (hf : ∀ a, Forward (f a))
    (h : ∀ name, s.kind.name? = some name → s.kind ≠ .eof →
      Replays v v' (advance >>= fun place => f (some ⟨name, place⟩))
        (advance >>= fun place => f' (some ⟨name, place⟩)) s s') :
    Replays v v' (ident what >>= f) (ident what >>= f') s s' := by
  refine of_twin fun twin => ?_
  cases hk : s.kind.name? with
  | some name =>
    by_cases hs : s.tokens = v
    · exact of_takes hs ((takes_ident what s).bind_of hf)
    · refine congr ?_ ?_ (h name hk fun heof => by simp [heof, TokenKind.name?] at hk)
      · rw [bind_apply, ident_of_some hk]
        rfl
      · rw [bind_apply, ident_of_some (by rw [twin.kind_of_ne hs, hk])]
        rfl
  | none =>
    refine of_fault ?_
    rw [bind_apply, ident_of_none hk]
    exact errors_ne_nil_of_report _ _

theorem ident_bind {f f' : Option Ident → Read α} (hf : ∀ a, Forward (f a))
    (h : ∀ name name' t t', Alike name name' → Replays v v' (f (some name)) (f' (some name')) t t') :
    Replays v v' (ident what >>= f) (ident what >>= f') s s' :=
  ident_bindAt hf fun _ _ hne => .bind inferInstance (advance_of_ne hne) fun _ _ t t' _ => h _ _ t t' inferInstance

instance : Replays v v' (ident what) (ident what) s s' :=
  (ident_bind inferInstance fun _ _ _ _ _ => inferInstance : Replays v v'
    (ident what >>= Pure.pure) (ident what >>= Pure.pure) s s')

instance : Fact (TokenKind.leftParen ≠ .eof) := ⟨by decide⟩
instance : Fact (TokenKind.rightParen ≠ .eof) := ⟨by decide⟩
instance : Fact (TokenKind.rightBracket ≠ .eof) := ⟨by decide⟩
instance : Fact (TokenKind.greater ≠ .eof) := ⟨by decide⟩
instance : Fact (TokenKind.semicolon ≠ .eof) := ⟨by decide⟩

instance (priority := 2000) {kind : TokenKind} [hk : Fact (kind ≠ .eof)]
    {f f' : Option Span → Read α} [∀ a, Forward (f a)]
    [h : ∀ (place place' : Span) t t', Replays v v' (f (some place)) (f' (some place')) t t'] :
    Replays v v' (expect kind what >>= f) (expect kind what >>= f') s s' := .expect_bind hk.out h

omit hv in
instance (priority := 2000) {a a' : β} {r r' q q' : Read α} [h : Replays v v' q q' s s'] :
    Replays v v' (if (some a).isNone = true then r else q) (if (some a').isNone = true then r' else q') s s' := h

end

end Replays

/-! ## What readers ask -/

section

variable [hv : Agree v v'] (x : Twins v v')

instance : Alike x.left.kind x.right.kind := .of_erased x.twin.kind
instance : Alike x.left.atEnd x.right.atEnd := inferInstanceAs (Alike x.left.kind.isEof x.right.kind.isEof)
instance : Alike x.left.atName x.right.atName :=
  inferInstanceAs (Alike x.left.kind.name?.isSome x.right.kind.name?.isSome)
instance (word : String) : Alike (x.left.atWord word) (x.right.atWord word) :=
  inferInstanceAs (Alike (x.left.kind.isWord word) (x.right.kind.isWord word))
instance : Alike x.left.atArgumentEnd x.right.atArgumentEnd := by
  unfold Cursor.atArgumentEnd
  infer_instance

/-- The token after a name is looked at, too. -/
instance (priority := 2000) (kind : TokenKind) :
    Alike (x.left.atName && decide (x.left.peek 1 = kind)) (x.right.atName && decide (x.right.peek 1 = kind)) := by
  refine .plain ?_
  rw [Cursor.atName, Cursor.atName, x.twin.kind]
  by_cases hk : x.left.kind.name?.isSome = true
  · rw [x.twin.peek_one_of_name hk]
  · simp [hk]

omit hv in
instance (y : Twins v v') : erasing.Keeps (x.left.size = y.left.size) (x.right.size = y.right.size) := by
  have hx := x.twin.length_eq
  have hy := y.twin.length_eq
  simp only [Cursor.tokens, List.length_cons] at hx hy
  refine ⟨?_⟩
  simp only [Cursor.size]
  omega

end

namespace Replays

variable [Agree v v']

instance : Replays v v' Read.kind Read.kind s s' := ⟨fun twin _ _ => ⟨twin, .of_erased twin.kind⟩⟩

instance : Replays v v' advance advance s s' := by
  by_cases hk : s.kind = .eof
  · refine ⟨fun twin _ _ => ?_⟩
    rw [advance_eof hk, advance_eof (twin.kind.trans hk)]
    exact ⟨twin, inferInstance⟩
  · exact advance_of_ne hk

instance (kind : TokenKind) : Replays v v' (eat kind) (eat kind) s s' := by
  unfold eat
  infer_instance

instance (word : String) : Replays v v' (eatWord word) (eatWord word) s s' := by
  unfold eatWord
  infer_instance

end Replays

end SettingsLint
