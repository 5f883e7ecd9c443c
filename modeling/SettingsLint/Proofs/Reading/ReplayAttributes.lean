import SettingsLint.Proofs.Reading.ReplayTypes

/-! # Reading attributes again

The value of an argument ends before a comma or a closing parenthesis. Which of the two
it is makes no difference for the argument, so an argument is read again before either.
-/

set_option synthInstance.maxSize 4096

namespace SettingsLint

open Read
open Correspondence (erasing)

variable {v v' : List Token} {s s' : Cursor}

/-! ## Other ends

A reader that stops before a closing bracket can be replayed up to there, whatever the
end is that all of it is replayed to. -/

theorem forall₂_split {R : α → β → Prop} {xs ys : List α} {zs : List β}
    (h : List.Forall₂ R (xs ++ ys) zs) :
    ∃ xs' ys', zs = xs' ++ ys' ∧ List.Forall₂ R xs xs' ∧ List.Forall₂ R ys ys' := by
  refine ⟨zs.take xs.length, zs.drop xs.length, (List.take_append_drop ..).symm, ?_, ?_⟩
  · simpa using List.forall₂_take xs.length h
  · simpa using List.forall₂_drop xs.length h

namespace Replays

variable [Placed α] [Placed β]

theorem rebase {r r' : Read α} [hr : Forward r] [hv : Ends v v']
    (h : ∀ w w', Agree w w' → Replays w w' r r' s s')
    (hstop : (r s).2.tokens ≠ v) (hlook : lookahead (r s).2.tokens = 1) :
    Replays v v' r r' s s' := by
  refine ⟨fun twin hend hclean => ?_⟩
  obtain ⟨u, u', hs, hs', hu⟩ := twin.split
  obtain ⟨x, hx, -⟩ := (hr.reaches s).read
  obtain ⟨w, hw⟩ := hend
  have hsplit : u = x ++ w := by
    rw [hs, ← hw, ← List.append_assoc] at hx
    exact List.append_cancel_right hx
  subst hsplit
  obtain ⟨x', w', rfl, hx', hw'⟩ := forall₂_split hu
  have agree : Agree (w ++ v) (w' ++ v') := by
    have : Ends (w ++ v) (w' ++ v') := ⟨hv.ends.append w, hv.ends'.append w'⟩
    refine ⟨?_⟩
    rw [hw, hlook]
    cases hw' with
    | nil => exact absurd hw.symm hstop
    | cons ht _ => simpa [← hw] using ht
  have twin' : Twin (w ++ v) (w' ++ v') s s' :=
    ⟨⟨x, x', by rw [hs, List.append_assoc], by rw [hs', List.append_assoc], hx'⟩, twin.depth,
      twin.clean, twin.clean'⟩
  obtain ⟨done, like⟩ := (h _ _ agree).replays twin' (hw ▸ List.suffix_rfl) hclean
  obtain ⟨z, z', hz, hz', hzs⟩ := done.split
  have hnil : z = [] := by
    rw [← hw] at hz
    exact List.self_eq_append_left.mp hz
  subst hnil
  cases hzs
  exact ⟨⟨⟨w, w', hw.symm, hz', hw'⟩, done.depth, done.clean, done.clean'⟩, like⟩

/-- What comes before an expected closing bracket is replayed up to the bracket. -/
theorem before_expect {r r' : Read α} [hr : Forward r] [hv : Ends v v']
    {kind : TokenKind} {what : String} (hkind : kind = .rightParen ∨ kind = .rightBracket)
    {f f' : α → Option Span → Read β}
    (h : ∀ w w', Agree w w' → Replays w w' r r' s s')
    (g : ∀ a a' t t', Alike a a' →
      Replays v v' (expect kind what >>= f a) (expect kind what >>= f' a') t t')
    [hf : ∀ a o, Forward (f a o)] :
    Replays v v' (r >>= fun a => expect kind what >>= f a)
      (r' >>= fun a => expect kind what >>= f' a) s s' := by
  have heof : kind ≠ .eof := by rcases hkind with rfl | rfl <;> decide
  refine ⟨fun twin hend hclean => ?_⟩
  have hk : (r s).2.kind = kind := by
    by_contra hk
    rw [bind_apply, bind_apply, expect_of_ne hk] at hclean
    exact errors_ne_nil_of_report _ _ hclean
  have hends := (hr.reaches s).endsInEof twin.endsInEof
  refine (bindAt (rebase h ?_ ?_) (g _ _ _ _)).replays twin hend hclean
  · -- The bracket is read after this, so the end is later.
    exact ((takes_expect what heof (r s).2).bind_of (hf (r s).1)).tokens_ne hends hclean hend
  · simp only [Cursor.tokens, lookahead]
    rw [Cursor.kind] at hk
    rcases hkind with rfl | rfl <;> simp [hk]

end Replays

/-! ## Where a value ends -/

/-- The ends agree, or each starts with a comma or a closing parenthesis. -/
class ValueEnds (v v' : List Token) : Prop extends Ends v v' where
  stops : Agree v v' ∨ ∃ t rest t' rest', v = t :: rest ∧ v' = t' :: rest' ∧
    (t.kind = .comma ∨ t.kind = .rightParen) ∧ (t'.kind = .comma ∨ t'.kind = .rightParen)

instance [hv : Agree v v'] : ValueEnds v v' := ⟨.inl hv⟩

section

variable [hv : ValueEnds v v']

include hv

/-- Whatever does not tell a comma from a closing parenthesis is the same for twins. -/
theorem ValueEnds.kind_map (twin : Twin v v' s s') (f : TokenKind → β)
    (hf : f .comma = f .rightParen) : f s'.kind = f s.kind := by
  rcases hv.stops with agree | ⟨t, rest, t', rest', rfl, rfl, ht, ht'⟩
  · rw [twin.kind]
  · by_cases hs : s.tokens = t :: rest
    · obtain ⟨u, u', hu, hu', htwin⟩ := twin.split
      have hnil : u = [] := List.self_eq_append_left.mp (hs ▸ hu)
      subst hnil
      cases htwin
      rw [Cursor.kind, Cursor.kind, (List.cons.inj hs).1, (List.cons.inj hu').1]
      rcases ht with ht | ht <;> rcases ht' with ht' | ht' <;> simp [ht, ht', hf]
    · rw [twin.kind_of_ne hs]

/-- The same goes for the kind after a name or another token that ends no list. -/
theorem ValueEnds.peek_map (twin : Twin v v' s s') (f : TokenKind → β)
    (hf : f .comma = f .rightParen) (h1 : s.kind ≠ .comma) (h2 : s.kind ≠ .rightBracket)
    (h3 : s.kind ≠ .rightParen) : f (s'.peek 1) = f (s.peek 1) := by
  rcases hv.stops with agree | ⟨t, rest, t', rest', rfl, rfl, ht, ht'⟩
  · rw [twin.peek_one h1 h2 h3]
  · obtain ⟨u, u', hu, hu', htwin⟩ := twin.split
    cases htwin with
    | nil =>
      have : s.kind = t.kind := by rw [Cursor.kind, (List.cons.inj hu).1]
      rcases ht with ht | ht
      · exact absurd (this.trans ht) h1
      · exact absurd (this.trans ht) h3
    | cons _ hw =>
      rw [Cursor.tokens] at hu hu'
      cases hw with
      | nil =>
        have hp : s.peek 1 = t.kind := by simp [Cursor.peek, Cursor.tokens, hu]
        have hp' : s'.peek 1 = t'.kind := by simp [Cursor.peek, Cursor.tokens, hu']
        rw [hp, hp']
        rcases ht with ht | ht <;> rcases ht' with ht' | ht' <;> simp [ht, ht', hf]
      | cons hy _ =>
        have hp : s'.peek 1 = s.peek 1 := by simpa [Cursor.peek, Cursor.tokens, hu, hu'] using hy
        rw [hp]

theorem ValueEnds.atArgumentEnd_eq (twin : Twin v v' s s') : s'.atArgumentEnd = s.atArgumentEnd :=
  hv.kind_map twin (fun k => k = .comma || k = .rightParen || k = .rightBracket || k.isEof) rfl

instance (x : Twins v v') : Alike x.left.atArgumentEnd x.right.atArgumentEnd :=
  .plain (hv.atArgumentEnd_eq x.twin)

/-! ## Arguments -/

namespace Replays

instance : Replays v v' advance advance s s' := by
  by_cases hk : s.kind = .eof
  · refine ⟨fun twin _ _ => ?_⟩
    have hk' : s'.kind.isEof = true := by
      rw [hv.kind_map twin TokenKind.isEof rfl, hk]
      rfl
    have heof : s'.kind = .eof := by cases hs' : s'.kind <;> simp_all [TokenKind.isEof]
    rw [advance_eof hk, advance_eof heof]
    exact ⟨twin, inferInstance⟩
  · exact advance_of_ne hk

instance : Replays v v' skipArgument skipArgument s s' := by
  refine whileDo (fun x => .plain ?_) (fun s _ h => skipGroupOrToken fun heof => ?_) s s'
  · exact hv.kind_map x.twin (fun k => !(k = .comma || k = .rightParen || k = .rightBracket || k.isEof)
      && k ≠ .semicolon && k ≠ .leftBrace && k ≠ .rightBrace) rfl
  · simp [Cursor.atArgumentEnd, Cursor.atEnd, heof, TokenKind.isEof] at h

instance : Replays v v' argumentName argumentName s s' := by
  refine of_twin fun twin => ?_
  have hname := hv.kind_map twin TokenKind.name? rfl
  cases hk : s.kind.name? with
  | none =>
    exact congr (argumentName_of_none (.inl hk))
      (argumentName_of_none (.inl (hname.trans hk))) inferInstance
  | some name =>
    have hne : s.kind ≠ .comma ∧ s.kind ≠ .rightBracket ∧ s.kind ≠ .rightParen := by
      refine ⟨?_, ?_, ?_⟩ <;> intro h <;> simp [h, TokenKind.name?] at hk
    have hmark := hv.peek_map twin TokenKind.argumentMark? rfl hne.1 hne.2.1 hne.2.2
    cases hm : (s.peek 1).argumentMark? with
    | none =>
      exact congr (argumentName_of_none (.inr hm))
        (argumentName_of_none (.inr (hmark.trans hm))) inferInstance
    | some mark =>
      exact congr (argumentName_of_some hk hm)
        (argumentName_of_some (hname.trans hk) (hmark.trans hm)) inferInstance

theorem otherValue {first : Span} (h : s.atArgumentEnd = false ∨ s.span = first) (first' : Span) :
    Replays v v' (Read.otherValue first) (Read.otherValue first') s s' := by
  refine .getAt fun twin => ?_
  rw [hv.atArgumentEnd_eq twin]
  cases ha : s.atArgumentEnd with
  | true =>
    rw [if_pos (by simpa [ha] using h)]
    infer_instance
  | false => exact .ite (by simp) (by simp) inferInstance

instance (priority := 2000) (x : Twins v v') (first first' : Span) {r r' : Read Expr}
    [Replays v v' r r' x.left x.right] :
    Replays v v' (if x.left.atArgumentEnd = true then r else Read.otherValue first)
      (if x.right.atArgumentEnd = true then r' else Read.otherValue first') x.left x.right :=
  .ite (by rw [hv.atArgumentEnd_eq x.twin]) inferInstance fun h => otherValue (.inl (Bool.eq_false_iff.mpr h)) _

instance (first first' : Span) : Replays v v' (typeOfValue first) (typeOfValue first') s s' := by
  refine .bind inferInstance inferInstance fun _ _ _ _ _ => .bind inferInstance inferInstance fun _ _ t t' _ => ?_
  exact before_expect (.inl rfl) (fun w w' _ => inferInstance) fun type type' t t' _ => inferInstance

instance (first first' : Span) (kind : LiteralKind) (text : String) :
    Replays v v' (literalValue first kind text) (literalValue first' kind text) s s' := by
  unfold literalValue
  infer_instance

instance : Replays v v' argumentValue argumentValue s s' := by
  refine .getAt fun twin => ?_
  have hliteral : s'.literal? = s.literal? := by
    have hminus := hv.kind_map twin (· = .operator '-') (by simp)
    unfold Cursor.literal?
    by_cases hk : s.kind = .operator '-'
    · rw [if_pos hk, if_pos (hminus.symm ▸ hk), hv.peek_map twin TokenKind.literal? rfl (by simp [hk])
        (by simp [hk]) (by simp [hk])]
    · rw [if_neg hk, if_neg (hminus.symm ▸ hk)]
      exact hv.kind_map twin TokenKind.literal? rfl
  refine .ite ?_ inferInstance fun _ => ?_
  · simp only [Bool.and_eq_true, Cursor.atWord, hv.kind_map twin (·.isWord "typeof") rfl]
    refine and_congr_right fun hk => ?_
    have hne : s.kind ≠ .comma ∧ s.kind ≠ .rightBracket ∧ s.kind ≠ .rightParen := by
      refine ⟨?_, ?_, ?_⟩ <;> intro h <;> simp [h, TokenKind.isWord, TokenKind.name?] at hk
    simpa using hv.peek_map twin (fun k => decide (k = .leftParen)) rfl hne.1 hne.2.1 hne.2.2
  · rw [hliteral]
    split
    · infer_instance
    · exact otherValue (.inr rfl) _

end Replays

end

/-! ## Attribute lists -/

namespace Replays

variable [hv : Agree v v']

instance [Placed α] (closing : TokenKind) {item item' : Read (Option α)} [Forward item]
    [∀ s s', Replays v v' item item' s s'] :
    Replays v v' (listItem closing item) (listItem closing item') s s' :=
  .get fun x => .ite (Correspondence.Keeps.iff erasing) inferInstance fun _ =>
    .bind (fun o => by cases o <;> infer_instance) inferInstance fun _ _ _ _ like =>
      like.option inferInstance fun _ _ _ => inferInstance

instance : Replays v v' argumentList argumentList s s' := by
  have hend (opening : Span) (arguments : List Argument) (o : Option Span) : Forward (match o with
      | some closing => Pure.pure ⟨opening, closing, arguments⟩
      | none => do return ⟨opening, Span.point (← MonadState.get).previousStop, arguments⟩ : Read ArgumentList) := by
    cases o <;> infer_instance
  unfold argumentList
  infer_instance

instance : Replays v v' namedAttribute namedAttribute s s' := by
  unfold namedAttribute
  infer_instance

instance : Replays v v' attributeList attributeList s s' := by
  unfold attributeList
  infer_instance

instance : Replays v v' attributeLists attributeLists s s' := by
  unfold attributeLists
  infer_instance

end Replays

end SettingsLint
