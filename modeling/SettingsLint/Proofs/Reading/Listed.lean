import SettingsLint.Proofs.Reading.Reads
import SettingsLint.Proofs.Reading.ReplayAttributes

/-! # Lists that are read again

What a reader read once it reads again from tokens of the same kinds (`Replays.reads`). Items
in a list that commas divide are taken apart by `Listed` and put together again by
`Reads.list_last` and `Reads.list_more`.
-/

set_option synthInstance.maxSize 1024

namespace SettingsLint

open Placed (erase)

/-- What a reader did once it does again on tokens of the same kinds, if it replays. -/
theorem Replays.reads_of [Placed α] {r q : Read α} [hr : Read.Forward r] {s : Cursor}
    {u : List Token} {w : List TokenKind} (hw : w ≠ []) (hs : s.tokens = u ++ (r s).2.tokens)
    (hclean : (r s).2.errors = [])
    (h : ∀ v' s', v'.map (·.kind) = w → EndsInEof v' → Ordered s'.tokens →
      Replays (r s).2.tokens v' r q s s') :
    Reads q s.depth (u.map (·.kind) ++ w) w (r s).1 := by
  intro s' hs'
  -- The new tokens are divided where the old ones are.
  obtain ⟨u', v', htokens, hu', hv'⟩ := List.map_eq_append_iff.mp hs'.kinds
  have hne : v' ≠ [] := by
    rintro rfl
    exact hw hv'.symm
  have hends : EndsInEof v' := hs'.endsInEof.of_suffix ⟨u', htokens.symm⟩ hne
  have twin : Twin (r s).2.tokens v' s s' :=
    ⟨⟨u, u', hs, htokens, Twin.of_kinds_eq hu'⟩, hs'.depth, (hr.reaches s).clean hclean, hs'.clean⟩
  obtain ⟨twin', like⟩ := (h v' s' hv' hends hs'.lexed.ordered).replays twin List.suffix_rfl hclean
  obtain ⟨z, z', hz, hz', hzs⟩ := twin'.split
  have hnil : z = [] := List.self_eq_append_left.mp hz
  subst hnil
  cases hzs
  obtain ⟨text, hlexed⟩ := hs'.lexed
  refine ⟨⟨hz' ▸ hv', twin'.depth.trans (hr.reaches s).depth, twin'.clean', text, ?_⟩, like.erased⟩
  rw [Cursor.LexedFrom, hz']
  exact List.IsSuffix.trans ⟨u', htokens.symm⟩ hlexed

theorem Replays.reads [Placed α] {r : Read α} [Read.Forward r] {s : Cursor} {u : List Token}
    {k : TokenKind} {w : List TokenKind} (hs : s.tokens = u ++ (r s).2.tokens)
    (hclean : (r s).2.errors = [])
    (h : ∀ t v' s', t.kind = k → EndsInEof (t :: v') →
      Replays (r s).2.tokens (t :: v') r r s s') :
    Reads r s.depth (u.map (·.kind) ++ k :: w) (k :: w) (r s).1 := by
  refine Replays.reads_of (List.cons_ne_nil k w) hs hclean fun v' s' hv' hends _ => ?_
  obtain ⟨t, rest, rfl, ht, -⟩ := List.map_eq_cons_iff.mp hv'
  exact h t rest s' ht hends

/-! ## Taking lists apart -/

/-- From `s` the items are read one after the other, with commas in between and perhaps one
    at the end, up to `t`, where the list is closed. -/
inductive Listed (item : Read (Option α)) (closing : TokenKind) : Cursor → List α → Cursor → Prop where
  | nil {s : Cursor} (hk : s.kind = closing) : Listed item closing s [] s
  | last {s : Cursor} {a : α} (hk : s.kind ≠ closing) (heof : s.kind ≠ .eof)
    (ha : (item s).1 = some a) (hc : (item s).2.kind = closing) :
    Listed item closing s [a] (item s).2
  | more {s t : Cursor} {a : α} {as : List α} (hk : s.kind ≠ closing) (heof : s.kind ≠ .eof)
    (ha : (item s).1 = some a) (hc : (item s).2.kind = .comma)
    (rest : Listed item closing (Read.advance (item s).2).2 as t) :
    Listed item closing s (a :: as) t

section

variable {item : Read (Option α)} {closing : TokenKind} {s : Cursor}

theorem Read.listItem_of_none (hk : s.kind ≠ closing) (heof : s.kind ≠ .eof)
    (ha : (item s).1 = none) : listItem closing item s = ((none, false), (item s).2) := by
  rw [listItem_of_go (by simp [hk, atEnd_eq_false heof]), bind_apply, ha]
  rfl

theorem Read.listItem_of_comma (hk : s.kind ≠ closing) (heof : s.kind ≠ .eof) {a : α}
    (ha : (item s).1 = some a) (hc : (item s).2.kind = .comma) :
    listItem closing item s = ((some a, true), (advance (item s).2).2) := by
  rw [listItem_of_go (by simp [hk, atEnd_eq_false heof]), bind_apply, ha, Option.elim_some, bind_apply,
    eat_of_eq hc]
  rfl

theorem Read.listItem_of_last (hk : s.kind ≠ closing) (heof : s.kind ≠ .eof) {a : α}
    (ha : (item s).1 = some a) (hc : (item s).2.kind ≠ .comma) :
    listItem closing item s = ((some a, false), (item s).2) := by
  rw [listItem_of_go (by simp [hk, atEnd_eq_false heof]), bind_apply, ha, Option.elim_some, bind_apply,
    eat_of_ne hc]
  rfl

/-- A list that is read without an error up to the token that closes it is taken apart. -/
theorem Listed.of_gather [Read.Forward item] (hitem : ∀ s, (item s).1 = none → (item s).2.errors ≠ [])
    (hs : EndsInEof s.tokens)
    (hclean : (Read.gather (Read.listItem closing item) s).2.errors = [])
    (hk : (Read.gather (Read.listItem closing item) s).2.kind = closing) :
    Listed item closing s (Read.gather (Read.listItem closing item) s).1
      (Read.gather (Read.listItem closing item) s).2 := by
  induction hn : s.size using Nat.strongRecOn generalizing s with
  | _ n ih =>
    rw [Read.gather_eq] at hclean hk ⊢
    by_cases hclosed : s.kind = closing
    · rw [Read.listItem_of_end (by simp [hclosed])] at hk ⊢
      exact .nil hclosed
    by_cases heof : s.kind = .eof
    · rw [Read.listItem_of_end (by simp [Cursor.atEnd, heof, TokenKind.isEof])] at hk
      exact absurd hk hclosed
    cases ha : (item s).1 with
    | none =>
      rw [Read.listItem_of_none hclosed heof ha] at hclean
      exact absurd hclean (hitem s ha)
    | some a =>
      have hreach := Read.Forward.reaches (r := item) s
      by_cases hc : (item s).2.kind = .comma
      · have hne : (item s).2.kind ≠ .eof := by rw [hc]; decide
        have hends := hreach.endsInEof hs
        have hlt : (Read.advance (item s).2).2.size < s.size :=
          Nat.lt_of_lt_of_le (Read.size_advance_lt hne hends) hreach.size_le
        rw [Read.listItem_of_comma hclosed heof ha hc] at hclean hk ⊢
        rw [if_pos (by simpa using hlt)] at hclean hk ⊢
        refine .more hclosed heof ha hc (ih _ (hn ▸ hlt) ?_ hclean hk rfl)
        exact (Cursor.Reaches.advance (item s).2).endsInEof hends
      · rw [Read.listItem_of_last hclosed heof ha hc] at hk ⊢
        exact .last hclosed heof ha hk

theorem Listed.reaches [hf : Read.Forward item] {t : Cursor} {as : List α}
    (h : Listed item closing s as t) : s.Reaches t := by
  induction h with
  | nil => exact .refl _
  | last => exact hf.reaches _
  | more _ _ _ _ _ ih => exact ((hf.reaches _).trans (.advance _)).trans ih

theorem Listed.clean_item [Read.Forward item] {t : Cursor} {as : List α}
    (h : Listed item closing (Read.advance (item s).2).2 as t) (hclean : t.errors = []) :
    (item s).2.errors = [] :=
  ((Cursor.Reaches.advance (item s).2).trans h.reaches).clean hclean

end

/-! ## Putting lists together -/

namespace Reads

variable [Placed α] {item : Read (Option α)} {closing k : TokenKind} {d : Nat}
  {u v w : List TokenKind} {a : α} {as : List α}

theorem list_nil :
    Reads (Read.gather (Read.listItem closing item)) d (closing :: v) (closing :: v) [] := by
  intro s hs
  rw [Read.gather_eq, Read.listItem_of_end (by simp [hs.kind])]
  exact ⟨hs, rfl⟩

theorem list_last (hk : k ≠ closing) (heof : k ≠ .eof) (hclosing : closing ≠ .comma)
    (h : Reads item d (k :: u) (closing :: v) (some a)) :
    Reads (Read.gather (Read.listItem closing item)) d (k :: u) (closing :: v) [a] := by
  intro s hs
  obtain ⟨hs', ha⟩ := h s hs
  obtain ⟨b, hb, ha⟩ := erase_eq_some_iff.1 ha
  rw [Read.gather_eq, Read.listItem_of_last (hs.kind ▸ hk) (hs.kind ▸ heof) hb
    (hs'.kind ▸ hclosing)]
  exact ⟨hs', by simpa using ha⟩

theorem list_more (hk : k ≠ closing) (heof : k ≠ .eof) (hlen : v.length ≤ u.length)
    (h : Reads item d (k :: u) (.comma :: v) (some a))
    (g : Reads (Read.gather (Read.listItem closing item)) d v w as) :
    Reads (Read.gather (Read.listItem closing item)) d (k :: u) w (a :: as) := by
  intro s hs
  obtain ⟨hs', ha⟩ := h s hs
  obtain ⟨b, hb, ha⟩ := erase_eq_some_iff.1 ha
  have hnext : At d v (Read.advance (item s).2).2 := hs'.advance nofun
  have hlt : (Read.advance (item s).2).2.size < s.size :=
    hnext.size_lt hs (Nat.lt_succ_of_le hlen)
  obtain ⟨hlast, has⟩ := g _ hnext
  rw [Read.gather_eq, Read.listItem_of_comma (hs.kind ▸ hk) (hs.kind ▸ heof) hb hs'.kind,
    if_pos (by simpa using hlt)]
  exact ⟨hlast, by simpa using ⟨ha, has⟩⟩

end Reads

end SettingsLint
