import SettingsLint.Proofs.Text.Slices
import SettingsLint.Text.Position

/-! # Places by line and column

Going on in a text by one character leads to the next line or to the next column of the same line.
So line and column grow with the offset, in lexicographic order, and no two places of a text have
the same line and column.
-/

namespace SettingsLint.Position

/-- The position is where a text ends: there is a line more than line feeds, and on the last line a
    column more than characters. -/
structure IsEndOf (p : Position) (text : List Char) : Prop where
  line : p.line = 1 + text.count '\n'
  column : ∃ lines rest, text = lines ++ rest ∧ (lines = [] ∨ lines.getLast? = some '\n') ∧
    '\n' ∉ rest ∧ p.column = 1 + rest.length

/-- The position is on an earlier line, or in an earlier column of the same line. -/
def Before (p q : Position) : Prop :=
  p.line < q.line ∨ p.line = q.line ∧ p.column < q.column

theorem Before.trans {p q r : Position} (h : p.Before q) (h' : q.Before r) : p.Before r := by
  unfold Before at *
  omega

theorem Before.ne {p q : Position} (h : p.Before q) : p ≠ q := by
  rintro rfl
  unfold Before at h
  omega

/-! ## Ends of texts -/

/-- Where a text ends. -/
def endOf (text : List Char) : Position :=
  ⟨text.count '\n' + 1, (text.reverse.takeWhile (· ≠ '\n')).length + 1⟩

/-- The place of an offset is where the text before it ends. -/
theorem ofOffset_byteSize (before after : List Char) :
    ofOffset (before ++ after) (Text.byteSize before) = endOf before := by
  rw [ofOffset, Text.takeBytes?_append]
  rfl

theorem isEndOf_endOf (text : List Char) : (endOf text).IsEndOf text := by
  refine ⟨Nat.add_comm _ _, ?_⟩
  -- Read from its end, the text starts with its last line.
  let rest := text.reverse.takeWhile (· ≠ '\n')
  let lines := text.reverse.dropWhile (· ≠ '\n')
  have hsplit : text = lines.reverse ++ rest.reverse := by
    rw [← List.reverse_append, List.takeWhile_append_dropWhile, List.reverse_reverse]
  refine ⟨lines.reverse, rest.reverse, hsplit, ?_, ?_, ?_⟩
  · rw [List.getLast?_reverse]
    cases hlines : lines with
    | nil => exact .inl rfl
    | cons c cs =>
      have hc := List.head?_dropWhile_not (· ≠ '\n') text.reverse
      rw [show text.reverse.dropWhile (· ≠ '\n') = c :: cs from hlines] at hc
      exact .inr (by simpa using hc)
  · intro hmem
    simpa using List.all_eq_true.mp List.all_takeWhile _ (List.mem_reverse.mp hmem)
  · rw [List.length_reverse]
    exact Nat.add_comm _ _

/-- One more character leads to the next line or to the next column. -/
theorem before_endOf_concat (text : List Char) (c : Char) :
    (endOf text).Before (endOf (text ++ [c])) := by
  by_cases hc : c = '\n'
  · refine .inl ?_
    simp [endOf, hc]
  · refine .inr ⟨?_, ?_⟩
    · simp [endOf, hc]
    · simp [endOf, hc]

theorem before_endOf_append (text : List Char) {part : List Char} (h : part ≠ []) :
    (endOf text).Before (endOf (text ++ part)) := by
  induction part generalizing text with
  | nil => exact absurd rfl h
  | cons c part ih =>
    have hstep := before_endOf_concat text c
    cases part with
    | nil => exact hstep
    | cons d part =>
      have hrest := ih (text ++ [c]) (List.cons_ne_nil d part)
      rw [List.append_assoc] at hrest
      exact hstep.trans hrest

theorem before_ofOffset {text : List Char} {m n : Nat} (hm : Text.IsBoundary text m)
    (hn : Text.IsBoundary text n) (h : m < n) : (ofOffset text m).Before (ofOffset text n) := by
  obtain ⟨part, hpart⟩ := hm.slice? hn (Nat.le_of_lt h)
  obtain ⟨before, after, rfl, rfl, rfl⟩ := Text.slice?_eq_some_iff.1 hpart
  rw [ofOffset_byteSize, ← Text.byteSize_append, ← List.append_assoc, ofOffset_byteSize]
  refine before_endOf_append before ?_
  rintro rfl
  exact Nat.lt_irrefl _ h

/-- Line and column of an offset are those of the end of the text before it. They grow with the offset, so
    an offset can be told from its line and column. -/
theorem ofOffset_identifies (text : String) :
    (∀ before after, text.toList = before ++ after →
      (ofOffset text.toList (Text.byteSize before)).IsEndOf before) ∧
    ∀ m n, Text.IsBoundary text.toList m → Text.IsBoundary text.toList n →
      (m < n ↔ (ofOffset text.toList m).Before (ofOffset text.toList n)) ∧
      (ofOffset text.toList m = ofOffset text.toList n → m = n) := by
  constructor
  · intro before after heq
    rw [heq, ofOffset_byteSize]
    exact isEndOf_endOf before
  · intro m n hm hn
    rcases Nat.lt_trichotomy m n with hlt | rfl | hgt
    · have hbefore := before_ofOffset hm hn hlt
      exact ⟨⟨fun _ => hbefore, fun _ => hlt⟩, fun heq => absurd heq hbefore.ne⟩
    · exact ⟨⟨fun h => absurd h (Nat.lt_irrefl m), fun h => absurd rfl h.ne⟩, fun _ => rfl⟩
    · have hbefore := before_ofOffset hn hm hgt
      refine ⟨⟨fun h => absurd h (Nat.lt_asymm hgt), fun h => ?_⟩, fun heq => absurd heq.symm hbefore.ne⟩
      exact absurd rfl (h.trans hbefore).ne

/-- The last line of this text is empty, and one of its characters takes more than one byte. -/
example : ofOffset "a\né\n".toList 5 = ⟨3, 1⟩ ∧ ofOffset "a\né\n".toList 4 = ⟨2, 2⟩ := by decide

end SettingsLint.Position
