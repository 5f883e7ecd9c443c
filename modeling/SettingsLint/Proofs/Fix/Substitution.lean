import Mathlib.Data.List.Chain
import SettingsLint.Fix.TypeArgument
import SettingsLint.Proofs.Text.Slices

/-! # Edits are made at once

Edits are made one by one, each on the text that the ones after it have left. If they are
given in order and do not overlap, that makes no difference: the result is the text between
the edits, as it was, with the new texts in between.

The loop goes from the last edit to the first. What carries it is that up to the place where
the next edit ends the text is still the old one.
-/

namespace SettingsLint

namespace Text

variable {n : Nat}

/-- There is a boundary where the text can be cut. -/
theorem isBoundary_iff_isSome {cs : List Char} :
    IsBoundary cs n ↔ (dropBytes? n cs).isSome = true := by
  simp only [Option.isSome_iff_exists, dropBytes?_eq_some_iff]
  exact exists_comm

instance (cs : List Char) (n : Nat) : Decidable (IsBoundary cs n) :=
  decidable_of_iff _ isBoundary_iff_isSome.symm

theorem IsBoundary.le_byteSize {cs : List Char} (h : IsBoundary cs n) : n ≤ byteSize cs := by
  obtain ⟨before, after, rfl, rfl⟩ := h
  rw [byteSize_append]
  exact Nat.le_add_right ..

/-- A boundary that is not before another one is reached by going on from there. -/
theorem IsBoundary.exists_append {before after : List Char}
    (h : IsBoundary (before ++ after) n) (hle : byteSize before ≤ n) :
    ∃ part rest, after = part ++ rest ∧ byteSize (before ++ part) = n := by
  obtain ⟨part, hpart⟩ := IsBoundary.slice? ⟨before, after, rfl, rfl⟩ h hle
  obtain ⟨before', rest, heq, hsize, rfl⟩ := slice?_eq_some_iff.1 hpart
  obtain rfl : before' = before := by
    have h := (takeBytes?_append before' (part ++ rest)).symm
    rw [← heq, hsize, takeBytes?_append] at h
    exact Option.some.inj h
  exact ⟨part, rest, List.append_cancel_left heq, byteSize_append ..⟩

/-- A boundary that is not after the end of a part of the text is one of that part. -/
theorem IsBoundary.of_append {part after : List Char} (h : IsBoundary (part ++ after) n)
    (hle : n ≤ byteSize part) : IsBoundary part n := by
  obtain ⟨before, rest, heq, rfl⟩ := h
  obtain ⟨gap, hslice⟩ := IsBoundary.slice? ⟨before, rest, heq, rfl⟩ ⟨part, after, rfl, rfl⟩ hle
  obtain ⟨before', rest', heq', hsize, hstop⟩ := slice?_eq_some_iff.1 hslice
  have hpart := takeBytes?_append (before' ++ gap) rest'
  rw [byteSize_append, hstop, List.append_assoc, ← heq', takeBytes?_append] at hpart
  exact ⟨before', gap, Option.some.inj hpart, hsize⟩

/-- The first lists with the second ones in between, one after each. -/
def interleave : List (List Char) → List (List Char) → List Char
  | gap :: gaps, part :: parts => gap ++ (part ++ interleave gaps parts)
  | gaps, [] => gaps.flatten
  | [], parts => parts.flatten

end Text

namespace TextEdit

open Text (IsBoundary byteSize interleave)

variable {part : List Char}

/-- Each edit ends no later than the next one starts, and all of them start and end at
    boundaries of characters of the text. -/
structure InOrder (text : List Char) (edits : List TextEdit) : Prop where
  chain : edits.IsChain fun e f => e.span.stop ≤ f.span.start
  start_le : ∀ e ∈ edits, e.span.start ≤ e.span.stop
  start : ∀ e ∈ edits, IsBoundary text e.span.start
  stop : ∀ e ∈ edits, IsBoundary text e.span.stop

instance (text : List Char) (edits : List TextEdit) : Decidable (InOrder text edits) :=
  decidable_of_iff
    (edits.IsChain (fun e f => e.span.stop ≤ f.span.start) ∧
      ∀ e ∈ edits, e.span.start ≤ e.span.stop ∧ IsBoundary text e.span.start ∧
        IsBoundary text e.span.stop)
    ⟨fun h => ⟨h.1, fun e he => (h.2 e he).1, fun e he => (h.2 e he).2.1, fun e he => (h.2 e he).2.2⟩,
      fun h => ⟨h.chain, fun e he => ⟨h.start_le e he, h.start e he, h.stop e he⟩⟩⟩

theorem InOrder.tail {text : List Char} {e : TextEdit} {edits : List TextEdit}
    (h : InOrder text (e :: edits)) : InOrder text edits where
  chain := h.chain.tail
  start_le f hf := h.start_le f (List.mem_cons_of_mem e hf)
  start f hf := h.start f (List.mem_cons_of_mem e hf)
  stop f hf := h.stop f (List.mem_cons_of_mem e hf)

/-- The places from `offset` to `stop` that no edit covers: before the first edit, between two
    neighbours, and after the last one. -/
def gaps (stop offset : Nat) : List TextEdit → List Span
  | [] => [⟨offset, stop⟩]
  | e :: edits => ⟨offset, e.span.start⟩ :: gaps stop e.span.stop edits

/-- The texts at the places, if all of them are valid ranges of the text. -/
def slices? (spans : List Span) (text : List Char) : Option (List (List Char)) :=
  spans.mapM (·.slice? text)

theorem slices?_cons {span : Span} {spans : List Span} {text : List Char}
    {parts : List (List Char)} (h : span.slice? text = some part)
    (hs : slices? spans text = some parts) :
    slices? (span :: spans) text = some (part :: parts) := by
  rw [slices?] at hs ⊢
  rw [List.mapM_cons, h, hs]
  rfl

/-! ## One edit -/

/-- An edit replaces the part that its span covers. -/
theorem apply_append (before part after : List Char) (new : String) :
    apply ⟨⟨byteSize before, byteSize (before ++ part)⟩, new⟩ (before ++ (part ++ after))
      = before ++ (new.toList ++ after) := by
  have hslice : Text.slice? (byteSize before) (byteSize (before ++ part)) (before ++ (part ++ after))
      = some part := by rw [Text.byteSize_append]; exact Text.slice?_append before part after
  have hdrop : Text.dropBytes? (byteSize (before ++ part)) (before ++ (part ++ after)) = some after := by
    rw [← List.append_assoc]
    exact Text.dropBytes?_append (before ++ part) after
  simp only [apply, Span.slice?, Text.takeBytes?_append, hslice, hdrop, List.append_assoc]

/-- Two insertions at one place are one insertion of both texts, the first one in front. -/
theorem apply_insertion_insertion (offset : Nat) (a b : String) (text : List Char) :
    apply (insertion offset a) (apply (insertion offset b) text)
      = apply (insertion offset (a ++ b)) text := by
  by_cases h : IsBoundary text offset
  · obtain ⟨before, after, rfl, rfl⟩ := h
    have hins (c : String) (rest : List Char) :
        apply (insertion (byteSize before) c) (before ++ rest) = before ++ (c.toList ++ rest) := by
      have h := apply_append before [] rest c
      rwa [List.append_nil] at h
    rw [hins, hins, hins, String.toList_append, List.append_assoc]
  · have hins (c : String) : apply (insertion offset c) text = text := by
      have hdrop : Text.dropBytes? offset text = none := by
        rw [Text.isBoundary_iff_isSome] at h
        simpa using h
      simp [apply, insertion, Span.point, hdrop]
    rw [hins, hins, hins]

/-! ## All edits -/

/-- From the end of `before` on, where all edits are still to come, the result is the gaps with
    the new texts in between. With the old texts in between it is the old text. -/
theorem exists_interleave {edits : List TextEdit} {before after : List Char}
    (h : InOrder (before ++ after) edits) (hfirst : ∀ e ∈ edits.head?, byteSize before ≤ e.span.start) :
    ∃ kept replaced,
      slices? (gaps (byteSize (before ++ after)) (byteSize before) edits) (before ++ after) = some kept ∧
      slices? (edits.map (·.span)) (before ++ after) = some replaced ∧
      before ++ after = before ++ interleave kept replaced ∧
      applyAll edits (before ++ after)
        = before ++ interleave kept (edits.map (·.newText.toList)) := by
  induction edits generalizing before after with
  | nil =>
    have hafter : Span.slice? ⟨byteSize before, byteSize (before ++ after)⟩ (before ++ after) = some after := by
      have h := Text.slice?_append before after []
      rwa [List.append_nil, ← Text.byteSize_append] at h
    exact ⟨[after], [], slices?_cons hafter rfl, rfl, by simp [interleave], by simp [interleave, applyAll]⟩
  | cons e edits ih =>
    -- The gap before the edit, and then the part that it covers.
    obtain ⟨gap, rest, rfl, hstart⟩ := (h.start e List.mem_cons_self).exists_append
      (hfirst e rfl)
    have hbound : IsBoundary ((before ++ gap) ++ rest) e.span.stop := by
      rw [List.append_assoc]
      exact h.stop e List.mem_cons_self
    obtain ⟨part, after, rfl, hstop⟩ := hbound.exists_append
      (hstart ▸ h.start_le e List.mem_cons_self)
    have heq : before ++ (gap ++ (part ++ after)) = (before ++ gap ++ part) ++ after := by
      simp only [List.append_assoc]
    have hnext : ∀ f ∈ edits.head?, byteSize (before ++ gap ++ part) ≤ f.span.start := by
      intro f hf
      obtain ⟨edits, rfl⟩ := List.head?_eq_some_iff.1 hf
      exact hstop ▸ (List.isChain_cons_cons.1 h.chain).1
    obtain ⟨kept, replaced, hkept, hreplaced, hold, hnew⟩ := ih (heq ▸ h.tail) hnext
    rw [← heq, hstop] at hkept
    rw [← heq] at hreplaced hold hnew
    have hgap : Span.slice? ⟨byteSize before, e.span.start⟩ (before ++ (gap ++ (part ++ after)))
        = some gap := by
      rw [← hstart, Text.byteSize_append]
      exact Text.slice?_append before gap (part ++ after)
    have hpart : e.span.slice? (before ++ (gap ++ (part ++ after))) = some part := by
      have h := Text.slice?_append (before ++ gap) part after
      rw [← Text.byteSize_append, hstart, hstop, List.append_assoc] at h
      exact h
    refine ⟨gap :: kept, part :: replaced, slices?_cons hgap hkept, slices?_cons hpart hreplaced, ?_, ?_⟩
    · rw [hold]
      simp only [interleave, List.append_assoc]
    · have happly := apply_append (before ++ gap) part
        (interleave kept (edits.map (·.newText.toList))) e.newText
      rw [hstart, hstop, ← List.append_assoc (before ++ gap) part, ← hnew] at happly
      refine happly.trans ?_
      simp only [interleave, List.map_cons, List.append_assoc]

theorem InOrder.of_append {after : List Char} {edits : List TextEdit}
    (h : InOrder (part ++ after) edits) (hstop : ∀ e ∈ edits, e.span.stop ≤ byteSize part) :
    InOrder part edits where
  chain := h.chain
  start_le := h.start_le
  start e he := (h.start e he).of_append (Nat.le_trans (h.start_le e he) (hstop e he))
  stop e he := (h.stop e he).of_append (hstop e he)

/-- Edits in a part of the text leave what comes after it alone. -/
theorem applyAll_append {after : List Char} {edits : List TextEdit} (h : InOrder part edits) :
    applyAll edits (part ++ after) = applyAll edits part ++ after := by
  induction edits with
  | nil => rfl
  | cons e edits ih =>
    obtain ⟨before, rest, rfl, hstart⟩ := h.start e List.mem_cons_self
    obtain ⟨old, rest, rfl, hstop⟩ := (h.stop e List.mem_cons_self).exists_append
      (hstart ▸ h.start_le e List.mem_cons_self)
    have hnext : ∀ f ∈ edits.head?, byteSize (before ++ old) ≤ f.span.start := by
      intro f hf
      obtain ⟨edits, rfl⟩ := List.head?_eq_some_iff.1 hf
      exact hstop ▸ (List.isChain_cons_cons.1 h.chain).1
    -- What the later edits leave still starts with the text up to the end of this one.
    have htail := h.tail
    rw [← List.append_assoc] at htail
    obtain ⟨kept, replaced, -, -, -, hrest⟩ := exists_interleave htail hnext
    have hedit : e = ⟨⟨byteSize before, byteSize (before ++ old)⟩, e.newText⟩ := by rw [hstart, hstop]
    rw [applyAll, applyAll, List.foldr_cons, List.foldr_cons, ← applyAll, ← applyAll, ih h.tail,
      ← List.append_assoc before, hrest, hedit]
    simp only [List.append_assoc, apply_append]

/-- Edits in a part of the text leave what is around it alone. -/
theorem applyAll_between {before after : List Char} {edits : List TextEdit}
    (h : InOrder (before ++ (part ++ after)) edits)
    (hstart : ∀ e ∈ edits, byteSize before ≤ e.span.start)
    (hstop : ∀ e ∈ edits, e.span.stop ≤ byteSize (before ++ part)) :
    ∃ new, applyAll edits (before ++ (part ++ after)) = before ++ (new ++ after) := by
  rw [← List.append_assoc] at h ⊢
  have hpart := h.of_append hstop
  obtain ⟨kept, replaced, -, -, -, hnew⟩ := exists_interleave hpart
    (fun e he => hstart e (List.mem_of_mem_head? he))
  refine ⟨interleave kept (edits.map (·.newText.toList)), ?_⟩
  rw [applyAll_append hpart, hnew, List.append_assoc]

end TextEdit

open TextEdit in
/-- A fix is a simultaneous substitution. If its edits are in order and do not overlap, all
    gaps between them are ranges of the text, and the result is the gaps with the new texts in
    between, where the text has the replaced parts. So nothing is lost or moved outside of the
    edits; and where two neighbours insert at one place, they might as well be one edit that
    inserts the first text and then the second. -/
theorem CodeFix.apply_eq_interleave (fix : CodeFix) (text : String)
    (h : InOrder text.toList fix.edits) :
    (∃ kept replaced,
      slices? (gaps (Text.byteSize text.toList) 0 fix.edits) text.toList = some kept ∧
      slices? (fix.edits.map (·.span)) text.toList = some replaced ∧
      text = String.ofList (Text.interleave kept replaced) ∧
      fix.apply text
        = String.ofList (Text.interleave kept (fix.edits.map (·.newText.toList)))) ∧
    ∀ edits offset a b more, fix.edits = edits ++ insertion offset a :: insertion offset b :: more →
      fix.apply text
        = { fix with edits := edits ++ insertion offset (a ++ b) :: more }.apply text := by
  refine ⟨?_, ?_⟩
  · obtain ⟨kept, replaced, hkept, hreplaced, hold, hnew⟩ :=
      @exists_interleave fix.edits [] text.toList h (fun _ _ => Nat.zero_le _)
    refine ⟨kept, replaced, hkept, hreplaced, ?_, congrArg String.ofList hnew⟩
    rw [← String.toList_inj, String.toList_ofList]
    exact hold
  · intro edits offset a b more hedits
    simp only [apply, hedits, applyAll, List.foldr_append, List.foldr_cons, apply_insertion_insertion]

/-- Two insertions at one place, a replacement right after them, and one behind a character of
    two bytes. -/
theorem CodeFix.apply_eq_interleave_sample :
    let fix : CodeFix := ⟨"", "", [.insertion 1 "<", .insertion 1 "[", ⟨⟨1, 2⟩, "X"⟩, ⟨⟨4, 5⟩, ""⟩]⟩
    TextEdit.InOrder "abéde".toList fix.edits ∧ fix.apply "abéde" = "a<[Xée" ∧
      ∃ kept replaced,
        TextEdit.slices? (TextEdit.gaps 6 0 fix.edits) "abéde".toList = some kept ∧
        TextEdit.slices? (fix.edits.map (·.span)) "abéde".toList = some replaced ∧
        "abéde" = String.ofList (Text.interleave kept replaced) ∧
        fix.apply "abéde" = String.ofList (Text.interleave kept (fix.edits.map (·.newText.toList))) :=
  ⟨by decide, by decide, (CodeFix.apply_eq_interleave _ "abéde" (by decide)).1⟩

end SettingsLint
