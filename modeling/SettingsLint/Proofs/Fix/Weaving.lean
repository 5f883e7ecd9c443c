import SettingsLint.Proofs.Fix.Plan
import SettingsLint.Proofs.Fix.Substitution
import SettingsLint.Proofs.Token.Gaps

/-! # The text after a plan

A plan that fits leads from the tokens of a text to those of the text after its edits. The new text
is made up piece by piece: of each piece of the plan the old text with the gap before it is kept, or
a new text stands in its place or beside it. Neither side of such a place runs into the other, since
new texts start with a mark that ends every token, or follow one after which a value starts.
-/

namespace SettingsLint

open Lexeme (Resumes SameStart Stops)
open Text (byteSize)
open TextEdit (applyAll)
open Token (Gap Lexes Proper Spelled kindsFrom lexFrom)

/-! ## What may follow a token -/

/-- After a token of kind `prev` the second text may stand in place of the first one. -/
def Follows (prev : TokenKind) (cs cs' : List Char) : Prop :=
  Resumes cs cs' ∨ Plan.opensValue prev = true ∧ cs'.head? = some 't'

/-- A mark before a value is a token of one character. -/
theorem exists_mark {lineStart : Bool} {x r : List Char} {kind : TokenKind}
    (h : Lexes lineStart x r kind) (hkind : Plan.opensValue kind = true) :
    ∃ c, x = [c] ∧ Lexeme.isClear c = true ∧
      ∀ (lineStart : Bool) (cs : List Char), Lexes lineStart [c] ('t' :: cs) kind := by
  have hwrites := h.writes
  simp only [Plan.opensValue, Bool.or_eq_true, decide_eq_true_eq] at hkind
  have hmark {c : Char} (h1 : Text.isBlank c = false) (h2 : c ≠ '/') (h3 : c ≠ '#')
      (hof : ∀ cs, Lexeme.ofText c ('t' :: cs) = ⟨.mark kind, 1⟩) (lineStart : Bool) (cs : List Char) :
      Lexes lineStart [c] ('t' :: cs) kind := by
    refine ⟨c, [], rfl, Lexeme.triviaOfText_eq_none h1 h2 h3 _ _, ?_, ?_, ?_⟩
    all_goals rw [List.nil_append, hof]
    · rfl
    · exact nofun
    · rfl
  rcases hkind with ((rfl | rfl) | rfl) | rfl
  · exact ⟨'(', hwrites.symm, rfl, hmark (by decide) (by decide) (by decide) fun _ => rfl⟩
  · exact ⟨',', hwrites.symm, rfl, hmark (by decide) (by decide) (by decide) fun _ => rfl⟩
  · exact ⟨':', hwrites.symm, rfl, hmark (by decide) (by decide) (by decide) fun _ => rfl⟩
  · exact ⟨'=', hwrites.symm, rfl, hmark (by decide) (by decide) (by decide) fun _ => rfl⟩

section

variable {lineStart : Bool} {u x r r' : List Char} {kind : TokenKind}

theorem Follows.lexes (h : Follows kind r r') (hx : Lexes lineStart x r kind) :
    Lexes lineStart x r' kind := by
  rcases h with hr | ⟨hkind, hhead⟩
  · exact hx.resume hr
  · obtain ⟨c, rfl, -, hmark⟩ := exists_mark hx hkind
    obtain ⟨cs, rfl⟩ := List.head?_eq_some_iff.1 hhead
    exact hmark lineStart cs

/-- A token that is kept hides what follows it. -/
theorem Follows.resumes (h : Follows kind r r') (hx : Lexes lineStart x r kind) :
    Resumes (x ++ r) (x ++ r') := by
  rcases h with hr | ⟨hkind, -⟩
  · exact hr.append x
  · obtain ⟨c, rfl, hclear, -⟩ := exists_mark hx hkind
    exact .clear hclear r r'

/-- Behind a gap any text may follow that starts a value. -/
theorem Follows.of_gap {next : Bool} {y : List Char} (hgap : Gap y lineStart u next)
    (hkind : Plan.opensValue kind = true) {new : List Char} (hnew : new.head? = some 't') :
    Follows kind (u ++ y) (u ++ new) := by
  cases u with
  | nil => exact .inr ⟨hkind, hnew⟩
  | cons c u => exact .inl (.clear (hgap.isClear_head c rfl) _ _)

end

/-- A text that starts a value is read in the same way at the start of a line. -/
theorem kindsFrom_of_head {new : List Char} (h : new.head? = some 't') (lineStart : Bool) :
    kindsFrom lineStart new = kindsFrom false new := by
  obtain ⟨cs, rfl⟩ := List.head?_eq_some_iff.1 h
  have hname : Lexeme.ofText 't' cs = ⟨.name, 1 + Lexeme.runLength Lexeme.isNamePart cs⟩ :=
    if_pos (by decide)
  obtain ⟨w, r, rfl, hw⟩ := Lexeme.exists_split
    (show Lexeme.runLength Lexeme.isNamePart cs ≤ cs.length from (List.takeWhile_sublist _).length_le)
  have hlexes (lineStart : Bool) :
      Lexes lineStart ('t' :: w) r (.identifier (String.ofList ('t' :: w))) := by
    refine ⟨'t', w, rfl, Lexeme.triviaOfText_eq_none (by decide) (by decide) (by decide) _ _, ?_, ?_, ?_⟩
    all_goals rw [hname]
    · rw [hw, Nat.add_comm]
    · exact nofun
    · rfl
  rw [← List.cons_append, (hlexes lineStart).kindsFrom, (hlexes false).kindsFrom]

/-! ## The new text -/

/-- The plan leads from the text `cs`, which stands at the byte `offset` after a token of kind `prev`,
    to the text `cs'`. The last token is kept. -/
structure Weaves (π : Plan) (last : Token) (prev : TokenKind) (lineStart : Bool) (offset : Nat)
    (cs cs' : List Char) : Prop where
  applied : ∀ before, byteSize before = offset → applyAll π.edits (before ++ cs) = before ++ cs'
  follows : Follows prev cs cs'
  kinds : kindsFrom lineStart cs' = π.kinds ++ [last.kind]

namespace Weaves

variable {π : Plan} {last t : Token} {prev : TokenKind} {lineStart next : Bool} {offset : Nat}
  {trivia : List Trivia} {cs u x r r' : List Char} {text : String} {new : List TokenKind}

/-- Nothing is left but a gap and the end. -/
theorem nil (h : lexFrom lineStart offset trivia cs = [last]) (hlast : last.kind = .eof) :
    Weaves [] last prev lineStart offset cs cs := by
  obtain ⟨u, y, next, rfl, hgap, hnone⟩ := Token.exists_gap lineStart cs
  obtain ⟨trivia', heq⟩ := hgap.lexFrom offset trivia
  obtain rfl : y = [] := by
    rw [h] at heq
    cases y with
    | nil => rfl
    | cons c y =>
      -- What starts with a character is not the end of the source.
      rw [lexFrom, hnone c y rfl] at heq
      have hkind := congrArg Token.kind (List.cons.inj heq).1
      have hne := (Lexeme.writes_ofText c y).ne_eof (List.cons_ne_nil _ _)
      exact absurd (hkind.symm.trans hlast) hne
  rw [heq, lexFrom] at h
  obtain ⟨rfl, -⟩ := List.cons.inj h
  refine ⟨fun _ _ => rfl, .inl (.same _), ?_⟩
  obtain ⟨trivia'', heq⟩ := hgap.lexFrom 0 []
  rw [kindsFrom, heq, lexFrom]
  rfl

section

variable (hgap : Gap (x ++ r) lineStart u next) (hx : Lexes next x r t.kind)
  (hspan : t.span = ⟨offset + byteSize u, offset + byteSize u + byteSize x⟩)
include hgap hx hspan

/-- A token is kept. -/
theorem kept (h : Weaves π last t.kind false t.span.stop r r') :
    Weaves (.kept t :: π) last prev lineStart offset (u ++ (x ++ r)) (u ++ (x ++ r')) := by
  have hx' := h.follows.lexes hx
  have hgap' := hgap.resume (hx.solid.sameStart r r')
  refine ⟨fun before hbefore => ?_, .inl ((h.follows.resumes hx).append u), ?_⟩
  · have := h.applied (before ++ (u ++ x)) (by
      rw [hspan, Text.byteSize_append, Text.byteSize_append, hbefore, Nat.add_assoc])
    simp only [List.append_assoc] at this
    exact this
  · obtain ⟨trivia', heq⟩ := hgap'.lexFrom 0 []
    rw [kindsFrom, heq, Token.map_kind_lexFrom, hx'.kindsFrom, h.kinds]
    rfl

/-- A token is kept, and a text is inserted after it. -/
theorem after (h : Weaves π last .rightParen false t.span.stop r r')
    (hfits : Plan.PieceFits prev (.after t text new)) :
    Weaves (.after t text new :: π) last prev lineStart offset (u ++ (x ++ r))
      (u ++ (x ++ (text.toList ++ r'))) := by
  obtain ⟨hhead, hspelled⟩ := hfits
  have hr : Resumes r (text.toList ++ r') := by
    rcases hhead with hhead | hhead <;> obtain ⟨cs, hcs⟩ := List.head?_eq_some_iff.1 hhead
    all_goals
      rw [hcs]
      exact .ends rfl _ _
  have hx' := hx.resume hr
  have hgap' := hgap.resume (hx.solid.sameStart r (text.toList ++ r'))
  have hkinds : kindsFrom false (text.toList ++ r') = new ++ (π.kinds ++ [last.kind]) := by
    rw [hspelled.reads, h.kinds]
  refine ⟨fun before hbefore => ?_, .inl ((hr.append x).append u), ?_⟩
  · have hstop : t.span.stop = byteSize (before ++ (u ++ x)) := by
      rw [hspan, Text.byteSize_append, Text.byteSize_append, hbefore, Nat.add_assoc]
    have hrest := h.applied (before ++ (u ++ x)) hstop.symm
    have hedit := TextEdit.apply_append (before ++ (u ++ x)) [] r' text
    simp only [Plan.edits_cons, Piece.edit?, Option.toList_some, List.singleton_append, applyAll,
      List.foldr_cons]
    simp only [List.append_assoc, applyAll, List.append_nil] at hrest hedit ⊢
    rw [hrest, hstop]
    exact hedit
  · obtain ⟨trivia', heq⟩ := hgap'.lexFrom 0 []
    rw [kindsFrom, heq, Token.map_kind_lexFrom, hx'.kindsFrom, hkinds]
    simp

end

/-- Behind a gap a value is put in place of what stands there. -/
theorem of_value {z : List Char} (hgap : Gap (x ++ r) lineStart u next)
    (hx : Token.Solid x) (hprev : Plan.opensValue prev = true) (hhead : text.toList.head? = some 't')
    (hkinds : kindsFrom false (text.toList ++ z) = π.kinds ++ [last.kind])
    (happlied : ∀ before, byteSize before = offset →
      applyAll π.edits (before ++ (u ++ (x ++ r))) = before ++ (u ++ (text.toList ++ z))) :
    Weaves π last prev lineStart offset (u ++ (x ++ r)) (u ++ (text.toList ++ z)) := by
  have hnew : (text.toList ++ z).head? = some 't' := by
    rw [List.head?_append, hhead]
    rfl
  have hgap' : Gap (text.toList ++ z) lineStart u next := by
    refine hgap.resume (.inr ⟨by simp [hx.ne_nil], ?_, ?_, ?_⟩)
    · intro hnil
      rw [hnil] at hnew
      exact absurd hnew (by simp)
    · obtain ⟨c, x, rfl⟩ := List.exists_cons_of_ne_nil hx.ne_nil
      exact hx.first
    · intro c hc
      rw [hnew] at hc
      obtain rfl := Option.some.inj hc
      decide
  refine ⟨happlied, .of_gap hgap hprev hnew, ?_⟩
  obtain ⟨trivia', heq⟩ := hgap'.lexFrom 0 []
  rw [kindsFrom, heq, Token.map_kind_lexFrom, kindsFrom_of_head hnew, hkinds]

/-- A text is inserted before a token, which is kept. -/
theorem before (hgap : Gap (x ++ r) lineStart u next) (hx : Lexes next x r t.kind)
    (hspan : t.span = ⟨offset + byteSize u, offset + byteSize u + byteSize x⟩)
    (h : Weaves π last t.kind false t.span.stop r r')
    (hfits : Plan.PieceFits prev (.before t text new)) :
    Weaves (.before t text new :: π) last prev lineStart offset (u ++ (x ++ r))
      (u ++ (text.toList ++ (x ++ r'))) := by
  obtain ⟨hprev, hhead, hspelled, -⟩ := hfits
  have hx' := (h.follows.lexes hx).of_lineStart
  refine of_value hgap hx.solid hprev hhead ?_ fun before hbefore => ?_
  · rw [hspelled.reads, hx'.kindsFrom, h.kinds]
    simp
  · have hrest := h.applied (before ++ (u ++ x)) (by
      rw [hspan, Text.byteSize_append, Text.byteSize_append, hbefore, Nat.add_assoc])
    have hstart : t.span.start = byteSize (before ++ u) := by
      rw [hspan, Text.byteSize_append, hbefore]
    have hedit := TextEdit.apply_append (before ++ u) [] (x ++ r') text
    simp only [Plan.edits_cons, Piece.edit?, Option.toList_some, List.singleton_append, applyAll,
      List.foldr_cons]
    simp only [List.append_assoc, applyAll, List.append_nil] at hrest hedit ⊢
    rw [hrest, hstart]
    exact hedit

/-- A text replaces some tokens. -/
theorem instead {first : Token} {rest : List Token} (hgap : Gap (x ++ r) lineStart u next)
    (hx : Token.Solid x) (hstart : first.span.start = offset + byteSize u)
    (hstop : (rest.getLastD first).span.stop = first.span.start + byteSize x)
    (h : Weaves π last .rightParen false (rest.getLastD first).span.stop r r')
    (hfits : Plan.PieceFits prev (.instead first rest text new)) :
    Weaves (.instead first rest text new :: π) last prev lineStart offset (u ++ (x ++ r))
      (u ++ (text.toList ++ r')) := by
  obtain ⟨hprev, hhead, hspelled⟩ := hfits
  refine of_value hgap hx hprev hhead ?_ fun before hbefore => ?_
  · rw [hspelled.reads, h.kinds]
    simp
  · have hfirst : first.span.start = byteSize (before ++ u) := by
      rw [hstart, Text.byteSize_append, hbefore]
    have hlast : (rest.getLastD first).span.stop = byteSize (before ++ u ++ x) := by
      rw [hstop, hfirst, Text.byteSize_append (before ++ u)]
    have hrest := h.applied (before ++ u ++ x) hlast.symm
    have hedit := TextEdit.apply_append (before ++ u) x r' text
    rw [← hfirst, ← hlast] at hedit
    simp only [Plan.edits_cons, Piece.edit?, Option.toList_some, List.singleton_append, applyAll,
      List.foldr_cons]
    simp only [List.append_assoc, applyAll] at hrest hedit ⊢
    rw [hrest]
    exact hedit

end Weaves

/-- A plan that fits leads to a new text. -/
theorem Plan.exists_weaves {π : Plan} {last : Token} {prev : TokenKind} {lineStart : Bool} {offset : Nat}
    {cs : List Char} (h : lexFrom lineStart offset [] cs = π.old ++ [last])
    (hlast : last.kind = .eof) (hproper : ∀ t ∈ π.old, t.Proper) (hfits : π.Fits prev) :
    ∃ cs', Weaves π last prev lineStart offset cs cs' := by
  induction π generalizing prev lineStart offset cs with
  | nil => exact ⟨cs, .nil h hlast⟩
  | cons piece π ih =>
    rw [old_cons, List.append_assoc] at h
    rw [old_cons, List.forall_mem_append] at hproper
    cases piece with
    | kept t =>
      obtain ⟨u, x, r, next, rfl, hgap, hx, hspan, hmore⟩ :=
        Token.exists_lexes h (hproper.1 t List.mem_cons_self)
      obtain ⟨r', hr'⟩ := ih hmore.symm hproper.2 hfits.2
      exact ⟨_, .kept hgap hx hspan hr'⟩
    | after t text new =>
      obtain ⟨u, x, r, next, rfl, hgap, hx, hspan, hmore⟩ :=
        Token.exists_lexes h (hproper.1 t List.mem_cons_self)
      obtain ⟨r', hr'⟩ := ih hmore.symm hproper.2 hfits.2
      exact ⟨_, .after hgap hx hspan hr' hfits.1⟩
    | before t text new =>
      obtain ⟨u, x, r, next, rfl, hgap, hx, hspan, hmore⟩ :=
        Token.exists_lexes h (hproper.1 t List.mem_cons_self)
      obtain ⟨r', hr'⟩ := ih hmore.symm hproper.2 hfits.2
      exact ⟨_, .before hgap hx hspan hr' hfits.1⟩
    | instead first rest text new =>
      obtain ⟨u, x, r, next, rfl, hgap, hx, hstart, hstop, hmore, -⟩ := Token.exists_part h hproper.1
      obtain ⟨r', hr'⟩ := ih hmore.symm hproper.2 hfits.2
      exact ⟨_, .instead hgap hx hstart hstop hr' hfits.1⟩

end SettingsLint
