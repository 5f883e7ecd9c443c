import SettingsLint.Proofs.Reading.Segments
import SettingsLint.Proofs.Reading.Termination

/-! # Brackets balance

Before a type declaration is read, `Cursor.atTypeDeclaration` steps over the attribute
lists in front of it by counting brackets. The readers of types and attributes do not
count: they follow the grammar. The brackets among the tokens that they read balance all
the same, so both come to the same place (`atTypeDeclaration_memberHead`). A statement is
skipped by counting, too, and starts with what stands before a type (`skipHead`).
-/

set_option synthInstance.maxSize 1024

namespace SettingsLint

/-! ## Tokens that balance -/

/-- The tokens close `n` more groups than they open, and never all groups but `n`. -/
def Lowers (n : Nat) (u : List Token) : Prop :=
  ∀ m rest, groupLength (m + n + 1) (u ++ rest) = u.length + groupLength (m + 1) rest

/-- The tokens close all groups that they open, and no others. -/
abbrev Balanced (u : List Token) : Prop := Lowers 0 u

section

variable {u v : List Token} {t : Token} {n : Nat}

theorem Lowers.append {m : Nat} (hu : Lowers n u) (hv : Lowers m v) : Lowers (m + n) (u ++ v) := by
  intro k rest
  rw [List.append_assoc, ← Nat.add_assoc, hu (k + m) (v ++ rest), hv k rest, List.length_append]
  omega

theorem Lowers.nil : Lowers 0 [] := fun m rest => by simp

theorem Lowers.cons_of_opener (ht : t.kind.isOpener = true) (h : Lowers (n + 1) u) :
    Lowers n (t :: u) := by
  intro m rest
  have heof : t.kind.isEof = false := by
    cases hk : t.kind <;> simp_all [TokenKind.isOpener, TokenKind.isEof]
  have hrest := h m rest
  rw [← Nat.add_assoc] at hrest
  rw [List.cons_append, groupLength]
  simp only [heof, ht, Bool.false_eq_true, if_false, if_true]
  rw [if_neg (by omega), List.length_cons]
  omega

theorem Lowers.cons_of_closer (ht : t.kind.isCloser = true) (h : Lowers n u) :
    Lowers (n + 1) (t :: u) := by
  intro m rest
  have hkind : t.kind.isEof = false ∧ t.kind.isOpener = false := by
    cases hk : t.kind <;> simp_all [TokenKind.isOpener, TokenKind.isCloser, TokenKind.isEof]
  have hrest := h m rest
  rw [List.cons_append, groupLength]
  simp only [hkind.1, hkind.2, ht, Bool.false_eq_true, if_false, if_true]
  have hdepth : m + (n + 1) + 1 - 1 = m + n + 1 := by omega
  rw [hdepth, if_neg (by omega), List.length_cons]
  omega

theorem Lowers.cons (hopener : t.kind.isOpener = false) (hcloser : t.kind.isCloser = false)
    (heof : t.kind ≠ .eof) (h : Lowers n u) : Lowers n (t :: u) := by
  intro m rest
  have hend : t.kind.isEof = false := by
    cases hk : t.kind <;> simp_all [TokenKind.isEof]
  rw [List.cons_append, groupLength]
  simp only [hend, hopener, hcloser, Bool.false_eq_true, if_false]
  rw [if_neg (by omega), h m rest, List.length_cons]
  omega

theorem Lowers.of_closes (h : Closes n (u.map (·.kind))) : Lowers n u := by
  generalize hw : u.map (·.kind) = w at h
  induction h generalizing u with
  | nil =>
    rw [List.map_eq_nil_iff.mp hw]
    exact .nil
  | plain hplain heof _ ih =>
    obtain ⟨t, u, rfl, rfl, rfl⟩ := List.map_eq_cons_iff.mp hw
    obtain ⟨hopener, hcloser⟩ : t.kind.isOpener = false ∧ t.kind.isCloser = false := by
      simpa [TokenKind.isPlain] using hplain
    exact .cons hopener hcloser heof (ih rfl)
  | opener hopens _ ih =>
    obtain ⟨t, u, rfl, rfl, rfl⟩ := List.map_eq_cons_iff.mp hw
    exact .cons_of_opener hopens (ih rfl)
  | closer hcloses _ ih =>
    obtain ⟨t, u, rfl, rfl, rfl⟩ := List.map_eq_cons_iff.mp hw
    exact .cons_of_closer hcloses (ih rfl)

instance : FollowsBrackets (Lowers 0) where
  nil := .nil
  append := .append
  plain hplain heof := by
    obtain ⟨hopener, hcloser⟩ := Bool.and_eq_true_iff.mp hplain
    exact .cons (by simpa using hopener) (by simpa using hcloser) heof .nil
  pair hkinds hinside := by
    obtain ⟨hopens, hcloses⟩ := TokenKind.isOpener_of_closing? hkinds
    exact .cons_of_opener hopens (hinside.append (.cons_of_closer hcloses .nil))
  group hopens hinside := .cons_of_opener hopens (.of_closes hinside)

/-- What balances between two brackets is a group. -/
theorem groupLength_of_balanced {opening closing : Token} (ho : opening.kind.isOpener = true)
    (hc : closing.kind.isCloser = true) (h : Balanced u) (rest : List Token) :
    groupLength 0 (opening :: (u ++ closing :: rest)) = u.length + 2 := by
  have hopening : opening.kind.isEof = false := by
    cases hk : opening.kind <;> simp_all [TokenKind.isOpener, TokenKind.isEof]
  have hclosing : closing.kind.isEof = false ∧ closing.kind.isOpener = false := by
    cases hk : closing.kind <;> simp_all [TokenKind.isOpener, TokenKind.isCloser, TokenKind.isEof]
  have hlast : groupLength 1 (closing :: rest) = 1 := by
    rw [groupLength]
    simp [hclosing.1, hclosing.2, hc]
  have hinside := h 0 (closing :: rest)
  rw [groupLength]
  simp only [hopening, ho, Bool.false_eq_true, if_false, if_true]
  rw [if_neg (by omega), hinside, hlast]
  omega

end

namespace Read

variable {s : Cursor}

/-! ## Groups -/

/-- An attribute list is a group. -/
theorem drop_group_attributeList (hs : s.Lexed) (hk : s.kind = .leftBracket)
    (hclean : (attributeList s).2.errors = []) :
    s.tokens.drop (groupLength 0 s.tokens) = (attributeList s).2.tokens := by
  have hclosed := kind_of_attributeList_clean hclean
  rw [attributeList_of_closed hclosed] at hclean ⊢
  set t := (attributes s.afterTarget).2 with ht
  have hopen := Cursor.Reaches.advance s
  have hreach : (advance s).2.Reaches t := (Forward.reaches _).trans (Forward.reaches _)
  have hinside : Covers Balanced (attributeTarget >>= fun _ => attributes) := by
    infer_instance
  obtain ⟨u, hu, hbalanced⟩ :=
    (hinside.covers (advance s).2 (hopen.lexed hs)).covers ((Cursor.Reaches.advance t).clean hclean)
  have hfirst : (advance s).2.tokens = s.ahead := tokens_advance (hk ▸ by decide) hs.endsInEof
  have hlast : (advance t).2.tokens = t.ahead :=
    tokens_advance (hclosed ▸ by decide) ((hopen.trans hreach).lexed hs).endsInEof
  have htokens : s.tokens = s.current :: (u ++ t.current :: t.ahead) := by
    rw [Cursor.tokens, ← hfirst, hu]
    rfl
  have hopener : s.current.kind.isOpener = true := by
    rw [show s.current.kind = .leftBracket from hk]
    rfl
  have hcloser : t.current.kind.isCloser = true := by
    rw [show t.current.kind = .rightBracket from hclosed]
    rfl
  rw [htokens, groupLength_of_balanced hopener hcloser hbalanced, hlast]
  simp

/-- A group is skipped as a whole. -/
theorem drop_group_skipOpened (opened : List (TokenKind × Span)) (hs : EndsInEof s.tokens) :
    s.tokens.drop (groupLength opened.length s.tokens) = (skipOpened opened s).tokens := by
  induction hn : s.size using Nat.strongRecOn generalizing s opened with
  | _ n ih =>
    by_cases hk : s.kind = .eof
    · have hstop : (skipOpened opened s).tokens = s.tokens := by
        rw [skipOpened, Cursor.atEnd, hk, TokenKind.isEof]
        simp only [if_true]
        split <;> rfl
      rw [hstop, Cursor.tokens, groupLength, show s.current.kind = .eof from hk]
      rfl
    · have hnext : s.advance.tokens = s.ahead := tokens_advance hk hs
      have hdepth : (if s.kind.isOpener = true then opened.length + 1
          else if s.kind.isCloser = true then opened.length - 1 else opened.length) =
          (openedAfter opened s).length := by
        unfold openedAfter
        split
        · rfl
        · split <;> simp
      have hlength : groupLength opened.length s.tokens = if (openedAfter opened s).length = 0 then 1
          else 1 + groupLength (openedAfter opened s).length s.ahead := by
        have hend : s.current.kind.isEof = false := TokenKind.isEof_eq_false hk
        rw [← hdepth, Cursor.tokens, groupLength, hend]
        rfl
      rw [skipOpened_of_ends hk hs, hlength]
      cases hopened : openedAfter opened s with
      | nil => exact hnext.symm
      | cons group groups =>
        have hrest := ih _ (hn ▸ size_advance_lt hk hs) (group :: groups)
          ((Cursor.Reaches.advance s).endsInEof hs) rfl
        rw [Nat.add_comm, Cursor.tokens, ← hnext]
        exact hrest

/-- Looking over a group and reading it come to the same place, from every place of a token list:
however the group ends, and also where none starts. -/
theorem tokens_skipGroup (tokens : List Token) (s : Cursor) (i : Nat)
    (hs : s.tokens = (terminated tokens).drop i) :
    (skipGroup s).2.tokens = (terminated tokens).drop (i + s.offsetAfterGroup 0) ∧
      i + s.offsetAfterGroup 0 < (terminated tokens).length := by
  have hends : EndsInEof s.tokens :=
    (endsInEof_terminated tokens).of_suffix (hs ▸ List.drop_suffix i _) s.tokens_ne_nil
  have htokens : (skipGroup s).2.tokens = (terminated tokens).drop (i + s.offsetAfterGroup 0) := by
    rw [← List.drop_drop, ← hs, Cursor.offsetAfterGroup, Nat.zero_add]
    exact (drop_group_skipOpened [] hends).symm
  refine ⟨htokens, Nat.lt_of_not_le fun hle => (skipGroup s).2.tokens_ne_nil ?_⟩
  rw [htokens, List.drop_eq_nil_of_le hle]

/-- Behind a name, a group whose brackets are closed by others, and one that is cut off. -/
theorem tokens_skipGroup_mixed :
    let token (kind : TokenKind) : Token := ⟨kind, .point 0, []⟩
    let tokens := [.identifier "a", .leftBracket, .leftParen, .rightBrace, .rightParen, .leftBrace,
      .comma].map token
    let atGroup : Cursor := ⟨token .leftBracket, (terminated tokens).drop 2, none, 0, []⟩
    let atBrace : Cursor := ⟨token .leftBrace, (terminated tokens).drop 6, none, 0, []⟩
    (skipGroup atGroup).2.tokens = (terminated tokens).drop 5 ∧
      (skipGroup atBrace).2.tokens = (terminated tokens).drop 7 := by
  intro token tokens atGroup atBrace
  exact ⟨(tokens_skipGroup tokens atGroup 1 rfl).1, (tokens_skipGroup tokens atBrace 5 rfl).1⟩

/-! ## Where a type declaration starts -/

/-- The first attribute list is followed by the others. -/
theorem drop_attributesLength_of_group {t : Cursor} (hk : s.kind = .leftBracket)
    (h : s.tokens.drop (groupLength 0 s.tokens) = t.tokens) :
    s.tokens.drop (attributesLength s.tokens) = t.tokens.drop (attributesLength t.tokens) := by
  have hpos : 0 < groupLength 0 s.tokens :=
    groupLength_pos (by rw [show s.current.kind = .leftBracket from hk]; decide) s.ahead
  have hrest : s.ahead.drop (groupLength 0 s.tokens - 1) = t.tokens := by
    rw [← h, Cursor.tokens]
    obtain ⟨n, hn⟩ := Nat.exists_eq_add_of_lt hpos
    rw [show groupLength 0 (s.current :: s.ahead) = n + 1 from by
      rw [Cursor.tokens] at hn; omega]
    rfl
  have hlength : attributesLength s.tokens = groupLength 0 s.tokens + attributesLength t.tokens := by
    have hunfold : attributesLength (s.current :: s.ahead) = groupLength 0 (s.current :: s.ahead) +
        attributesLength (s.ahead.drop (groupLength 0 (s.current :: s.ahead) - 1)) := by
      rw [attributesLength, if_pos (show s.current.kind = .leftBracket from hk)]
    rw [← hrest]
    exact hunfold
  rw [hlength, ← List.drop_drop, h]

/-- A loop that takes a group in each round takes the attribute lists. -/
theorem drop_attributesLength {r : Read Unit} [hf : Forward r]
    (hr : ∀ s : Cursor, s.Lexed → s.kind = .leftBracket → (r s).2.errors = [] →
      s.tokens.drop (groupLength 0 s.tokens) = (r s).2.tokens)
    (hs : s.Lexed) (hclean : (whileDo (·.kind = .leftBracket) r s).2.errors = []) :
    s.tokens.drop (attributesLength s.tokens) = (whileDo (·.kind = .leftBracket) r s).2.tokens := by
  induction hn : s.size using Nat.strongRecOn generalizing s with
  | _ n ih =>
    rw [whileDo_eq] at hclean ⊢
    by_cases hk : s.kind = .leftBracket
    · rw [if_pos (by simpa using hk)] at hclean ⊢
      have hgroup : s.tokens.drop (groupLength 0 s.tokens) = (r s).2.tokens := by
        refine hr s hs hk ?_
        split at hclean
        · exact (Forward.reaches _).clean hclean
        · exact hclean
      have hlt : (r s).2.size < s.size := by
        have hlength := congrArg List.length hgroup
        have hpos : 0 < groupLength 0 s.tokens :=
          groupLength_pos (by rw [show s.current.kind = .leftBracket from hk]; decide) s.ahead
        rw [List.length_drop] at hlength
        simp only [Cursor.tokens, List.length_cons] at hlength hpos
        show (r s).2.ahead.length < s.ahead.length
        omega
      rw [if_pos hlt] at hclean ⊢
      rw [drop_attributesLength_of_group hk hgroup]
      exact ih _ (hn ▸ hlt) ((hf.reaches s).lexed hs) hclean rfl
    · rw [if_neg (by simpa using hk), Cursor.tokens, attributesLength,
        if_neg (show ¬s.current.kind = .leftBracket from hk)]
      rfl

theorem tokens_whileDo_words {list : List String} {r : Read Unit}
    (hr : ∀ s : Cursor, s.kind.isOneOf list = true → (r s).2 = (advance s).2)
    (hs : EndsInEof s.tokens) :
    (whileDo (·.kind.isOneOf list) r s).2.tokens = s.tokens.dropWhile (·.kind.isOneOf list) := by
  induction hn : s.size using Nat.strongRecOn generalizing s with
  | _ n ih =>
    rw [whileDo_eq]
    by_cases hk : s.kind.isOneOf list = true
    · have heof : s.kind ≠ .eof := by
        intro heof
        rw [heof] at hk
        simp [TokenKind.isOneOf, TokenKind.name?] at hk
      have hlt : (advance s).2.size < s.size := size_advance_lt heof hs
      have hnext : (advance s).2.tokens = s.ahead := tokens_advance heof hs
      have hrest := ih _ (hn ▸ hlt) ((Cursor.Reaches.advance s).endsInEof hs) rfl
      rw [if_pos hk, hr s hk, if_pos hlt]
      refine hrest.trans ?_
      rw [show s.advance.tokens = s.ahead from hnext]
      exact (List.dropWhile_cons_of_pos (a := s.current) hk).symm
    · rw [if_neg hk]
      exact (List.dropWhile_cons_of_neg (a := s.current) hk).symm

/-- The loop that lists items goes as far as the one that does not. -/
theorem snd_gatherWhile {goOn : Cursor → Bool} {step : Read (Option α)} :
    (gatherWhile goOn step s).2 = (whileDo goOn ((fun _ => ()) <$> step) s).2 := by
  induction hn : s.size using Nat.strongRecOn generalizing s with
  | _ n ih =>
    rw [whileDo_eq]
    by_cases hgo : goOn s = true
    · rw [gatherWhile_of_go hgo, if_pos hgo]
      by_cases hlt : (step s).2.size < s.size
      · rw [if_pos hlt, if_pos (show (((fun _ => ()) <$> step : Read Unit) s).2.size < s.size from hlt)]
        exact ih _ (hn ▸ hlt) rfl
      · rw [if_neg hlt, if_neg (show ¬(((fun _ => ()) <$> step : Read Unit) s).2.size < s.size from hlt)]
        rfl
    · rw [gatherWhile_of_stop (Bool.eq_false_iff.mpr hgo), if_neg hgo]

theorem peek_of_drop {t : Cursor} {n : Nat} (h : s.tokens.drop n = t.tokens) (m : Nat) :
    s.peek (n + m) = t.peek m := by
  have hlast (s : Cursor) : s.tokens.getLast? = some (s.ahead.getLastD s.current) := by
    rw [Cursor.tokens, List.getLast?_cons, List.getLastD_eq_getLast?]
  have hsame : some (s.ahead.getLastD s.current) = some (t.ahead.getLastD t.current) := by
    rw [← hlast s, ← hlast t, ← h, List.getLast?_drop, if_neg]
    intro hle
    rw [List.drop_eq_nil_of_le hle] at h
    cases h
  rw [Cursor.peek, Cursor.peek, ← h, List.getElem?_drop, Option.some.inj hsame]

/-- After the attribute lists and modifiers stands the keyword of the type. -/
theorem atTypeDeclaration_of_drop {t t' : Cursor}
    (h : s.tokens.drop (attributesLength s.tokens) = t.tokens)
    (h' : t'.tokens = t.tokens.dropWhile (·.kind.isOneOf modifierWords)) :
    s.atTypeDeclaration = t'.typeKeywordAt 0 := by
  have hdrop : s.tokens.drop (attributesLength s.tokens +
      ((s.tokens.drop (attributesLength s.tokens)).takeWhile (·.kind.isOneOf modifierWords)).length) =
      t'.tokens := by
    rw [← List.drop_drop, h, h']
    have hsplit := List.takeWhile_append_dropWhile (p := fun t : Token => t.kind.isOneOf modifierWords)
      (l := t.tokens)
    exact (congrArg (List.drop _) hsplit).symm.trans List.drop_left
  have hpeek (n : Nat) : s.peek (attributesLength s.tokens +
      ((s.tokens.drop (attributesLength s.tokens)).takeWhile
        (·.kind.isOneOf modifierWords)).length + n) = t'.peek n := by
    exact peek_of_drop hdrop n
  have hfirst := hpeek 0
  rw [Nat.add_zero] at hfirst
  show s.typeKeywordAt (attributesLength s.tokens + _) = _
  unfold Cursor.typeKeywordAt
  rw [hpeek 1, hfirst]

/-- Whether a type declaration starts here shows after its attributes and modifiers. -/
theorem atTypeDeclaration_memberHead (hs : s.Lexed) (hclean : (memberHead s).2.errors = []) :
    s.atTypeDeclaration = (memberHead s).2.typeKeywordAt 0 := by
  have hlists := Forward.reaches (r := attributeLists) s
  have hmodifiers := Forward.reaches (r := modifiers) (attributeLists s).2
  have hclean' : (attributeLists s).2.errors = [] := hmodifiers.clean hclean
  refine atTypeDeclaration_of_drop (t := (attributeLists s).2) ?_ ?_
  · rw [attributeLists, snd_gatherWhile] at hclean' ⊢
    exact drop_attributesLength (fun _ => drop_group_attributeList) hs hclean'
  · show (modifiers (attributeLists s).2).2.tokens = _
    rw [snd_gatherWhile]
    refine tokens_whileDo_words (fun s hk => ?_) (hlists.lexed hs).endsInEof
    cases hname : s.kind.name? with
    | none => simp [TokenKind.isOneOf, hname] at hk
    | some name => exact congrArg Prod.snd (ident_of_some hname)

/-! ## What stands before a type -/

/-- Skips attribute lists and modifiers. -/
def skipHead : Read Unit := do
  whileDo (·.kind = .leftBracket) skipGroupOrToken
  whileDo (·.kind.isOneOf modifierWords) skipGroupOrToken

instance : Forward skipHead := by
  unfold skipHead
  infer_instance

/-- The second leg of a loop goes on where the first one stops. -/
theorem whileDo_legs {goOn first : Cursor → Bool} {step : Read Unit} [hf : Forward step]
    (hgo : ∀ s, first s = true → goOn s = true)
    (hlt : ∀ s, EndsInEof s.tokens → first s = true → (step s).2.size < s.size)
    (hs : EndsInEof s.tokens) :
    whileDo goOn step (whileDo first step s).2 = whileDo goOn step s := by
  induction hn : s.size using Nat.strongRecOn generalizing s with
  | _ n ih =>
    by_cases hfirst : first s = true
    · have hsize := hlt s hs hfirst
      rw [whileDo_eq first, if_pos hfirst, if_pos hsize, ih _ (hn ▸ hsize) ((hf.reaches s).endsInEof hs) rfl,
        whileDo_eq goOn step s, if_pos (hgo s hfirst), if_pos hsize]
    · rw [whileDo_eq first, if_neg hfirst]

theorem ne_eof_of_isOneOf {list : List String} (hk : s.kind.isOneOf list = true) : s.kind ≠ .eof := by
  intro heof
  simp [heof, TokenKind.isOneOf, TokenKind.name?] at hk

/-- A statement may start with attribute lists and modifiers as well. -/
theorem skipThroughSemicolon_skipHead (hs : EndsInEof s.tokens) :
    skipThroughSemicolon (skipHead s).2 = skipThroughSemicolon s := by
  have hlists := Forward.reaches (r := whileDo (·.kind = .leftBracket) skipGroupOrToken) s
  have hsame : whileDo (fun s => !s.atEnd && s.kind ≠ .semicolon && s.kind ≠ .rightBrace)
      skipGroupOrToken (skipHead s).2 = whileDo (fun s => !s.atEnd && s.kind ≠ .semicolon &&
        s.kind ≠ .rightBrace) skipGroupOrToken s := by
    rw [skipHead, bind_apply, whileDo_legs (fun s hk => ?_) (fun s hs hk => ?_) (hlists.endsInEof hs),
      whileDo_legs (fun s hk => ?_) (fun s hs hk => ?_) hs]
    · have hk : s.kind = .leftBracket := by simpa using hk
      simp [Cursor.atEnd, hk, TokenKind.isEof]
    · exact size_skipGroupOrToken_lt hs (by simp_all)
    · cases hkind : s.kind <;> simp_all [TokenKind.isOneOf, TokenKind.name?, Cursor.atEnd, TokenKind.isEof]
    · exact size_skipGroupOrToken_lt hs (ne_eof_of_isOneOf hk)
  rw [skipThroughSemicolon, bind_apply, hsame]
  rfl

theorem atTypeDeclaration_skipHead (hs : s.Lexed) (hclean : (skipHead s).2.errors = []) :
    s.atTypeDeclaration = (skipHead s).2.typeKeywordAt 0 := by
  have hlists := Forward.reaches (r := whileDo (·.kind = .leftBracket) skipGroupOrToken) s
  have hmods := Forward.reaches (r := whileDo (·.kind.isOneOf modifierWords) skipGroupOrToken)
    (whileDo (·.kind = .leftBracket) skipGroupOrToken s).2
  refine atTypeDeclaration_of_drop
    (t := (whileDo (·.kind = .leftBracket) skipGroupOrToken s).2) ?_ ?_
  · refine drop_attributesLength (fun s hs hk _ => ?_) hs (hmods.clean hclean)
    rw [skipGroupOrToken_eq, if_pos (by rw [hk]; rfl)]
    exact drop_group_skipOpened [] hs.endsInEof
  · refine tokens_whileDo_words (fun s hk => ?_) (hlists.lexed hs).endsInEof
    rw [skipGroupOrToken_eq, if_neg]
    · rfl
    · intro hopener
      cases hkind : s.kind <;> simp_all [TokenKind.isOneOf, TokenKind.name?, TokenKind.isOpener]

end Read

end SettingsLint
