import Mathlib.Data.List.Chain
import SettingsLint.Proofs.Reading.DeclarationParts
import SettingsLint.Proofs.Reading.Segments

/-! # The brackets of a source without errors

Where the grammar asks for a closing bracket, it is the one that belongs to the opening one. Code is
skipped with less care: a group ends where as many brackets were closed as opened, of whatever kind
they are, and a parenthesis or square bracket that closes nothing is stepped over. So a source
without errors is `Skimmed`, but its brackets need not be `Matched`.
-/

set_option synthInstance.maxSize 1024

namespace SettingsLint

variable {u v w closers : List TokenKind} {n : Nat} {k : TokenKind}

/-! ## Bracket structures -/

/-- The brackets are nested, and each one is closed by its own kind. -/
inductive Matched : List TokenKind → Prop
  | nil : Matched []
  | plain {k : TokenKind} {w : List TokenKind} (plain : k.isPlain = true) (rest : Matched w) :
      Matched (k :: w)
  | pair {o c : TokenKind} {u w : List TokenKind} (kinds : o.closing? = some c) (inside : Matched u)
      (rest : Matched w) : Matched (o :: (u ++ c :: w))

/-- The tokens close `n` groups more than they open. A parenthesis or square bracket may also be
    left out. -/
inductive Loose : Nat → List TokenKind → Prop
  | nil : Loose 0 []
  | plain {n : Nat} {k : TokenKind} {w : List TokenKind} (plain : k.isPlain = true) (rest : Loose n w) :
      Loose n (k :: w)
  | stray {n : Nat} {k : TokenKind} {w : List TokenKind} (kind : k = .rightParen ∨ k = .rightBracket)
      (rest : Loose n w) : Loose n (k :: w)
  | opener {n : Nat} {k : TokenKind} {w : List TokenKind} (opens : k.isOpener = true)
      (rest : Loose (n + 1) w) : Loose n (k :: w)
  | closer {n : Nat} {k : TokenKind} {w : List TokenKind} (closes : k.isCloser = true)
      (rest : Loose n w) : Loose (n + 1) (k :: w)

/-- The constraints on a type parameter: only groups in parentheses are told apart in them. -/
inductive Clause : List TokenKind → Prop
  | nil : Clause []
  | token {k : TokenKind} {w : List TokenKind}
      (kind : k ∉ [.leftParen, .leftBrace, .semicolon, .fatArrow, .eof]) (rest : Clause w) : Clause (k :: w)
  | group {u w : List TokenKind} (inside : Closes 1 u) (rest : Clause w) :
      Clause (.leftParen :: (u ++ w))

/-- What the tokens of a source look like that is read without an error. -/
inductive Skimmed : List TokenKind → Prop
  | nil : Skimmed []
  | plain {k : TokenKind} {w : List TokenKind} (plain : k.isPlain = true) (eof : k ≠ .eof)
      (rest : Skimmed w) : Skimmed (k :: w)
  /-- Brackets of the grammar. -/
  | pair {o c : TokenKind} {u w : List TokenKind} (kinds : o.closing? = some c) (inside : Skimmed u)
      (rest : Skimmed w) : Skimmed (o :: (u ++ c :: w))
  /-- A group that is skipped. -/
  | group {o : TokenKind} {u w : List TokenKind} (opens : o.isOpener = true) (inside : Closes 1 u)
      (rest : Skimmed w) : Skimmed (o :: (u ++ w))
  /-- A bracket that is skipped though it closes nothing. -/
  | stray {k : TokenKind} {w : List TokenKind} (kind : k = .rightParen ∨ k = .rightBracket)
      (rest : Skimmed w) : Skimmed (k :: w)
  | clause {u w : List TokenKind} (inside : Clause u) (rest : Skimmed w) :
      Skimmed (.identifier "where" :: (u ++ w))
  /-- The type argument in a qualified name of a member is any token. -/
  | qualifier {k : TokenKind} {w : List TokenKind} (eof : k ≠ .eof) (rest : Skimmed w) :
      Skimmed (.less :: k :: .greater :: w)

theorem Matched.append (hu : Matched u) (hv : Matched v) : Matched (u ++ v) := by
  induction hu with
  | nil => exact hv
  | plain plain _ ih => exact .plain plain ih
  | pair kinds inside _ _ ih =>
    rw [List.cons_append, List.append_assoc]
    exact .pair kinds inside ih

theorem Clause.append (hu : Clause u) (hv : Clause v) : Clause (u ++ v) := by
  induction hu with
  | nil => exact hv
  | token kind _ ih => exact .token kind ih
  | group inside _ ih =>
    rw [List.cons_append, List.append_assoc]
    exact .group inside ih

theorem Skimmed.append (hu : Skimmed u) (hv : Skimmed v) : Skimmed (u ++ v) := by
  induction hu with
  | nil => exact hv
  | plain plain eof _ ih => exact .plain plain eof ih
  | pair kinds inside _ _ ih =>
    rw [List.cons_append, List.append_assoc]
    exact .pair kinds inside ih
  | group opens inside _ ih =>
    rw [List.cons_append, List.append_assoc]
    exact .group opens inside ih
  | stray kind _ ih => exact .stray kind ih
  | clause inside _ ih =>
    rw [List.cons_append, List.append_assoc]
    exact .clause inside ih
  | qualifier eof _ ih => exact .qualifier eof ih

theorem Loose.append {m : Nat} (hu : Loose n u) (hv : Loose m v) :
    Loose (n + m) (u ++ v) := by
  induction hu with
  | nil => rwa [Nat.zero_add]
  | plain plain _ ih => exact .plain plain ih
  | stray kind _ ih => exact .stray kind ih
  | opener opens _ ih =>
    refine .opener opens ?_
    rwa [Nat.add_right_comm]
  | closer closes _ ih =>
    rw [Nat.add_right_comm]
    exact .closer closes ih

theorem Closes.loose (h : Closes n u) : Loose n u := by
  induction h with
  | nil => exact .nil
  | plain plain _ _ ih => exact .plain plain ih
  | opener opens _ ih => exact .opener opens ih
  | closer closes _ ih => exact .closer closes ih

/-! ### Sources without the exceptions -/

/-- No constraints start among the tokens, and no bracket stands right after a `<`. -/
def Unexceptional (w : List TokenKind) : Prop :=
  .identifier "where" ∉ w ∧ w.IsChain fun k next => k = .less → next.isPlain = true

instance (w : List TokenKind) : Decidable (Unexceptional w) := inferInstanceAs (Decidable (_ ∧ _))

theorem Unexceptional.of_infix (h : Unexceptional w) (hu : u <:+: w) :
    Unexceptional u :=
  ⟨fun hmem => h.1 (hu.subset hmem), List.IsChain.infix h.2 hu⟩

/-- Without the exceptions every group is closed, and every closing brace closes one. -/
theorem Skimmed.loose (h : Skimmed w) (hw : Unexceptional w) : Loose 0 w := by
  induction h with
  | nil => exact .nil
  | plain plain _ _ ih => exact .plain plain (ih (hw.of_infix (List.suffix_cons _ _).isInfix))
  | stray kind _ ih => exact .stray kind (ih (hw.of_infix (List.suffix_cons _ _).isInfix))
  | @pair o c u w kinds _ _ ihInside ih =>
    obtain ⟨opens, closes⟩ := TokenKind.isOpener_of_closing? kinds
    have hinside : u <:+: o :: (u ++ c :: w) := ⟨[o], c :: w, by simp⟩
    have hrest : w <:+: o :: (u ++ c :: w) := ⟨o :: (u ++ [c]), [], by simp⟩
    refine .opener opens ?_
    exact (ihInside (hw.of_infix hinside)).append (.closer closes (ih (hw.of_infix hrest)))
  | @group o u w opens inside _ ih =>
    have hrest : w <:+: o :: (u ++ w) := ⟨o :: u, [], by simp⟩
    exact .opener opens (inside.loose.append (ih (hw.of_infix hrest)))
  | clause => exact absurd List.mem_cons_self hw.1
  | @qualifier k w _ _ ih =>
    have hplain : k.isPlain = true := (List.isChain_cons_cons.mp hw.2).1 rfl
    have hrest : w <:+: .less :: k :: .greater :: w := ⟨[.less, k, .greater], [], by simp⟩
    exact .plain rfl (.plain hplain (.plain rfl (ih (hw.of_infix hrest))))

/-! ### Checking -/

/-- Do the tokens close the brackets that are open, the innermost first, and all that they open? -/
def closesAll : List TokenKind → List TokenKind → Bool
  | closers, [] => closers.isEmpty
  | closers, k :: w =>
    match k.closing? with
    | some c => closesAll (c :: closers) w
    | none => if k.isCloser then closers.head? = some k && closesAll closers.tail w else closesAll closers w

theorem closesAll_opener {c : TokenKind}
    (h : k.closing? = some c) : closesAll closers (k :: w) = closesAll (c :: closers) w := by
  rw [closesAll, h]

theorem closesAll_closer
    (h : k.isCloser = true) :
    closesAll closers (k :: w) = (closers.head? = some k && closesAll closers.tail w) := by
  have hnone : k.closing? = none := by cases k <;> cases h <;> rfl
  rw [closesAll, hnone]
  exact if_pos h

theorem closesAll_plain
    (h : k.isPlain = true) : closesAll closers (k :: w) = closesAll closers w := by
  have hnone : k.closing? = none ∧ ¬ k.isCloser = true := by
    cases k <;> simp_all [TokenKind.isPlain, TokenKind.closing?, TokenKind.isOpener]
  rw [closesAll, hnone.1]
  exact if_neg hnone.2

theorem Matched.closesAll_append (h : Matched u) (closers w : List TokenKind) :
    closesAll closers (u ++ w) = closesAll closers w := by
  induction h generalizing closers w with
  | nil => rfl
  | plain plain _ ih => rw [List.cons_append, closesAll_plain plain, ih]
  | pair kinds _ _ ihInside ih =>
    rw [List.cons_append, List.append_assoc, List.cons_append, closesAll_opener kinds, ihInside,
      closesAll_closer (TokenKind.isOpener_of_closing? kinds).2, ih]
    simp

/-- The tokens are matched but for the closing brackets between them. -/
def MatchedBetween : List TokenKind → List TokenKind → Prop
  | [], w => Matched w
  | c :: closers, w => ∃ u v, w = u ++ c :: v ∧ Matched u ∧ MatchedBetween closers v

theorem MatchedBetween.append (hu : Matched u)
    (hv : MatchedBetween closers v) : MatchedBetween closers (u ++ v) := by
  cases closers with
  | nil => exact hu.append hv
  | cons c closers =>
    obtain ⟨a, b, rfl, ha, hb⟩ := hv
    exact ⟨u ++ a, b, by rw [List.append_assoc], hu.append ha, hb⟩

theorem matchedBetween_of_closesAll (h : closesAll closers w = true) :
    MatchedBetween closers w := by
  induction w generalizing closers with
  | nil =>
    obtain rfl : closers = [] := List.isEmpty_iff.mp h
    exact .nil
  | cons k w ih =>
    cases hk : k.closing? with
    | some c =>
      rw [closesAll_opener hk] at h
      obtain ⟨u, v, rfl, hu, hv⟩ := ih h
      have hpair : Matched (k :: (u ++ c :: [])) := .pair hk hu .nil
      have hsplit : k :: (u ++ c :: v) = (k :: (u ++ c :: [])) ++ v := by simp
      rw [hsplit]
      exact .append hpair hv
    | none =>
      by_cases hcloser : k.isCloser = true
      · rw [closesAll_closer hcloser] at h
        cases closers with
        | nil => simp at h
        | cons c closers =>
          obtain ⟨rfl, hrest⟩ : c = k ∧ closesAll closers w = true := by simpa using h
          exact ⟨[], w, rfl, .nil, ih hrest⟩
      · have hplain : k.isPlain = true := by
          cases k <;> simp_all [TokenKind.isPlain, TokenKind.closing?, TokenKind.isOpener]
        rw [closesAll_plain hplain] at h
        exact .append (.plain hplain .nil) (ih h)

theorem matched_iff_closesAll : Matched w ↔ closesAll [] w = true := by
  constructor
  · intro h
    have hchecked := h.closesAll_append [] []
    rw [List.append_nil] at hchecked
    exact hchecked
  · exact matchedBetween_of_closesAll

instance (w : List TokenKind) : Decidable (Matched w) := decidable_of_iff _ matched_iff_closesAll.symm

/-- Braces alone cannot be paired wrongly. -/
theorem Loose.closesAll_braces (h : Loose n w)
    (hbraces : ∀ k ∈ w, k.isPlain = true ∨ k = .leftBrace ∨ k = .rightBrace) :
    closesAll (List.replicate n .rightBrace) w = true := by
  induction h with
  | nil => rfl
  | plain plain _ ih =>
    rw [closesAll_plain plain]
    exact ih fun k hk => hbraces k (List.mem_cons_of_mem _ hk)
  | @stray _ k _ kind _ _ =>
    rcases hbraces k List.mem_cons_self with h | rfl | rfl
    · rcases kind with rfl | rfl <;> cases h
    · cases kind <;> contradiction
    · cases kind <;> contradiction
  | @opener n k _ opens _ ih =>
    obtain rfl : k = .leftBrace := by
      rcases hbraces k List.mem_cons_self with h | rfl | rfl
      · simp [TokenKind.isPlain, opens] at h
      · rfl
      · cases opens
    exact ih fun k hk => hbraces k (List.mem_cons_of_mem _ hk)
  | @closer n k _ closes _ ih =>
    obtain rfl : k = .rightBrace := by
      rcases hbraces k List.mem_cons_self with h | rfl | rfl
      · simp [TokenKind.isPlain, closes] at h
      · cases closes
      · rfl
    rw [closesAll_closer rfl, List.replicate_succ, List.tail_cons,
      ih fun k hk => hbraces k (List.mem_cons_of_mem _ hk)]
    simp

/-! ## Skipping -/

/-- The kinds of the tokens are skimmed. -/
def Skims (u : List Token) : Prop := Skimmed (u.map (·.kind))

instance : FollowsBrackets Skims where
  nil := .nil
  append hu hv := by
    unfold Skims
    rw [List.map_append]
    exact Skimmed.append hu hv
  plain hk heof := .plain hk heof .nil
  pair {o c u} hkinds hu := by
    unfold Skims
    rw [List.map_cons, List.map_append]
    exact .pair hkinds hu .nil
  group {o u} hopens hcloses := by
    have hgroup := Skimmed.group hopens hcloses .nil
    rwa [List.append_nil] at hgroup

instance : Composes (fun u => Clause (u.map (·.kind))) where
  nil := .nil
  append hu hv := by
    rw [List.map_append]
    exact hu.append hv

namespace Read

variable {s : Cursor}

/-- Only a brace that closes nothing is not skipped. -/
theorem skims_skipGroupOrToken (hk : s.kind ≠ .rightBrace) : CoversAt Skims skipGroupOrToken s := by
  by_cases hcloser : s.kind.isCloser = true
  · have hstray : s.kind = .rightParen ∨ s.kind = .rightBracket := by
      cases h : s.kind <;> simp_all [TokenKind.isCloser]
    have heof : s.kind ≠ .eof := by rcases hstray with h | h <;> simp [h]
    refine .ite coversAt_skipGroup fun _ hs => ⟨.advance s, fun _ => ?_⟩
    refine ⟨[s.current], ?_, .stray hstray .nil⟩
    exact congrArg (s.current :: ·) (tokens_advance heof hs.endsInEof).symm
  · exact coversAt_skipGroupOrToken (by simpa using hcloser)

instance : Covers Skims skipThroughSemicolon :=
  .bind (.whileDo fun s hgo => skims_skipGroupOrToken (by simp_all)) inferInstance

instance : Covers Skims recoverMember :=
  .bind (.whileDo fun s hgo => skims_skipGroupOrToken (by simp_all)) fun _ => ⟨fun s =>
    .ite (c := s.kind = .leftBrace) (fun hk => (coversAt_skipGroup (by rw [hk]; rfl)).on)
      fun _ => Covers.covers s⟩

instance : Covers Skims skipEnumMembers :=
  .whileDo fun s hgo => skims_skipGroupOrToken (by simp_all)

instance : Covers Skims skipBody := by
  refine .bind (.whileDo fun s hgo => skims_skipGroupOrToken (by simp_all)) fun _ => ⟨fun s => ?_⟩
  show CoversAt Skims (match s.kind with
    | .leftBrace => _
    | .fatArrow => _
    | .semicolon => _
    | _ => _) s
  split
  case h_1 hk => exact coversAt_skipGroup (by rw [hk]; rfl)
  case h_3 hk => exact (coversAt_advance (by rw [hk]; rfl)).on
  all_goals exact Covers.covers s

/-- In the constraints only parentheses are groups. -/
theorem clause_skipConstraint (hend : s.kind ∉ [.leftBrace, .semicolon, .fatArrow, .eof]) :
    CoversAt (fun u => Clause (u.map (·.kind)))
      (do if (← kind) = .leftParen then skipGroup else let _ ← advance) s := by
  refine .ite (fun hk hs => ⟨Forward.reaches s, fun hclean => ?_⟩)
    fun hk hs => ⟨.advance s, fun _ => ?_⟩
  · obtain ⟨u, hu, hcloses⟩ := closes_skipGroup (by rw [hk]; rfl) hs.endsInEof hclean
    refine ⟨s.current :: u, hu, ?_⟩
    have hgroup := Clause.group hcloses .nil
    rw [List.append_nil, ← hk] at hgroup
    exact hgroup
  · have heof : s.kind ≠ .eof := fun heof => hend (by simp [heof])
    refine ⟨[s.current], ?_, .token ?_ .nil⟩
    · exact congrArg (s.current :: ·) (tokens_advance heof hs.endsInEof).symm
    · intro hmem
      rcases List.mem_cons.mp hmem with hparen | hmem
      · exact hk hparen
      · exact hend hmem

theorem skims_clause {r : Read α} (hword : s.atWord "where" = true)
    (h : Covers (fun u => Clause (u.map (·.kind))) r) : CoversAt Skims (advance >>= fun _ => r) s := by
  intro hs
  have hname : s.kind.name? = some "where" := by
    simpa [Cursor.atWord, TokenKind.isWord] using hword
  have hopen : s.Reaches (advance s).2 := .advance s
  have hrest := h.covers (advance s).2 (hopen.lexed hs)
  refine ⟨hopen.trans hrest.toReaches, fun hclean => ?_⟩
  obtain ⟨u, hu, hclause⟩ := hrest.covers hclean
  refine ⟨s.current :: u, ?_, ?_⟩
  · rw [Cursor.tokens, ← tokens_advance (isPlain_of_name hname).2 hs.endsInEof, hu]
    rfl
  · have hskimmed := Skimmed.clause hclause .nil
    rw [List.append_nil, ← TokenKind.eq_identifier hname] at hskimmed
    exact hskimmed

instance : Covers Skims skipConstraints := by
  refine .whileDo fun s hword => skims_clause hword (.whileDo fun s hgo => clause_skipConstraint ?_)
  simp only [Cursor.atEnd] at hgo
  cases hk : s.kind <;> simp_all [TokenKind.isEof]

/-! ## Parts of declarations -/

section

variable {P : List Token → Prop} [FollowsBrackets P]

instance (word : String) : Covers P (eatWord word) :=
  ⟨fun s => .ite (c := s.atWord word = true)
    (fun hword => (coversAt_advance (isPlain_of_atWord hword).1).on) fun _ => Covers.covers s⟩

instance (list : List String) (what : String) : Covers P (words list what) :=
  .gatherWhile fun s _ => Covers.covers s

instance (first : Span) (mods : List Ident) (type : TypeExpr) : Covers P (parameterRest first mods type) :=
  .bind inferInstance fun o => by cases o <;> infer_instance

def parameters : Read (List Parameter) := do
  if (← kind) = .rightParen then return []
  else
    gather do
      let item ← parameter
      return (item, (← eat .comma).isSome)

/-- The parenthesis that closes a list of parameters. -/
def closeParameters (parameters : List Parameter) : Read (List Parameter) := do
  if (← expect .rightParen "`)`").isNone then
    skipArgument
    let _ ← eat .rightParen
  return parameters

instance : Forward parameters := by
  unfold parameters
  infer_instance

instance (parameters : List Parameter) : Forward (closeParameters parameters) := by
  unfold closeParameters
  infer_instance

theorem parameterList_of_paren (hk : s.kind = .leftParen) :
    parameterList s = (advance >>= fun _ => parameters >>= closeParameters) s := by
  rw [parameterList, bind_apply, expect_of_eq hk]
  show (eat .rightParen >>= _ : Read (List Parameter)) s.advance = _
  rw [bind_apply]
  by_cases hclose : s.advance.kind = .rightParen
  · have hnone : parameters s.advance = ([], s.advance) := by
      rw [parameters, kind_bind, if_pos hclose]
      rfl
    rw [eat_of_eq hclose]
    show _ = closeParameters (parameters s.advance).1 (parameters s.advance).2
    rw [hnone, closeParameters, bind_apply, expect_of_eq hclose]
    rfl
  · have hsome : parameters s.advance = gather (do
        let item ← parameter
        return (item, (← eat .comma).isSome)) s.advance := by
      rw [parameters, kind_bind, if_neg hclose]
    rw [eat_of_ne hclose]
    show _ = closeParameters (parameters s.advance).1 (parameters s.advance).2
    rw [hsome]
    rfl

instance : Covers P parameterList := by
  refine ⟨fun s => ?_⟩
  by_cases hk : s.kind = .leftParen
  · have : Covers P parameters := by
      unfold parameters
      infer_instance
    exact .congr (parameterList_of_paren hk) (.bracketed (by rw [hk]; rfl)
      fun _ items => readsClosing_expect nofun)
  · refine .of_fault ?_
    rw [parameterList, bind_apply, expect_of_ne hk]
    exact errors_ne_nil_of_report _ _

instance : Covers P typeParameterName :=
  .bind inferInstance fun o => by cases o <;> infer_instance

instance : Covers P typeParameter := by
  refine .bind inferInstance fun _ => ⟨fun s => .ite
    (fun hword => (coversAt_advance ?_).on) fun _ => Covers.covers s⟩
  rcases Bool.or_eq_true_iff.mp hword with hword | hword <;> exact (isPlain_of_atWord hword).1

instance : Covers P typeParameters := by
  unfold typeParameters
  infer_instance

instance : Covers P baseTypes := by
  have (type : TypeExpr) : Covers P (do
      if (← kind) = .leftParen then skipGroup
      return (some type, (← eat .comma).isSome)) := ⟨fun s => .ite
    (fun hk => (coversAt_skipGroup (by rw [hk]; rfl)).on) fun _ => Covers.covers s⟩
  unfold baseTypes
  infer_instance

set_option synthInstance.maxSize 4096 in
instance : Covers P declarationKind := by
  unfold declarationKind
  infer_instance

end

instance (first : Span) (attributes : List AttributeList) (mods : List Ident) :
    Covers Skims (typeHeader first attributes mods) := by
  refine .bind inferInstance fun o => ?_
  cases o with
  | none => infer_instance
  | some kind => exact .bind inferInstance fun o => by cases o <;> infer_instance

/-! ## Members -/

theorem tokens_advance_of_cons {t : Token} {u : List Token} (hs : s.Lexed) (h : s.tokens = t :: u)
    (ht : t.kind ≠ .eof) : (advance s).2.Lexed ∧ (advance s).2.tokens = u := by
  obtain ⟨rfl, rfl⟩ : s.current = t ∧ s.ahead = u := List.cons.inj h
  exact ⟨(Cursor.Reaches.advance s).lexed hs, tokens_advance ht hs.endsInEof⟩

/-- Only at the end of the source is there no token two places ahead. -/
theorem exists_of_peek_two {kind : TokenKind} (hs : s.Lexed) (h : s.peek 2 = kind) (heof : kind ≠ .eof) :
    ∃ t u rest, s.tokens = s.current :: t :: u :: rest ∧ t.kind ≠ .eof ∧ u.kind = kind := by
  obtain ⟨last, hlast, hend⟩ := hs.endsInEof
  rw [Cursor.tokens] at hlast
  unfold Cursor.peek Cursor.tokens at h
  match hahead : s.ahead with
  | [] =>
    rw [hahead] at h hlast
    cases hlast
    exact absurd (h.symm.trans hend) heof
  | [t] =>
    rw [hahead] at h hlast
    cases hlast
    exact absurd (h.symm.trans hend) heof
  | t :: u :: rest =>
    rw [hahead] at h
    obtain ⟨text, hsuffix⟩ := hs
    have hordered := (Token.laid_lexToEnd text).ordered.of_suffix hsuffix
    rw [Cursor.tokens, hahead] at hordered ⊢
    exact ⟨t, u, rest, rfl, (hordered.filled t (by simp)).1, h⟩

instance : Covers Skims skipQualifierArgument := by
  refine ⟨fun s => .ite
    (fun hk hs => ⟨Forward.reaches s, fun _ => ?_⟩) fun _ => Covers.covers s⟩
  obtain ⟨⟨hless, hgreater⟩, -⟩ : (s.kind = .less ∧ s.peek 2 = .greater) ∧ s.peek 3 = .dot := by
    simpa using hk
  obtain ⟨k, g, rest, htokens, hkeof, hg⟩ := exists_of_peek_two hs hgreater nofun
  have hone := tokens_advance_of_cons hs htokens (by rw [← Cursor.kind, hless]; exact nofun)
  have htwo := tokens_advance_of_cons hone.1 hone.2 hkeof
  have hthree := tokens_advance_of_cons htwo.1 htwo.2 (by rw [hg]; exact nofun)
  refine ⟨[s.current, k, g], ?_, ?_⟩
  · exact htokens.trans (congrArg (s.current :: k :: g :: ·) hthree.2.symm)
  · have hqualifier := Skimmed.qualifier hkeof .nil
    rw [← hg, ← hless] at hqualifier
    exact hqualifier

instance : Covers Skims memberName := by
  refine .bind inferInstance fun o => ?_
  cases o with
  | none => infer_instance
  | some name =>
    refine .bind inferInstance fun _ => .bind (.gatherWhile fun s hgo => ?_) inferInstance
    have hk : s.kind = .dot := by simp_all
    exact (coversAt_advance (by rw [hk]; rfl)).on

instance (first : Span) (mods : List Ident) (typeName : String) :
    Covers Skims (constructor first mods typeName) := by
  unfold constructor
  infer_instance

instance : Covers Skims skipMemberRest := by
  refine ⟨fun s => .get_bind ?_⟩
  split
  case h_1 hk => exact (coversAt_skipGroup (by rw [hk]; rfl)).on
  all_goals exact Covers.covers s

section

variable (first : Span) (attributes : List AttributeList) (mods : List Ident) (type : TypeExpr)

instance : Covers Skims (namedMember first attributes mods type) :=
  .bind inferInstance fun o => by cases o <;> infer_instance

instance : Covers Skims (memberRest first attributes mods type) := by
  unfold memberRest
  infer_instance

instance (typeName : String) : Covers Skims (plainMember typeName first attributes mods) := by
  unfold plainMember
  infer_instance

end

instance : Covers Skims memberHead := by
  unfold memberHead
  infer_instance

section

variable {nestedType : TypeReader}
  [h : ∀ first attributes mods, Covers Skims (nestedType first attributes mods)] (typeName : String)

instance : Covers Skims (member nestedType typeName) := by
  refine ⟨fun s => ?_⟩
  by_cases htype : (memberHead s).2.typeKeywordAt 0 = true
  · exact .congr (member_of_type nestedType typeName htype) (Covers.covers s)
  · exact .congr (member_of_plain htype) (Covers.covers s)

variable [∀ first attributes mods, Forward (nestedType first attributes mods)]
  (htakes : ∀ first attributes mods, Takes (nestedType first attributes mods))

include htakes

/-- A member takes a token, so none is stepped over. -/
theorem skims_memberStep : Covers Skims (memberStep nestedType typeName) := by
  refine ⟨fun s => ?_⟩
  by_cases hk : s.kind = .semicolon
  · exact .congr (memberStep_of_semicolon nestedType typeName hk) (coversAt_advance (by rw [hk]; rfl)).on
  · refine fun hs => ⟨Forward.reaches s, fun hclean => ?_⟩
    have hmember : (member nestedType typeName s).2.errors = [] := by
      rw [memberStep_of_ne hk] at hclean
      split at hclean
      · exact (Cursor.Reaches.advance _).clean hclean
      · exact hclean
    obtain ⟨text, hsuffix⟩ := id hs
    have hordered := (Token.laid_lexToEnd text).ordered.of_suffix hsuffix
    have hlt := takes_member htakes s hs.endsInEof hmember
    rw [memberStep_eq_member typeName hordered hk hlt]
    exact (Covers.covers s hs).covers hmember

omit htakes in
theorem readsClosing_closeBody (opening : Span) (items : List Member) :
    ReadsClosing Skims .rightBrace (closeBody opening items) := by
  intro s hs hclean
  have hk := kind_of_closeBody_clean hclean
  refine ⟨hk, [], ?_, .nil⟩
  rw [closeBody_of_brace hk]
  exact congrArg (s.current :: ·) (tokens_advance (by simp [hk]) hs.endsInEof).symm

theorem skims_typeBody (kind : DeclarationKind) : Covers Skims (typeBody nestedType kind typeName) := by
  refine ⟨fun s hs => ⟨Forward.reaches s, fun hclean => ?_⟩⟩
  rcases kind_of_typeBody_clean hclean with hk | hk
  · have : Covers Skims (members nestedType typeName) := by
      exact .gatherWhile fun s _ => (skims_memberStep typeName htakes).covers s
    have : Covers Skims (typeItems nestedType kind typeName) := by
      unfold typeItems
      infer_instance
    exact (CoversAt.congr (typeBody_of_brace nestedType kind typeName hk) (.bracketed
      (by rw [hk]; rfl) readsClosing_closeBody) hs).covers
      hclean
  · rw [typeBody_of_semicolon nestedType kind typeName hk]
    exact ⟨[], rfl, .nil⟩

omit typeName in
theorem skims_typeRest (first : Span) (attributes : List AttributeList) (mods : List Ident) :
    Covers Skims (typeRest nestedType first attributes mods) := by
  refine .bind inferInstance fun o => ?_
  cases o with
  | none => infer_instance
  | some header => exact .bind (skims_typeBody _ htakes _) inferInstance

end

instance (levels : Nat) (first : Span) (attributes : List AttributeList) (mods : List Ident) :
    Covers Skims (typeRestWithin levels first attributes mods) := by
  induction levels generalizing first attributes mods with
  | zero =>
    unfold typeRestWithin
    infer_instance
  | succ levels ih =>
    have := skims_typeRest (takes_typeRestWithin levels) first attributes mods
    unfold typeRestWithin
    infer_instance

/-! ## Units -/

instance : Covers Skims usingAlias := by
  refine ⟨fun s => .ite (fun h => ?_) fun _ =>
    Covers.covers s⟩
  obtain ⟨hname, hpeek⟩ : s.atName = true ∧ s.peek 1 = .equals := by simpa using h
  obtain ⟨name, hk⟩ := Option.isSome_iff_exists.mp hname
  refine .congr (q := advance >>= fun first => advance >>= fun _ => pure (.ofAlias ⟨name, first⟩)) ?_
    (coversAt_advance_advance (isPlain_of_name hk) (by rw [hpeek]; rfl))
  rw [bind_apply, ident_of_some hk]
  rfl

instance : Covers Skims usingDirective := by
  unfold usingDirective usingKind
  infer_instance

instance : Covers Skims namespaceName := by
  refine .bind inferInstance fun o => by cases o <;> infer_instance

/-- A statement takes a token, so none is stepped over. -/
theorem skims_skipStatement (heof : s.kind ≠ .eof) (hk : s.kind ≠ .rightBrace) :
    CoversAt Skims skipStatement s := by
  have hpart : CoversAt Skims (statementPart s) s ∧ TakesAt (statementPart s) s := by
    unfold statementPart
    split
    case isTrue hopen => exact ⟨coversAt_skipGroup (by rw [hopen]; rfl), takesAt_skipGroup heof⟩
    case isFalse => exact ⟨Covers.covers s, takesAt_skipThroughSemicolon heof hk⟩
  refine fun hs => ⟨Forward.reaches s, fun hclean => ?_⟩
  rw [skipStatement_eq] at hclean ⊢
  have hclean' : (statementPart s s).2.errors = [] := by
    split at hclean
    · exact (Cursor.Reaches.advance _).clean hclean
    · exact hclean
  rw [if_neg (Nat.ne_of_lt (hpart.2 hs.endsInEof hclean'))]
  exact (hpart.1 hs).covers hclean'

theorem readsClosing_scopeEnd (name : List Ident) (first : Span) (items : List UnitItem) :
    ReadsClosing Skims .rightBrace (scopeEnd name first items) := fun s =>
  readsClosing_expect (f := fun o => do
      if o.isNone then report (.unclosed '\x7b') first
      let _ ← eat .semicolon
      let whole ← spanFrom first
      return some (UnitItem.member (.scope ⟨name, false, (UnitItem.assemble s.previousStop items).1, whole⟩
        (UnitItem.assemble s.previousStop items).2))) TokenKind.noConfusion s

/-- The items that a reader of blocks finds. -/
def blockItems (block : Read (Option (List UnitItem))) : Read (List UnitItem) :=
  (fun items => items.getD []) <$> block

section

variable {block : Read (Option (List UnitItem))} [Forward block] [h : Covers Skims block]
  (hsome : ∀ s, (block s).2.errors = [] → (block s).1 ≠ none)

include hsome

/-- The items in the braces of a namespace. -/
theorem skims_braces (name : List Ident) (first : Span) (hk : s.kind = .leftBrace) :
    CoversAt Skims (advance >>= fun _ => scopeBlock block name first) s := by
  refine fun hs => ⟨Forward.reaches s, fun hclean => ?_⟩
  set t := (advance s).2
  have hrun : (advance >>= fun _ => scopeBlock block name first) s = _ := scopeBlock_eq block name first t
  have hblock : (block t).2.errors = [] := by
    rw [hrun] at hclean
    cases hitems : (block t).1 <;> rw [hitems] at hclean
    · exact hclean
    · exact (Forward.reaches _).clean hclean
  obtain ⟨items, hitems⟩ := Option.ne_none_iff_exists'.mp (hsome t hblock)
  have : Covers Skims (blockItems block) := inferInstanceAs (Covers Skims (_ <$> block))
  refine (CoversAt.congr ?_
    (.bracketed (r := fun _ => blockItems block) (by rw [hk]; rfl) fun _ => readsClosing_scopeEnd name first)
    hs).covers hclean
  rw [hrun]
  show _ = scopeEnd name first ((block t).1.getD []) (block t).2
  rw [hitems]
  rfl

theorem skims_scopeRest (name : List Ident) (first : Span) : Covers Skims (scopeRest block name first) := by
  refine .bind inferInstance fun o => ⟨fun s => .ite (fun _ => Covers.covers s) fun _ => ?_⟩
  by_cases hk : s.kind = .leftBrace
  · refine .congr ?_ (skims_braces hsome name first hk)
    rw [bind_apply, expect_of_eq hk]
    rfl
  · refine .of_fault ?_
    rw [bind_apply, expect_of_ne hk]
    exact errors_ne_nil_of_report _ _

theorem skims_namespaceItem (hk : s.atWord "namespace" = true) : CoversAt Skims (namespaceItem block) s := by
  refine (coversAt_advance (isPlain_of_atWord hk).1).bind ((Covers.bind inferInstance fun o => ?_).covers _)
  cases o with
  | none => infer_instance
  | some name => exact skims_scopeRest hsome name _

theorem skims_unitItem (heof : s.kind ≠ .eof) (hk : s.kind ≠ .rightBrace) :
    CoversAt Skims (unitItem block) s := by
  refine .congr (unitItem_eq block s) ?_
  unfold Cursor.unitForm
  split
  case isTrue hk => exact (coversAt_advance (by rw [hk]; rfl)).on
  split
  case isTrue => exact (Covers.covers s).on
  split
  case isTrue => exact (Covers.covers s).on
  split
  case isTrue hword => exact skims_namespaceItem hsome hword
  split
  case isTrue hassembly =>
    have hopen : s.kind = .leftBracket := by
      simp only [Cursor.atAssemblyAttribute, Bool.and_eq_true, decide_eq_true_eq] at hassembly
      exact hassembly.1.1
    exact (coversAt_skipGroup (by rw [hopen]; rfl)).on
  · refine .ite (fun _ => Covers.covers s) fun _ => ?_
    exact (skims_skipStatement heof hk).on

theorem skims_unitItems : Covers Skims (unitItems block) := by
  refine .gatherWhile fun s hgo => skims_unitItem hsome ?_ ?_
  · intro heof
    simp [Cursor.atEnd, heof, TokenKind.isEof] at hgo
  · intro hk
    simp [hk] at hgo

end

/-- A block is read or there is an error. -/
theorem blockWithin_ne_none (levels : Nat) (s : Cursor) (hclean : (blockWithin levels s).2.errors = []) :
    (blockWithin levels s).1 ≠ none := by
  cases levels with
  | zero => exact absurd hclean (refuse_ne_clean skippedBlock s)
  | succ levels =>
    rw [blockWithin] at hclean ⊢
    rcases Nat.lt_or_ge s.depth maxNesting with shallow | deep
    · rw [nested_of_lt shallow]
      exact Option.some_ne_none _
    · rw [nested_of_le deep] at hclean
      exact absurd hclean (refuse_ne_clean skippedBlock s)

instance (levels : Nat) : Covers Skims (blockWithin levels) := by
  induction levels with
  | zero =>
    unfold blockWithin
    infer_instance
  | succ levels ih =>
    have := skims_unitItems (blockWithin_ne_none levels)
    unfold blockWithin
    infer_instance

instance : Covers Skims unitBody :=
  have := skims_unitItems (blockWithin_ne_none maxNesting)
  inferInstanceAs (Covers Skims (unitItems _ >>= _))

/-- A brace that closes nothing is an error, so without one the body goes up to the end. -/
theorem kind_unitBody (hclean : (sourceUnit s).2.errors = []) :
    (unitBody s).2.kind = .eof ∧ (sourceUnit s).2 = (unitBody s).2 := by
  set t := (unitBody s).2
  have hrun : (sourceUnit s).2 = (gatherWhile (!·.atEnd) strayBody t).2 := rfl
  rw [hrun] at hclean ⊢
  by_cases heof : t.kind = .eof
  · rw [gatherWhile_of_stop (by simp [Cursor.atEnd, heof, TokenKind.isEof])]
    exact ⟨heof, rfl⟩
  · rw [gatherWhile_of_go (by simp [atEnd_eq_false heof])] at hclean
    have hstray := errors_ne_nil_of_report (s := (advance t).2) (r := do return some (← unitBody))
      (.expected "a declaration" "\x7d") (advance t).1
    split at hclean
    · exact absurd ((Forward.reaches (r := gatherWhile (!·.atEnd) strayBody) _).clean hclean) hstray
    · exact absurd hclean hstray

end Read

/-! ## Sources -/

/-- A source without errors is skimmed. Without constraints and without brackets after a `<`, each of
    its groups is closed and each closing brace closes a group; and if it has no other brackets than
    braces, they are matched. -/
theorem Source.skimmed_of_errors_eq_nil (text : String) (h : (Source.parse text).errors = []) :
    ∃ w, Token.kindsOf text = w ++ [.eof] ∧ Skimmed w ∧
      (Unexceptional w → Loose 0 w ∧
        ((∀ k ∈ w, k.isPlain = true ∨ k = .leftBrace ∨ k = .rightBrace) → Matched w)) := by
  have hlaid := Token.laid_lexToEnd text
  set s := Cursor.ofTokens (Token.lexToEnd text)
  have htokens : s.tokens = Token.lexToEnd text := Cursor.tokens_ofTokens hlaid.ends
  obtain ⟨heof, hlast⟩ := Read.kind_unitBody h
  have hclean : (Read.unitBody s).2.errors = [] := hlast ▸ h
  obtain ⟨u, hu, hskims⟩ : ∃ u, s.tokens = u ++ (Read.unitBody s).2.tokens ∧ Skims u :=
    (Read.Covers.covers s (Cursor.lexedFrom_ofTokens text).lexed).covers hclean
  -- The source ends with the first end of a source.
  have hend : (Read.unitBody s).2.ahead = [] := by
    refine Classical.byContradiction fun hne => ?_
    have hordered : Ordered (Read.unitBody s).2.tokens :=
      hlaid.ordered.of_suffix (htokens ▸ ⟨u, hu.symm⟩)
    refine (hordered.filled (Read.unitBody s).2.current ?_).1 heof
    rw [Cursor.tokens, List.dropLast_cons_of_ne_nil hne]
    exact List.mem_cons_self
  refine ⟨u.map Token.kind, ?_, hskims, fun hw => ?_⟩
  · rw [Token.kindsOf, ← htokens, hu, Cursor.tokens, hend, List.map_append]
    exact congrArg (_ ++ [·]) heof
  · have hloose := Skimmed.loose hskims hw
    exact ⟨hloose, fun hbraces => matched_iff_closesAll.2 (hloose.closesAll_braces hbraces)⟩

theorem Source.skimmed_property :
    (Source.parse "class C \x7b List<int> X \x7b get; \x7d \x7d").errors = [] ∧
      ∃ w, Token.kindsOf "class C \x7b List<int> X \x7b get; \x7d \x7d" = w ++ [.eof] ∧ Unexceptional w ∧
        Matched w := by
  have hclean : (Source.parse "class C \x7b List<int> X \x7b get; \x7d \x7d").errors = [] := by
    decide +kernel
  have hkinds : Token.kindsOf "class C \x7b List<int> X \x7b get; \x7d \x7d" =
      [.identifier "class", .identifier "C", .leftBrace, .identifier "List", .less, .identifier "int",
        .greater, .identifier "X", .leftBrace, .identifier "get", .semicolon, .rightBrace, .rightBrace] ++
        [.eof] := by
    decide +kernel
  obtain ⟨w, hw, -, hmatched⟩ := Source.skimmed_of_errors_eq_nil _ hclean
  obtain rfl := List.append_cancel_right (hkinds.symm.trans hw)
  exact ⟨hclean, _, hw, by decide, (hmatched (by decide)).2 (by decide)⟩

/-- A parenthesis may be closed by a square bracket. -/
theorem Source.not_matched_paren :
    (Source.parse "class C \x7b void M() \x7b (] \x7d \x7d").errors = [] ∧
      ¬ Matched (Token.kindsOf "class C \x7b void M() \x7b (] \x7d \x7d") := by
  decide +kernel

end SettingsLint
