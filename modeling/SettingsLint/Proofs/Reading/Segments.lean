import Mathlib.Tactic.Set
import SettingsLint.Proofs.Reading.MemberParts
import SettingsLint.Proofs.Reading.Numbering
import SettingsLint.Proofs.Token.Lexemes

/-! # The brackets that a reader reads

Readers follow the grammar: an opening bracket is read together with the one that closes it, or as
the start of a group that is skipped. `Read.Covers P r` says that what `r` reads without an error has
the property `P`. It holds of every reader of types and attributes as soon as `P` follows the
brackets in this way (`FollowsBrackets P`), whatever else it says. It is a class: a reader covers
what its parts cover, and only where a token is read whatever it is, one has to look at its kind.
-/

set_option synthInstance.maxSize 1024

namespace SettingsLint

namespace TokenKind

/-- Is the token no bracket? -/
def isPlain (kind : TokenKind) : Bool := !kind.isOpener && !kind.isCloser

/-- The bracket that closes what the token opens. -/
def closing? : TokenKind → Option TokenKind
  | leftParen => some rightParen
  | leftBracket => some rightBracket
  | leftBrace => some rightBrace
  | _ => none

theorem isOpener_of_closing? {o c : TokenKind} (h : o.closing? = some c) :
    o.isOpener = true ∧ c.isCloser = true := by
  cases o <;> cases h <;> exact ⟨rfl, rfl⟩

/-- The token is no bracket. -/
class Plain (kind : TokenKind) : Prop where
  isPlain : kind.isPlain = true

instance : Plain .comma := ⟨rfl⟩
instance : Plain .colon := ⟨rfl⟩
instance : Plain .dot := ⟨rfl⟩
instance : Plain .equals := ⟨rfl⟩
instance : Plain .greater := ⟨rfl⟩
instance : Plain .less := ⟨rfl⟩
instance : Plain .semicolon := ⟨rfl⟩

end TokenKind

/-- The tokens close `n` groups more than they open, of whatever kind the brackets are. -/
inductive Closes : Nat → List TokenKind → Prop
  | nil : Closes 0 []
  | plain {n : Nat} {k : TokenKind} {w : List TokenKind} (plain : k.isPlain = true) (eof : k ≠ .eof)
      (rest : Closes n w) : Closes n (k :: w)
  | opener {n : Nat} {k : TokenKind} {w : List TokenKind} (opens : k.isOpener = true)
      (rest : Closes (n + 1) w) : Closes n (k :: w)
  | closer {n : Nat} {k : TokenKind} {w : List TokenKind} (closes : k.isCloser = true)
      (rest : Closes n w) : Closes (n + 1) (k :: w)

/-- The property holds of nothing, and of two parts together if it holds of each. -/
class Composes (P : List Token → Prop) : Prop where
  nil : P []
  append : ∀ {u v}, P u → P v → P (u ++ v)

/-- The property holds of what is put together from tokens that are no brackets, from brackets that
    belong together with such tokens between them, and from groups. -/
class FollowsBrackets (P : List Token → Prop) : Prop extends Composes P where
  plain : ∀ {t : Token}, t.kind.isPlain = true → t.kind ≠ .eof → P [t]
  pair : ∀ {o c : Token} {u}, o.kind.closing? = some c.kind → P u → P (o :: (u ++ [c]))
  group : ∀ {o : Token} {u}, o.kind.isOpener = true → Closes 1 (u.map (·.kind)) → P (o :: u)

/-! ## What is read without an error -/

/-- From `s` the cursor `t` is reached, without an error over tokens with the property. -/
structure Cursor.Passes (P : List Token → Prop) (s t : Cursor) : Prop extends s.Reaches t where
  covers : t.errors = [] → ∃ u, s.tokens = u ++ t.tokens ∧ P u

theorem Cursor.Passes.refl {P : List Token → Prop} [hP : Composes P] (s : Cursor) : s.Passes P s :=
  ⟨.refl s, fun _ => ⟨[], rfl, hP.nil⟩⟩

theorem Cursor.Passes.trans {P : List Token → Prop} [hP : Composes P] {s t r : Cursor}
    (h : s.Passes P t) (g : t.Passes P r) : s.Passes P r := by
  refine ⟨h.toReaches.trans g.toReaches, fun hclean => ?_⟩
  obtain ⟨u, hu, hcovered⟩ := h.covers (g.clean hclean)
  obtain ⟨w, hw, hcovered'⟩ := g.covers hclean
  exact ⟨u ++ w, by rw [hu, hw, List.append_assoc], hP.append hcovered hcovered'⟩

namespace Read

variable {closing : TokenKind}

/-- From the cursor the reader reads tokens with the property, unless it meets an error. -/
def CoversAt (P : List Token → Prop) (r : Read α) (s : Cursor) : Prop := s.Lexed → s.Passes P (r s).2

/-- Wherever it starts the reader reads tokens with the property. -/
class Covers (P : List Token → Prop) (r : Read α) : Prop where
  covers : ∀ s, CoversAt P r s

section

variable {P : List Token → Prop} {s : Cursor}

theorem CoversAt.of_fault {r : Read α} [hr : Forward r] (h : (r s).2.errors ≠ []) : CoversAt P r s :=
  fun _ => ⟨hr.reaches s, fun hclean => absurd hclean h⟩

theorem CoversAt.congr {r q : Read α} (h : r s = q s) (g : CoversAt P q s) : CoversAt P r s := by
  unfold CoversAt
  rw [h]
  exact g

theorem CoversAt.get_bind {f : Cursor → Read α} (h : CoversAt P (f s) s) : CoversAt P (get >>= f) s := h

theorem CoversAt.map {r : Read α} {f : α → β} (h : CoversAt P r s) : CoversAt P (f <$> r) s := h

theorem CoversAt.ite {c : Prop} [Decidable c] {r q : Read α} (h : c → CoversAt P r s)
    (g : ¬c → CoversAt P q s) : CoversAt P (if c then r else q) s := by
  split
  · exact h ‹_›
  · exact g ‹_›

instance {instead : Read α} [Forward instead] : Covers P (refuse instead) :=
  ⟨fun s => .of_fault (refuse_ne_clean instead s)⟩

instance {body instead : Read α} [h : Covers P body] [Forward instead] : Covers P (nested body instead) := by
  refine ⟨fun s hs => ?_⟩
  rcases Nat.lt_or_ge s.depth maxNesting with shallow | deep
  · obtain ⟨⟨read, depth, errors, passed⟩, covers⟩ := h.covers { s with depth := s.depth + 1 } hs
    rw [nested_of_lt shallow]
    exact ⟨⟨read, by simp [depth], errors, passed⟩, covers⟩
  · rw [nested_of_le deep]
    exact Covers.covers s hs

/-! ## Putting readers together -/

variable [hP : Composes P]

theorem CoversAt.bind {r : Read α} {f : α → Read β} (h : CoversAt P r s)
    (g : CoversAt P (f (r s).1) (r s).2) : CoversAt P (r >>= f) s :=
  fun hs => (h hs).trans (g ((h hs).lexed hs))

/-- What is read after this has the property, too. -/
theorem CoversAt.on {r : Read α} {f : α → Read β} [hf : ∀ a, Covers P (f a)] (h : CoversAt P r s) :
    CoversAt P (r >>= f) s := h.bind ((hf _).covers _)

theorem Covers.bind {r : Read α} {f : α → Read β} (h : Covers P r) (g : ∀ a, Covers P (f a)) :
    Covers P (r >>= f) := ⟨fun s => (h.covers s).on⟩

instance (a : α) : Covers P (pure a : Read α) := ⟨fun s _ => .refl s⟩
instance : Covers P (get : Read Cursor) := ⟨fun s _ => .refl s⟩
instance : Covers P kind := ⟨fun s _ => .refl s⟩
instance : Covers P span := ⟨fun s _ => .refl s⟩
instance (first : Span) : Covers P (spanFrom first) := ⟨fun s _ => .refl s⟩

instance {r : Read α} {f : α → Read β} [hr : Covers P r] [hf : ∀ a, Covers P (f a)] :
    Covers P (r >>= f) := .bind hr hf

instance {r : Read α} {f : α → β} [h : Covers P r] : Covers P (f <$> r) := ⟨fun s => (h.covers s).map⟩

instance {c : Prop} [Decidable c] {r q : Read α} [hr : Covers P r] [hq : Covers P q] :
    Covers P (if c then r else q) := ⟨fun s => .ite (fun _ => hr.covers s) fun _ => hq.covers s⟩

instance (fault : SyntaxFault) (span : Span) : Covers P (report fault span) :=
  ⟨fun s => .of_fault (List.append_ne_nil_of_right_ne_nil s.errors (List.cons_ne_nil _ _))⟩

/-- After an error it does not matter what is read. -/
instance (priority := 2000) {what : String} {f : Unit → Read α} [hf : ∀ a, Forward (f a)] :
    Covers P (expected what >>= f) :=
  ⟨fun _ => .of_fault (errors_ne_nil_of_report _ _)⟩

instance {step : Read (Option α × Bool)} [h : Covers P step] : Covers P (gather step) := by
  refine ⟨fun s => ?_⟩
  show s.Lexed → s.Passes P (Read.gather step s).2
  fun_induction Read.gather step s with
  | case1 s item again next hs _ items last hrest ih =>
    intro lexed
    have hstep := h.covers s lexed
    rw [hs] at hstep
    rw [hrest] at ih
    exact hstep.trans (ih (hstep.lexed lexed))
  | case2 s item again next hs _ =>
    intro lexed
    have hstep := h.covers s lexed
    rwa [hs] at hstep

theorem Covers.gather {step : Read (Option α × Bool)} (h : Covers P step) : Covers P (gather step) :=
  inferInstance

theorem Covers.gatherWhile {goOn : Cursor → Bool} {step : Read (Option α)}
    (h : ∀ s, goOn s = true → CoversAt P step s) : Covers P (gatherWhile goOn step) :=
  .gather ⟨fun s => .ite (fun hgo => (h s hgo).on) fun _ => Covers.covers s⟩

theorem Covers.whileDo {goOn : Cursor → Bool} {step : Read Unit}
    (h : ∀ s, goOn s = true → CoversAt P step s) : Covers P (whileDo goOn step) := by
  refine ⟨fun s => ?_⟩
  show s.Lexed → s.Passes P (Read.whileDo goOn step s).2
  fun_induction Read.whileDo goOn step s with
  | case1 s hgo next _ ih => exact fun hs => (h s hgo hs).trans (ih ((h s hgo hs).lexed hs))
  | case2 s hgo next _ => exact h s hgo
  | case3 s _ => exact fun _ => .refl s

end

variable {P : List Token → Prop} [hP : FollowsBrackets P] {s : Cursor}

/-! ## Single tokens -/

theorem coversAt_advance (hk : s.kind.isPlain = true) : CoversAt P advance s := by
  refine fun hs => ⟨.advance s, fun _ => ?_⟩
  by_cases heof : s.kind = .eof
  · rw [advance_eof heof]
    exact ⟨[], rfl, hP.nil⟩
  · refine ⟨[s.current], ?_, hP.plain hk heof⟩
    rw [tokens_advance heof hs.endsInEof]
    rfl

/-- Two tokens, of which the second one has been looked at, too. -/
theorem coversAt_advance_advance {f : Span → Span → Read α} [∀ a b, Covers P (f a b)]
    (hk : s.kind.isPlain = true ∧ s.kind ≠ .eof) (hnext : (s.peek 1).isPlain = true) :
    CoversAt P (advance >>= fun a => advance >>= f a) s := by
  intro hs
  refine (coversAt_advance hk.1).bind (coversAt_advance ?_).on hs
  rw [← kind_advance hk.2 hs.endsInEof] at hnext
  exact hnext

instance (kind : TokenKind) [hk : kind.Plain] : Covers P (eat kind) :=
  ⟨fun s => .ite (c := s.kind = kind) (fun h => (coversAt_advance (h ▸ hk.isPlain)).on)
    fun _ => Covers.covers s⟩

/-- After a token that is missing there is an error, whatever is read then. -/
instance (priority := 2000) (kind : TokenKind) [hk : kind.Plain] {what : String} {f : Option Span → Read α}
    [∀ o, Forward (f o)] [∀ place, Covers P (f (some place))] : Covers P (expect kind what >>= f) := by
  refine ⟨fun s => ?_⟩
  by_cases hkind : s.kind = kind
  · refine .congr (q := advance >>= fun place => f (some place)) ?_ (coversAt_advance (hkind ▸ hk.isPlain)).on
    rw [bind_apply, expect_of_eq hkind]
    rfl
  · refine .of_fault ?_
    rw [bind_apply, expect_of_ne hkind]
    exact errors_ne_nil_of_report _ _

instance (priority := 2000) {a : α} {r q : Read β} [h : Covers P q] :
    Covers P (if (some a).isNone = true then r else q) := h

omit hP in
theorem isPlain_of_name {kind : TokenKind} {name : String} (h : kind.name? = some name) :
    kind.isPlain = true ∧ kind ≠ .eof := by
  cases kind <;> cases h
  exact ⟨rfl, nofun⟩

omit hP in

omit hP in
theorem isPlain_of_atWord {word : String} (h : s.atWord word = true) :
    s.kind.isPlain = true ∧ s.kind ≠ .eof :=
  @isPlain_of_name s.kind word (by simpa [Cursor.atWord, TokenKind.isWord] using h)

instance (what : String) : Covers P (ident what) := by
  refine ⟨fun s => ?_⟩
  cases hk : s.kind.name? with
  | none =>
    refine .of_fault ?_
    rw [ident_of_none hk]
    simp [Cursor.report]
  | some name =>
    exact .congr (q := (fun span => some ⟨name, span⟩) <$> advance) (ident_of_some hk)
      (coversAt_advance (isPlain_of_name hk).1).map

/-! ## Groups -/

theorem isPlain_of_not {k : TokenKind} (hopener : ¬ k.isOpener = true) (hcloser : ¬ k.isCloser = true) :
    k.isPlain = true := by
  simp [TokenKind.isPlain, hopener, hcloser]

/-- The rest of open groups closes them all. -/
theorem closes_skipOpened {opened : List (TokenKind × Span)} (hopen : opened ≠ [])
    (hs : EndsInEof s.tokens) (hclean : (skipOpened opened s).errors = []) :
    ∃ u, s.tokens = u ++ (skipOpened opened s).tokens ∧ Closes opened.length (u.map (·.kind)) := by
  induction hn : s.size using Nat.strongRecOn generalizing s opened with
  | _ n ih =>
    by_cases hk : s.kind = .eof
    · -- The source ends inside of a group, which is reported.
      rw [skipOpened, Cursor.atEnd, hk, TokenKind.isEof] at hclean
      cases hlast : opened.getLast? with
      | none => exact absurd (List.getLast?_eq_none_iff.mp hlast) hopen
      | some last =>
        rw [hlast] at hclean
        simp [Cursor.report] at hclean
    · have hnext : s.advance.tokens = s.ahead := tokens_advance hk hs
      rw [skipOpened_of_ends hk hs] at hclean ⊢
      -- The tokens after this one close what is open then.
      obtain ⟨u, hu, hcloses⟩ : ∃ u, s.ahead = u ++
          (if (openedAfter opened s).isEmpty then s.advance
            else skipOpened (openedAfter opened s) s.advance).tokens ∧
          Closes (openedAfter opened s).length (u.map (·.kind)) := by
        cases hopened : openedAfter opened s with
        | nil => exact ⟨[], by simpa using hnext.symm, .nil⟩
        | cons group groups =>
          rw [hopened] at hclean
          obtain ⟨u, hu, hcloses⟩ := ih _ (hn ▸ size_advance_lt hk hs) (List.cons_ne_nil group groups)
            ((Cursor.Reaches.advance s).endsInEof hs) hclean rfl
          exact ⟨u, hnext ▸ hu, hcloses⟩
      refine ⟨s.current :: u, by rw [Cursor.tokens, hu]; rfl, ?_⟩
      unfold openedAfter at hcloses
      by_cases hopener : s.kind.isOpener = true
      · rw [if_pos hopener] at hcloses
        exact .opener hopener hcloses
      · rw [if_neg hopener] at hcloses
        by_cases hcloser : s.kind.isCloser = true
        · rw [if_pos hcloser, List.length_tail] at hcloses
          have hpos := List.length_pos_iff.mpr hopen
          have hlength : opened.length = opened.length - 1 + 1 := by omega
          rw [hlength]
          exact .closer hcloser hcloses
        · rw [if_neg hcloser] at hcloses
          exact .plain (isPlain_of_not hopener hcloser) hk hcloses

/-- A group is read up to where as many brackets were closed as opened. -/
theorem closes_skipGroup (hk : s.kind.isOpener = true) (hs : EndsInEof s.tokens)
    (hclean : (skipGroup s).2.errors = []) :
    ∃ u, s.tokens = s.current :: (u ++ (skipGroup s).2.tokens) ∧ Closes 1 (u.map (·.kind)) := by
  have heof : s.kind ≠ .eof := by
    intro heof
    rw [heof] at hk
    cases hk
  have hopened : openedAfter [] s = [(s.kind, s.span)] := if_pos hk
  have hrun : (skipGroup s).2 = skipOpened [(s.kind, s.span)] s.advance := by
    show skipOpened [] s = _
    rw [skipOpened_of_ends heof hs, hopened]
    rfl
  rw [hrun] at hclean ⊢
  have hnext : s.advance.tokens = s.ahead := tokens_advance heof hs
  obtain ⟨u, hu, hcloses⟩ := closes_skipOpened (by simp)
    ((Cursor.Reaches.advance s).endsInEof hs) hclean
  exact ⟨u, by rw [Cursor.tokens, ← hnext, hu], hcloses⟩

theorem coversAt_skipGroup (hk : s.kind.isOpener = true) : CoversAt P skipGroup s := by
  refine fun hs => ⟨Forward.reaches s, fun hclean => ?_⟩
  obtain ⟨u, hu, hcloses⟩ := closes_skipGroup hk hs.endsInEof hclean
  exact ⟨s.current :: u, hu, hP.group hk hcloses⟩

theorem coversAt_skipGroupOrToken (hk : s.kind.isCloser = false) : CoversAt P skipGroupOrToken s := by
  refine .ite coversAt_skipGroup fun hopener => ?_
  exact (coversAt_advance (by simp [TokenKind.isPlain, hopener, hk])).on

instance : Covers P skipArgument := by
  refine .whileDo fun s hgo => coversAt_skipGroupOrToken ?_
  cases hk : s.kind <;> simp_all [Cursor.atArgumentEnd, TokenKind.isCloser]

/-! ## Between brackets -/

/-- Without an error the reader starts with the closing bracket. -/
def ReadsClosing (P : List Token → Prop) (closing : TokenKind) (r : Read α) : Prop :=
  ∀ s : Cursor, s.Lexed → (r s).2.errors = [] →
    s.kind = closing ∧ ∃ w, s.tokens = s.current :: (w ++ (r s).2.tokens) ∧ P w

omit hP in
/-- After the bracket that is expected comes what comes then. -/
theorem readsClosing_expect {what : String} {f : Option Span → Read α}
    [hf : ∀ o, Forward (f o)] (hk : closing ≠ .eof) [h : ∀ span, Covers P (f (some span))] :
    ReadsClosing P closing (expect closing what >>= f) := by
  intro s hs hclean
  have hclosing : s.kind = closing := by
    refine Classical.byContradiction fun hne => ?_
    rw [bind_apply, expect_of_ne hne] at hclean
    exact errors_ne_nil_of_report _ _ hclean
  rw [bind_apply, expect_of_eq hclosing] at hclean ⊢
  obtain ⟨w, hw, hcovered⟩ :=
    ((h s.span).covers s.advance ((Cursor.Reaches.advance s).lexed hs)).covers hclean
  have hnext : s.advance.tokens = s.ahead := tokens_advance (hclosing ▸ hk) hs.endsInEof
  exact ⟨hclosing, w, by rw [Cursor.tokens, ← hnext, hw], hcovered⟩

/-- An opening bracket, what stands in the brackets, and what starts with the closing one. -/
theorem CoversAt.bracketed {r : Span → Read α} {g : Span → α → Read β}
    [hr : ∀ x, Covers P (r x)] [hf : ∀ x a, Forward (g x a)] (ho : s.kind.closing? = some closing)
    (hg : ∀ x a, ReadsClosing P closing (g x a)) : CoversAt P (advance >>= fun x => r x >>= g x) s := by
  intro hs
  have heof : s.kind ≠ .eof := by
    intro heof
    rw [heof] at ho
    cases ho
  have hopen : s.Reaches (advance s).2 := .advance s
  have hinside := (hr s.span).covers (advance s).2 (hopen.lexed hs)
  have hreach := hopen.trans hinside.toReaches
  refine ⟨hreach.trans ((hf _ _).reaches _), fun hclean => ?_⟩
  obtain ⟨u, hu, hcovered⟩ := hinside.covers (((hf _ _).reaches _).clean hclean)
  obtain ⟨hclosing, w, hw, hafter⟩ := hg s.span _ _ (hreach.lexed hs) hclean
  refine ⟨(s.current :: (u ++ [_])) ++ w, ?_, hP.append (hP.pair (ho.trans (congrArg some hclosing.symm))
    hcovered) hafter⟩
  rw [Cursor.tokens, ← tokens_advance heof hs.endsInEof, hu, hw]
  simp only [List.cons_append, List.append_assoc]
  rfl

/-! ## Types -/

instance (item : Span → α) : Covers P (commas item) :=
  .gather (.bind inferInstance fun o => by cases o <;> infer_instance)

section

variable {argument : Read TypeExpr} [Covers P argument]

theorem coversAt_typeArguments (hk : s.kind = .less) : CoversAt P (typeArguments argument) s :=
  (coversAt_advance (by rw [hk]; rfl)).on

instance : Covers P (segmentArguments argument) :=
  ⟨fun s => .ite (c := s.kind = .less) coversAt_typeArguments fun _ => Covers.covers s⟩

instance : Covers P separator := by
  refine ⟨fun s => .ite
    (fun hk => (coversAt_advance ?_).on) fun _ => Covers.covers s⟩
  obtain ⟨hk, -⟩ := Bool.and_eq_true_iff.mp hk
  rcases Bool.or_eq_true_iff.mp hk with hk | hk <;> rw [of_decide_eq_true hk] <;> rfl

instance : Covers P (nameSegment argument) :=
  .bind inferInstance fun o => by cases o <;> infer_instance

instance : Covers P (qualifiedName argument) := by
  refine ⟨fun s => .ite (fun hk => ?_)
    fun _ => Covers.covers s⟩
  obtain ⟨hword, hpeek⟩ : s.atWord "global" = true ∧ s.peek 1 = .colonColon := by simpa using hk
  exact coversAt_advance_advance (isPlain_of_atWord hword) (by rw [hpeek]; rfl)

end

instance (first : Span) (type : TypeExpr) : Covers P (typeSuffixes.oneSuffix first type) := by
  refine ⟨fun s => .congr (oneSuffix_eq first type s) ?_⟩
  refine .ite (fun hk => ?_) fun _ => .ite (fun hk => ?_) fun _ => .ite (fun hk => ?_) fun _ =>
    Covers.covers s
  · exact (coversAt_advance (by rw [hk]; rfl)).on
  · refine .bracketed ?_ fun _ _ => readsClosing_expect nofun
    rw [of_decide_eq_true (Bool.and_eq_true_iff.mp hk).1]
    rfl
  · exact (coversAt_advance (by rw [hk]; rfl)).on

instance (first : Span) (type : TypeExpr) : Covers P (typeSuffixes first type) := by
  refine ⟨fun s => ?_⟩
  induction hn : s.size using Nat.strongRecOn generalizing s type with
  | _ n ih =>
    intro hs
    have hone := Covers.covers (P := P) (r := typeSuffixes.oneSuffix first type) s hs
    rw [typeSuffixes_eq]
    dsimp only
    split
    · split
      · exact hone.trans (ih _ (hn ▸ ‹_›) _ _ rfl (hone.lexed hs))
      · exact hone
    · exact hone

instance {argument : Read TypeExpr} [Covers P argument] (first : Span) :
    Covers P (typeExprWith argument first) :=
  ⟨fun s => .ite (c := s.kind = .leftParen) (fun hk => (coversAt_skipGroup (by rw [hk]; rfl)).on)
    fun _ => Covers.covers s⟩

instance (levels : Nat) : Covers P (typeExprWithin levels) := by
  induction levels with
  | zero =>
    unfold typeExprWithin
    infer_instance
  | succ levels ih =>
    unfold typeExprWithin
    infer_instance

instance : Covers P typeExpr := by
  unfold typeExpr
  infer_instance

/-! ## Attributes -/

theorem isPlain_of_mark {kind : TokenKind} {mark : ArgumentMark}
    (h : kind.argumentMark? = some mark) : kind.isPlain = true := by
  cases kind <;> cases h <;> rfl

theorem isPlain_of_literal {kind : TokenKind} {literal : LiteralKind × String}
    (h : kind.literal? = some literal) : kind.isPlain = true := by
  cases kind <;> first | rfl | cases h

instance : Covers P argumentName := by
  refine ⟨fun s => ?_⟩
  cases hk : s.kind.name? with
  | none => exact .congr (argumentName_of_none (.inl hk)) (Covers.covers s)
  | some name =>
    cases hm : (s.peek 1).argumentMark? with
    | none => exact .congr (argumentName_of_none (.inr hm)) (Covers.covers s)
    | some mark =>
      exact .congr (argumentName_of_some hk hm)
        (coversAt_advance_advance (isPlain_of_name hk) (isPlain_of_mark hm))

theorem coversAt_typeOfValue (first : Span) (hk : s.atWord "typeof" = true)
    (hpeek : s.peek 1 = .leftParen) : CoversAt P (typeOfValue first) s := by
  intro hs
  obtain ⟨hplain, heof⟩ := isPlain_of_atWord hk
  have hparen : (advance s).2.kind = .leftParen := (kind_advance heof hs.endsInEof).trans hpeek
  exact (coversAt_advance hplain).bind (.bracketed (by rw [hparen]; rfl)
    fun _ _ => readsClosing_expect nofun) hs

/-- The second step is taken only after a sign, and then to a number. -/
theorem coversAt_literalValue (first : Span) {kind : LiteralKind} {text : String}
    (h : s.literal? = some (kind, text)) : CoversAt P (literalValue first kind text) s := by
  unfold Cursor.literal? at h
  by_cases hminus : s.kind = .operator '-'
  · rw [if_pos hminus] at h
    have hnumber : (s.peek 1).isPlain = true := by
      cases hliteral : (s.peek 1).literal? with
      | none =>
        rw [hliteral] at h
        cases h
      | some literal => exact isPlain_of_literal hliteral
    refine fun hs => (coversAt_advance (by rw [hminus]; rfl)).bind (.ite (fun _ => ?_) fun _ =>
      Covers.covers _) hs
    refine (coversAt_advance ?_).on
    rwa [← kind_advance (by rw [hminus]; exact nofun) hs.endsInEof] at hnumber
  · rw [if_neg hminus] at h
    intro hs
    obtain ⟨text', hsuffix⟩ := id hs
    have hmem : s.current ∈ Token.lexToEnd text' := hsuffix.subset List.mem_cons_self
    have hsign : text.toList.head? ≠ some '-' := by
      cases hname : s.kind.name? with
      | some name =>
        -- The words `true`, `false` and `null` are literals.
        rw [TokenKind.eq_identifier hname] at h
        simp only [TokenKind.literal?] at h
        split at h
        case isTrue hbool =>
          obtain rfl | rfl : name = "true" ∨ name = "false" := by simpa using hbool
          all_goals
            cases h
            decide
        case isFalse =>
          split at h
          case isTrue hnull =>
            obtain rfl : name = "null" := by simpa using hnull
            cases h
            decide
          case isFalse => cases h
      | none =>
        have htext : s.kind.isLiteral = true ∧ s.kind.text = text := by
          cases hk : s.kind <;>
            simp_all [TokenKind.literal?, TokenKind.isLiteral, TokenKind.text, TokenKind.name?]
        rw [← htext.2]
        exact Token.head?_ne_minus_of_mem_lexToEnd hmem htext.1
    refine (coversAt_advance (isPlain_of_literal h)).bind (.ite (fun hhead => absurd hhead hsign) fun _ =>
      Covers.covers _) hs

instance : Covers P argumentValue := by
  refine ⟨fun s => .ite (fun hk => ?_)
    fun _ => ?_⟩
  · obtain ⟨hword, hpeek⟩ : s.atWord "typeof" = true ∧ s.peek 1 = .leftParen := by simpa using hk
    exact coversAt_typeOfValue _ hword hpeek
  · cases hliteral : s.literal? with
    | none => exact Covers.covers s
    | some literal => exact coversAt_literalValue _ hliteral

instance {item : Read (Option α)} [h : Covers P item] :
    Covers P (listItem closing item) :=
  ⟨fun s => .ite (c := (s.kind = closing || s.atEnd) = true) (fun _ => Covers.covers s) fun _ =>
    (Covers.bind h fun o => by cases o <;> infer_instance).covers s⟩

theorem forward_argumentListEnd (opening : Span) (arguments : List Argument) (o : Option Span) :
    Forward (match o with
      | some closing => return ArgumentList.mk opening closing arguments
      | none => return .mk opening (Span.point (← get).previousStop) arguments : Read ArgumentList) := by
  cases o <;> infer_instance

theorem coversAt_argumentList (hk : s.kind = .leftParen) : CoversAt P argumentList s := by
  have := forward_argumentListEnd
  exact .bracketed (by rw [hk]; rfl)
    fun _ _ => readsClosing_expect nofun

instance : Covers P namedAttribute :=
  .bind inferInstance fun _ => .bind inferInstance fun _ => ⟨fun s =>
    .ite (c := s.kind = .leftParen) (fun hk => (coversAt_argumentList hk).map.on) fun _ => Covers.covers s⟩

instance : Covers P attributeTarget := by
  refine ⟨fun s => .ite (fun h => ?_) fun _ => Covers.covers s⟩
  obtain ⟨hname, hpeek⟩ : s.atName = true ∧ s.peek 1 = .colon := by simpa using h
  obtain ⟨name, hk⟩ := Option.isSome_iff_exists.mp hname
  refine .congr (q := advance >>= fun place => advance >>= fun _ => pure (some ⟨name, place⟩)) ?_
    (coversAt_advance_advance (isPlain_of_name hk) (by rw [hpeek]; rfl))
  rw [bind_apply, ident_of_some hk]
  rfl

instance (first closing : Span) (target : Option Ident) (attributes : List Attribute) :
    Covers P (closeAttributes first target attributes (some closing)) :=
  inferInstanceAs (Covers P (do return AttributeList.mk target attributes (← spanFrom first)))

theorem coversAt_attributeList (hk : s.kind = .leftBracket) : CoversAt P attributeList s :=
  .bracketed (r := fun _ => attributeTarget >>= fun target =>
    gather (listItem .rightBracket attributeItem) >>= fun attributes => pure (target, attributes))
    (by rw [hk]; rfl) fun first parts => readsClosing_expect
      (f := closeAttributes first parts.1 parts.2) TokenKind.noConfusion

instance : Covers P attributeLists :=
  .gatherWhile fun _ hk => (coversAt_attributeList (of_decide_eq_true hk)).map

end Read

end SettingsLint
