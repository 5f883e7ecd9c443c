import SettingsLint.Proofs.Reading.Extent
import SettingsLint.Proofs.Reading.Replay

/-! # Reading groups and types again

Groups are skipped the same way wherever they stand, and nothing after a group matters.
A type looks at what comes after it to see whether it goes on: it is read again before
an end that agrees, but also before a parenthesis, where no type goes on.
-/

set_option synthInstance.maxSize 1024

namespace SettingsLint

open Read

variable {v v' : List Token} {s s' : Cursor}

/-! ## Groups -/

section

variable [hv : Ends v v']

include hv

theorem Twin.skipOpened {opened opened' : List (TokenKind × Span)}
    (hlen : opened'.length = opened.length) (hstart : opened ≠ [] ∨ s.kind ≠ .eof)
    (twin : Twin v v' s s') (hend : v <:+ (skipOpened opened s).tokens)
    (hclean : (skipOpened opened s).errors = []) :
    Twin v v' (skipOpened opened s) (skipOpened opened' s') := by
  induction hn : s.size using Nat.strongRecOn generalizing s s' opened opened' with
  | _ n ih =>
    by_cases hk : s.kind = .eof
    · -- The source ends inside of a group, which is reported.
      have hopen : opened ≠ [] := hstart.resolve_right (not_not_intro hk)
      rw [skipOpened, Cursor.atEnd, hk, TokenKind.isEof] at hclean
      cases hlast : opened.getLast? with
      | none => exact absurd (List.getLast?_eq_none_iff.mp hlast) hopen
      | some last =>
        rw [hlast] at hclean
        simp [Cursor.report] at hclean
    · have hreach : s.advance.Reaches (skipOpened opened s) := skipOpened_reaches hk
      have hstep : Twin v v' s.advance s'.advance :=
        ((Replays.advance_of_ne hk).replays twin (hend.trans hreach.suffix) (hreach.clean hclean)).1
      have hs := twin.endsInEof
      have hlt := size_advance_lt hk hs
      have hkind : s'.kind = s.kind := twin.kind_of_ne fun hs => by
        have := hstep.suffix.length_le
        rw [← hs] at this
        simp only [Cursor.tokens, List.length_cons, Cursor.size] at this hlt
        omega
      have hnow : (openedAfter opened' s').length = (openedAfter opened s).length := by
        unfold openedAfter
        rw [hkind]
        split
        · simp [hlen]
        · split
          · simp [hlen]
          · exact hlen
      rw [skipOpened_of_ends hk hs] at hend hclean ⊢
      rw [skipOpened_of_ends (hkind ▸ hk) twin.endsInEof']
      cases hopened : openedAfter opened s with
      | nil =>
        rw [hopened, List.length_nil, List.length_eq_zero_iff] at hnow
        simpa [hnow] using hstep
      | cons group groups =>
        rw [hopened] at hend hclean hnow
        obtain ⟨group', groups', hopened'⟩ :=
          List.exists_cons_of_length_pos (l := openedAfter opened' s') (by simp [hnow])
        rw [hopened'] at hnow ⊢
        exact ih _ (hn ▸ hlt) hnow (.inl (by simp)) hstep hend hclean rfl

theorem Replays.skipGroup (hk : s.kind ≠ .eof) : Replays v v' Read.skipGroup Read.skipGroup s s' :=
  ⟨fun twin hend hclean => ⟨twin.skipOpened rfl (.inr hk) hend hclean, inferInstance⟩⟩

theorem Replays.skipGroupOrToken (hk : s.kind ≠ .eof) :
    Replays v v' Read.skipGroupOrToken Read.skipGroupOrToken s s' := by
  by_cases hs : s.tokens = v
  · exact of_takes hs (takesAt_skipGroupOrToken hk)
  · refine .getAt fun twin => .ite (by rw [twin.kind_of_ne hs]) (fun _ => skipGroup hk) fun _ => ?_
    exact .bind inferInstance (advance_of_ne hk) inferInstance

end

/-! ## Skipping -/

namespace Replays

variable [Agree v v']

instance : Replays v v' Read.skipGroup Read.skipGroup s s' := by
  by_cases hk : s.kind = .eof
  · have hrun {t : Cursor} (h : t.kind = .eof) : Read.skipGroup t = ((), t) := by
      rw [show Read.skipGroup t = ((), skipOpened [] t) from rfl, skipOpened, Cursor.atEnd, h]
      rfl
    refine ⟨fun twin _ _ => ?_⟩
    rw [hrun hk, hrun (twin.kind.trans hk)]
    exact ⟨twin, inferInstance⟩
  · exact skipGroup hk

instance : Replays v v' skipBody skipBody s s' := by
  refine .bind (fun _ => .bind inferInstance fun s => by cases s.kind <;> infer_instance) inferInstance
    fun _ _ t t' _ => .get fun x => ?_
  rw [x.twin.kind]
  split <;> infer_instance

end Replays

/-! ## Where a type ends -/

/-- The ends agree, or the second one starts with a parenthesis, where no type goes on. -/
class TypeEnds (v v' : List Token) : Prop extends Ends v v' where
  stops : Agree v v' ∨ ∃ t rest, v' = t :: rest ∧ (t.kind = .leftParen ∨ t.kind = .rightParen)

instance [hv : Agree v v'] : TypeEnds v v' := ⟨.inl hv⟩

/-- Is the kind none of those that a type may start with or stop before? -/
def TokenKind.isParen : TokenKind → Bool
  | leftParen | rightParen => true
  | _ => false

section

variable [hv : TypeEnds v v']

include hv

/-- The second twin stands at the end before a parenthesis, or the kinds are the same. -/
theorem TypeEnds.ne_end (twin : Twin v v' s s') (hk : s'.kind.isParen = false) :
    Agree v v' ∨ s.tokens ≠ v := by
  rcases hv.stops with agree | ⟨t, rest, hrest, ht⟩
  · exact .inl agree
  · refine .inr fun hs => ?_
    obtain ⟨u, u', hu, hu', htwin⟩ := twin.split
    have hnil : u = [] := by simpa [hs] using hu
    subst hnil
    cases htwin
    rw [hrest] at hu'
    have hkind : s'.kind = t.kind := by rw [Cursor.kind, (List.cons.inj hu').1]
    rcases ht with ht | ht <;> simp [hkind, ht, TokenKind.isParen] at hk

/-- What the second twin sees the first one sees, too, parentheses apart. -/
theorem TypeEnds.kind_of_kind (twin : Twin v v' s s') (hk : s'.kind.isParen = false) :
    s'.kind = s.kind :=
  (ne_end twin hk).elim (fun _ => twin.kind) twin.kind_of_ne

/-- The next kind but one is the same, unless the next token is the last before the end. -/
theorem TypeEnds.peek_one (twin : Twin v v' s s') (hk : s'.kind.isParen = false)
    (h1 : s'.kind ≠ .comma) (h2 : s'.kind ≠ .rightBracket) :
    s'.peek 1 = s.peek 1 ∨ ((s'.peek 1).isParen = true ∧ v = s.ahead) := by
  have hkind := kind_of_kind twin hk
  rcases hv.stops with agree | ⟨t, rest, hrest, ht⟩
  · rw [hkind] at h1 h2 hk
    exact .inl (twin.peek_one h1 h2 fun h3 => by simp [h3, TokenKind.isParen] at hk)
  · obtain ⟨u, u', hu, hu', htwin⟩ := twin.split
    cases htwin with
    | nil =>
      rw [hrest] at hu'
      have hkind : s'.kind = t.kind := by rw [Cursor.kind, (List.cons.inj hu').1]
      rcases ht with ht | ht <;> simp [hkind, ht, TokenKind.isParen] at hk
    | @cons x x' w w' hx hw =>
      cases hw with
      | nil =>
        simp only [Cursor.tokens, List.cons_append, List.cons.injEq] at hu hu'
        refine .inr ⟨?_, hu.2.symm⟩
        have : s'.peek 1 = t.kind := by simp [Cursor.peek, Cursor.tokens, hu'.2, hrest]
        rcases ht with ht | ht <;> simp [this, ht, TokenKind.isParen]
      | @cons y y' w w' hy hw =>
        simp only [Cursor.tokens, List.cons_append, List.cons.injEq] at hu hu'
        refine .inl ?_
        simpa [Cursor.peek, Cursor.tokens, hu.2, hu'.2] using hy

namespace Replays

/-- A token that is no parenthesis is taken on both sides or on none. -/
theorem ite_kind [Placed α] {kind : TokenKind} {f f' : Span → Read α} {q q' : Read α} (twin : Twin v v' s s')
    (hparen : kind.isParen = false) (hne : kind ≠ .eof) (hf : ∀ a, Forward (f a))
    (h : s.kind = kind → Replays v v' (advance >>= f) (advance >>= f') s s')
    (g : s.kind ≠ kind → Replays v v' q q' s s') : Replays v v' (if s.kind = kind then advance >>= f else q)
      (if s'.kind = kind then advance >>= f' else q') s s' :=
  ite_of (fun hk' => by rw [← hv.kind_of_kind twin (hk' ▸ hparen), hk'])
    (fun hk hk' _ => of_takes (not_not.mp fun hs => hk' ((twin.kind_of_ne hs).trans hk))
      (takesAt_advance (hk ▸ hne)).bind) h g

instance : Replays v v' (eat .comma) (eat .comma) s s' :=
  .get fun x => ite_kind x.twin rfl (by decide) inferInstance (fun hk => .bind inferInstance
    (advance_of_ne (by rw [hk]; decide)) inferInstance) inferInstance

instance [Placed α] {item : Span → α} [∀ a b, Alike (item a) (item b)] :
    Replays v v' (commas item) (commas item) s s' := by
  have hstep (o : Option Span) : Forward (match o with
      | some comma => Pure.pure (some (item comma), true)
      | none => Pure.pure (none, false) : Read (Option α × Bool)) := by
    cases o <;> infer_instance
  refine @gather_of _ _ _ _ _ _ (.bind inferInstance hstep) (fun s s' _ => ?_) s s'
  exact .bind hstep inferInstance fun o o' t t' like => like.option inferInstance fun _ _ _ => inferInstance

variable {argument : Read TypeExpr} [Forward argument]
  [hargument : ∀ s s', Replays v v' argument argument s s']

theorem typeArguments (hk : s.kind = .less) :
    Replays v v' (Read.typeArguments argument) (Read.typeArguments argument) s s' := by
  refine .bind inferInstance (advance_of_ne (by rw [hk]; decide)) fun opening opening' t t' _ => ?_
  -- After the last argument a `>` is expected, so the arguments do not go up to the end.
  have closes (arguments : List TypeExpr) : Takes (do
        if (← expect .greater "`>`").isNone then report (.unclosed '<') opening
        return arguments) := fun t => (takes_expect _ (by decide) t).bind
  let goesOn (t : Cursor) : Prop := (decide (t.kind = .comma) || decide (t.kind = .greater)) = true
  refine congr (p := if goesOn t then _ else _) (q := if goesOn t' then _ else _) rfl rfl ?_
  by_cases ht : t.tokens = v
  · refine of_takes ht ?_
    split
    · exact Takes.bind_right (fun _ => Takes.bind_right fun _ => closes _) t
    · exact Takes.bind_right (fun _ => closes _) t
  · exact of_twin fun twin => .ite (by simp only [goesOn, twin.kind_of_ne ht]) (fun _ => inferInstance)
      fun _ => inferInstance

instance : Replays v v' (segmentArguments argument) (segmentArguments argument) s s' :=
  .get fun x => ite_kind x.twin rfl (by decide) inferInstance typeArguments inferInstance

/-- A separator is read again unless it is the last token before the end. -/
theorem separator (hgo : (Read.separator s).1 = true → (Read.separator s).2.tokens ≠ v) :
    Replays v v' Read.separator Read.separator s s' := by
  let separates (s : Cursor) : Prop :=
    ((s.kind = .dot || s.kind = .colonColon) && (s.peek 1).name?.isSome) = true
  have hrun (s : Cursor) : Read.separator s =
      (if separates s then (do let _ ← advance; return true) else return false : Read Bool) s :=
    rfl
  have hdots (s : Cursor) (h : separates s) : s.kind ≠ .eof ∧ s.kind.isParen = false ∧
      s.kind ≠ .comma ∧ s.kind ≠ .rightBracket := by
    simp only [separates, Bool.and_eq_true, Bool.or_eq_true, decide_eq_true_eq] at h
    rcases h.1 with hk | hk <;> simp [hk, TokenKind.isParen]
  refine of_twin fun twin => congr (hrun s) (hrun s') (ite_of (fun hs' => ?_)
    (fun hs hs' _ => of_takes (not_not.mp fun hend => hs' ?_) (takesAt_advance (hdots s hs).1).bind)
    (fun hs => .bind inferInstance (advance_of_ne (hdots s hs).1) inferInstance) inferInstance)
  · obtain ⟨-, hparen, h1, h2⟩ := hdots s' hs'
    rcases hv.peek_one twin hparen h1 h2 with hpeek | ⟨hparen', -⟩
    · simpa only [separates, hv.kind_of_kind twin hparen, hpeek] using hs'
    · simp only [separates] at hs'
      cases hp : s'.peek 1 <;> simp [hp, TokenKind.isParen, TokenKind.name?] at hparen' hs'
  · obtain ⟨heof, hparen, h1, h2⟩ := hdots s hs
    have hkind := twin.kind_of_ne hend
    rw [← hkind] at hparen h1 h2
    have hpeek : s'.peek 1 = s.peek 1 := by
      refine (hv.peek_one twin hparen h1 h2).resolve_right fun ⟨_, hv'⟩ => ?_
      rw [hrun, if_pos hs] at hgo
      exact hgo rfl ((tokens_advance heof twin.endsInEof).trans hv'.symm)
    simpa only [separates, hkind, hpeek] using hs

theorem nameSegment (hgo : (Read.nameSegment argument s).1.2 = true →
      (Read.nameSegment argument s).2.tokens ≠ v) :
    Replays v v' (Read.nameSegment argument) (Read.nameSegment argument) s s' := by
  refine ident_bindAt (fun o => by cases o <;> infer_instance) fun name hk hne => ?_
  rw [Read.nameSegment, bind_apply, ident_of_some hk] at hgo
  refine (advance_of_ne hne).bindAt fun _ => bindAt inferInstance fun _ => ?_
  exact (separator hgo).bindAt fun _ => inferInstance

instance : Replays v v' (qualifiedName argument) (qualifiedName argument) s s' := by
  let isGlobal (s : Cursor) : Bool := s.atWord "global" && s.peek 1 = .colonColon
  let names (isGlobal : Bool) (first : Span) : Read TypeExpr := do
    let segments ← gather (Read.nameSegment argument)
    return .named isGlobal segments (← spanFrom first)
  have hrun (s : Cursor) : qualifiedName argument s =
      (if isGlobal s then (do
        let _ ← advance
        let _ ← advance
        names (isGlobal s) s.span) else names (isGlobal s) s.span : Read TypeExpr) s := rfl
  have takes (isGlobal : Bool) (first : Span) : Takes (names isGlobal first) :=
    fun t => ((takes_nameSegment argument).gather t).bind
  have hnames (isGlobal : Bool) (first first' : Span) (t t' : Cursor) :
      Replays v v' (names isGlobal first) (names isGlobal first') t t' :=
    .bind inferInstance (gather_of_takes (takes_nameSegment argument)
      (fun s s' hgo => nameSegment hgo) t t') fun _ _ _ _ _ => inferInstance
  refine of_twin fun twin => congr (hrun s) (hrun s') ?_
  by_cases hs : s.tokens = v
  · -- There is no name left before the end.
    refine of_takes hs ?_
    split
    · exact Takes.bind_right (fun _ => Takes.bind_right fun _ => takes _ _) s
    · exact takes _ _ s
  have hkind := twin.kind_of_ne hs
  have hword (h : s.atWord "global" = true) : s.kind ≠ .eof ∧ s.kind.isParen = false ∧
      s.kind ≠ .comma ∧ s.kind ≠ .rightBracket := by
    cases hk : s.kind <;>
      simp [Cursor.atWord, hk, TokenKind.isWord, TokenKind.name?, TokenKind.isParen] at h ⊢
  by_cases hend : isGlobal s = true ∧ v = s.ahead
  · -- The double colon after `global` is not passed.
    obtain ⟨hglobal, hv'⟩ := hend
    have heof := (hword (Bool.and_eq_true_iff.mp hglobal).1).1
    rw [if_pos hglobal]
    refine of_takes_after ?_ fun _ => Takes.bind_right fun _ => takes _ _
    rw [tokens_advance heof twin.endsInEof, hv']
  · have hglobal : isGlobal s' = isGlobal s := by
      by_cases hw : s.atWord "global" = true
      · obtain ⟨-, hparen, h1, h2⟩ := hword hw
        rw [← hkind] at hparen h1 h2
        rcases hv.peek_one twin hparen h1 h2 with hpeek | ⟨hpeek, hv'⟩
        · simp only [isGlobal, Cursor.atWord, hkind, hpeek]
        · have hne : s'.peek 1 ≠ .colonColon := fun h => by simp [h, TokenKind.isParen] at hpeek
          have hfalse : isGlobal s = false := by simpa [hv'] using hend
          simp [isGlobal, hne, hfalse]
      · have hw' : s'.atWord "global" = false := by simpa [Cursor.atWord, hkind] using hw
        simp [isGlobal, hw, hw']
    rw [hglobal]
    refine .ite Iff.rfl (fun hg => ?_) fun _ => hnames _ _ _ s s'
    have heof := (hword (Bool.and_eq_true_iff.mp hg).1).1
    refine (advance_of_ne heof).bindAt fun _ => .bind inferInstance (advance_of_ne ?_) fun _ _ t t' _ =>
      hnames _ _ _ t t'
    rw [kind_advance heof twin.endsInEof, of_decide_eq_true (Bool.and_eq_true_iff.mp hg).2]
    decide

instance {type type' : TypeExpr} [htype : Alike type type'] (first first' : Span) :
    Replays v v' (typeSuffixes.oneSuffix first type)
      (typeSuffixes.oneSuffix first' type') s s' := by
  refine of_twin fun twin => congr (oneSuffix_eq ..) (oneSuffix_eq ..) ?_
  have hbracket {s : Cursor} (ha : s.atArraySuffix = true) : s.kind = .leftBracket := by
    simp only [Cursor.atArraySuffix, Bool.and_eq_true, decide_eq_true_eq] at ha
    exact ha.1
  refine ite_kind twin rfl (by decide) inferInstance (fun hk => .bind inferInstance (advance_of_ne ?_) ?_)
    fun _ => ite_of (fun ha' => ?_) (fun ha ha' _ => ?_) (fun ha => .bind inferInstance (advance_of_ne ?_) ?_)
    fun _ => ite_kind twin rfl (by simp) inferInstance (fun hk => .bind inferInstance (advance_of_ne ?_) ?_)
      inferInstance
  · rw [hk]
    decide
  · infer_instance
  · have hk' := hbracket ha'
    have hkind := hv.kind_of_kind twin (by rw [hk']; rfl)
    rcases hv.peek_one twin (by rw [hk']; rfl) (by rw [hk']; decide) (by rw [hk']; decide) with
      hpeek | ⟨hparen, -⟩
    · simpa only [Cursor.atArraySuffix, hkind, hpeek] using ha'
    · simp only [Cursor.atArraySuffix, Bool.and_eq_true, Bool.or_eq_true, decide_eq_true_eq] at ha'
      rcases ha'.2 with hp | hp <;> simp [hp, TokenKind.isParen] at hparen
  · have hk := hbracket ha
    have heof : s.kind ≠ .eof := by rw [hk]; decide
    by_cases hs : s.tokens = v
    · exact of_takes hs (takesAt_advance heof).bind
    have hkind := twin.kind_of_ne hs
    rcases hv.peek_one twin (by rw [hkind, hk]; rfl) (by rw [hkind, hk]; decide) (by rw [hkind, hk]; decide) with
      hpeek | ⟨-, hlast⟩
    · exact absurd (by simpa only [Cursor.atArraySuffix, hkind, hpeek] using ha) ha'
    · -- The closing bracket would be past the end.
      refine of_takes_after (by rw [tokens_advance heof twin.endsInEof, hlast]) fun _ => ?_
      exact .bind_right fun _ t => (takes_expect _ (by decide) t).bind
  · rw [hbracket ha]
    decide
  · infer_instance
  · rw [hk]
    simp
  · infer_instance

instance {type type' : TypeExpr} [htype : Alike type type'] (first first' : Span) :
    Replays v v' (typeSuffixes first type) (typeSuffixes first' type') s s' := by
  induction hn : s.size using Nat.strongRecOn generalizing s s' type type' with
  | _ n ih =>
    refine of_twin fun twin => congr (typeSuffixes_eq_bind ..) (typeSuffixes_eq_bind ..) ?_
    refine .bind (fun o => .bind inferInstance fun t => by cases o <;> infer_instance) inferInstance
      fun o o' t t' like => .getAt fun twin' => ?_
    refine like.option inferInstance fun longer longer' _ => ?_
    exact .ite (twin.size_lt_iff twin') (fun hlt => ih _ (hn ▸ hlt) rfl) fun _ => inferInstance

instance (first first' : Span) :
    Replays v v' (typeExprWith argument first) (typeExprWith argument first') s s' := by
  by_cases hs : s.tokens = v
  · exact of_takes hs (takes_typeExprWith argument first s)
  refine .getAt fun twin => .ite (by rw [twin.kind_of_ne hs]) (fun hk => ?_) fun _ => ?_
  · exact .bind inferInstance (skipGroup (by rw [hk]; decide)) inferInstance
  · exact .getAt fun twin => .ite (by rw [Cursor.atName, Cursor.atName, twin.kind_of_ne hs])
      inferInstance inferInstance

omit hargument in
instance (levels : Nat) : Replays v v' (typeExprWithin levels) (typeExprWithin levels) s s' := by
  induction levels generalizing s s' with
  | zero =>
    unfold typeExprWithin
    infer_instance
  | succ levels ih =>
    unfold typeExprWithin
    infer_instance

instance : Replays v v' typeExpr typeExpr s s' :=
  inferInstanceAs (Replays v v' (typeExprWithin maxNesting) (typeExprWithin maxNesting) s s')

end Replays

end

end SettingsLint
