import Mathlib.Data.List.Flatten
import SettingsLint.Proofs.Analysis.Layout
import SettingsLint.Proofs.Fix.Substitution
import SettingsLint.Proofs.Reading.PropertySpans

/-! # Where edits stand

The fix for a property edits its binding attributes: at the end of a name, at an argument or
its value, or before a closing parenthesis. In a text with errors some of these may be missing
and have an empty place instead. All the same, what is read of an attribute stands between the
cursors before and after it (`Cursor.Between`), and from edge to edge of tokens. So the edits are
in order, and they come before the name of the property.
-/

namespace SettingsLint

/-! ## Between two cursors -/

/-- A token starts or ends at the offset. -/
def IsEdge (tokens : List Token) (n : Nat) : Prop :=
  ∃ t ∈ tokens, n = t.span.start ∨ n = t.span.stop

/-- The span lies between the cursors and goes from an edge of a token to another one. -/
structure Cursor.Between (s t : Cursor) (span : Span) : Prop where
  start : s.span.start ≤ span.start
  valid : span.start ≤ span.stop
  stop : span.stop ≤ t.span.start
  startEdge : IsEdge s.tokens span.start
  stopEdge : IsEdge s.tokens span.stop

/-- The cursor stands on tokens in order, after the last one that was read. -/
structure Cursor.Settled (s : Cursor) : Prop where
  ordered : Ordered s.tokens
  ends : EndsInEof s.tokens
  after : ∀ n ∈ s.lastStop, n ≤ s.span.start

section

variable {s t r : Cursor} {span : Span}

/-- Once something has been read the cursor stands after it. -/
theorem Cursor.Reaches.settled (h : s.Reaches t) (hlt : t.size < s.size) (ho : Ordered s.tokens)
    (hs : EndsInEof s.tokens) : t.Settled := by
  refine ⟨ho.of_suffix h.suffix, h.endsInEof hs, fun n hn => ?_⟩
  obtain ⟨u, last, hu⟩ := h.exists_last hlt
  have hstop := h.previousStop hu
  rw [Cursor.previousStop, Option.mem_def.1 hn, Option.getD_some] at hstop
  rw [hu] at ho
  rw [hstop]
  exact ho.stop_le (List.mem_append_right u (List.mem_singleton_self last)) List.mem_cons_self

/-- Where nothing has been read the cursor stands on the same token. -/
theorem Cursor.Reaches.current_eq (h : s.Reaches t) (hlt : ¬ t.size < s.size) :
    t.tokens = s.tokens ∧ t.lastStop = s.lastStop := by
  obtain ⟨u, hu, hstop⟩ := h.read
  have hlength := congrArg List.length hu
  simp only [Cursor.tokens, Cursor.size, List.length_append, List.length_cons] at hlength hlt
  obtain rfl : u = [] := List.length_eq_zero_iff.1 (by omega)
  exact ⟨hu.symm, hstop⟩

theorem Cursor.span_eq_of_tokens (h : t.tokens = s.tokens) : t.span = s.span :=
  congrArg Token.span (List.cons.inj h).1

theorem Cursor.Settled.reaches (hs : s.Settled) (h : s.Reaches t) : t.Settled := by
  by_cases hlt : t.size < s.size
  · exact h.settled hlt hs.ordered hs.ends
  · obtain ⟨htokens, hstop⟩ := h.current_eq hlt
    refine ⟨htokens ▸ hs.ordered, htokens ▸ hs.ends, ?_⟩
    rw [hstop, Cursor.span_eq_of_tokens htokens]
    exact hs.after

namespace Cursor.Between

theorem mono_left (h : t.Between r span) (hst : s.Reaches t) (ho : Ordered s.tokens) :
    s.Between r span := by
  have hedge {n : Nat} : IsEdge t.tokens n → IsEdge s.tokens n := fun ⟨x, hx, hn⟩ =>
    ⟨x, hst.suffix.subset hx, hn⟩
  exact ⟨Nat.le_trans (hst.start_le ho) h.start, h.valid, h.stop, hedge h.startEdge, hedge h.stopEdge⟩

theorem mono_right (h : s.Between t span) (htr : t.Reaches r) (ho : Ordered t.tokens) :
    s.Between r span :=
  ⟨h.start, h.valid, Nat.le_trans h.stop (htr.start_le ho), h.startEdge, h.stopEdge⟩

theorem pointStart (h : s.Between t span) : s.Between t (.point span.start) :=
  ⟨h.start, Nat.le_refl _, Nat.le_trans h.valid h.stop, h.startEdge, h.startEdge⟩

theorem pointStop (h : s.Between t span) : s.Between t (.point span.stop) :=
  ⟨Nat.le_trans h.start h.valid, Nat.le_refl _, h.stop, h.stopEdge, h.stopEdge⟩

/-- What is read from a cursor lies between it and the one after. -/
theorem spanFrom (hs : s.Settled) (h : s.Reaches t) : s.Between t (t.spanFrom s.span) := by
  have hself : IsEdge s.tokens s.span.start := ⟨s.current, List.mem_cons_self, .inl rfl⟩
  by_cases hlt : t.size < s.size
  · obtain ⟨u, last, hu⟩ := h.exists_last hlt
    have hlast : last ∈ s.tokens := by simp [hu]
    exact ⟨Nat.le_refl _, Nat.le_max_right .., h.spanFrom_stop_le hs.ordered hlt, hself,
      last, hlast, .inr (h.spanFrom_stop hs.ordered hu)⟩
  · -- Nothing was read, so the span is empty.
    obtain ⟨htokens, hstop⟩ := h.current_eq hlt
    have hspan := Cursor.span_eq_of_tokens htokens
    have hempty : (t.spanFrom s.span).stop = s.span.start := by
      refine Nat.max_eq_right ?_
      rw [previousStop, hstop, hspan]
      cases hl : s.lastStop with
      | none => exact Nat.le_refl _
      | some n => exact hs.after n hl
    refine ⟨Nat.le_refl _, Nat.le_max_right .., ?_, hself, hempty ▸ hself⟩
    rw [hempty, hspan]

/-- The place where reading starts. -/
theorem here (h : s.Reaches t) (ho : Ordered s.tokens) : s.Between t (.point s.span.start) :=
  have hself : IsEdge s.tokens s.span.start := ⟨s.current, List.mem_cons_self, .inl rfl⟩
  ⟨Nat.le_refl _, Nat.le_refl _, h.start_le ho, hself, hself⟩

/-- The place where the last token that was read ends. -/
theorem previousStop (h : s.Reaches t) (hlt : t.size < s.size) (ho : Ordered s.tokens) :
    s.Between t (.point t.previousStop) := by
  obtain ⟨u, last, hu⟩ := h.exists_last hlt
  have hedge : IsEdge s.tokens t.previousStop := ⟨last, by simp [hu], .inr (h.previousStop hu)⟩
  refine ⟨Nat.le_of_lt (h.start_lt_previousStop hlt ho), Nat.le_refl _, ?_, hedge, hedge⟩
  exact Nat.le_trans (Nat.le_max_left ..) (h.spanFrom_stop_le ho hlt)

end Cursor.Between

end

/-! ## Arguments -/

namespace Read

variable {s : Cursor}

/-- What holds of one round of a loop, and of a round and the rest, holds of the loop. -/
theorem gather_induct {step : Read (Option α × Bool)} {P : Cursor → List α × Cursor → Prop}
    (once : ∀ s, P s ((step s).1.1.toList, (step s).2))
    (more : ∀ s rest, P (step s).2 rest → P s ((step s).1.1.toList ++ rest.1, rest.2)) (s : Cursor) :
    P s (gather step s) := by
  induction hn : s.size using Nat.strongRecOn generalizing s with
  | ind n ih =>
    rw [gather_eq]
    split
    · next hlt =>
      have hlt : (step s).2.size < s.size := by simpa using (Bool.and_eq_true_iff.1 hlt).2
      exact more s _ (ih _ (hn ▸ hlt) _ rfl)
    · exact once s

/-- An item of a list is what its reader gives, and a comma after it is read, too. -/
theorem reaches_listItem {closing : TokenKind} (item : Read (Option α))
    (h : ¬ (s.kind = closing || s.atEnd) = true) :
    (listItem closing item s).1.1 = (item s).1 ∧ (item s).2.Reaches (listItem closing item s).2 := by
  rw [listItem_of_go h, bind_apply]
  cases (item s).1 with
  | none => exact ⟨rfl, .refl _⟩
  | some a => exact ⟨rfl, Forward.reaches (item s).2⟩

theorem between_argumentValue (hs : s.Settled) :
    s.Between (argumentValue s).2 (argumentValue s).1.span := by
  have hreach : s.Reaches (argumentValue s).2 := Forward.reaches s
  rcases spans_argumentValue s with h | ⟨h, -⟩ <;> rw [h]
  · exact .spanFrom hs hreach
  · exact .here hreach hs.ordered

/-- An argument and its value lie between the cursors. -/
def ArgumentBetween (s t : Cursor) (a : Argument) : Prop :=
  s.Between t a.span ∧ s.Between t a.value.span

theorem argumentBetween (hs : s.Settled) : ArgumentBetween s (argument s).2 (argument s).1 := by
  have hname : s.Reaches (argumentName s).2 := Forward.reaches s
  refine ⟨.spanFrom hs (Forward.reaches s), ?_⟩
  exact (between_argumentValue (hs.reaches hname)).mono_left hname hs.ordered

theorem argumentBetween_gather (hs : s.Settled) :
    ∀ a ∈ (gather (listItem .rightParen (some <$> argument)) s).1,
      ArgumentBetween s (gather (listItem .rightParen (some <$> argument)) s).2 a := by
  have hround (s : Cursor) (hs : s.Settled) :
      ∀ a ∈ (listItem .rightParen (some <$> argument) s).1.1.toList,
        ArgumentBetween s (listItem .rightParen (some <$> argument) s).2 a := by
    by_cases hend : (s.kind = .rightParen || s.atEnd) = true
    · rw [listItem_of_end hend]
      exact List.forall_mem_nil _
    · obtain ⟨hitem, hreach⟩ := reaches_listItem (some <$> argument) hend
      have ho : Ordered (argument s).2.tokens :=
        (hs.reaches (Forward.reaches s)).ordered
      rw [hitem]
      refine List.forall_mem_singleton.2 ⟨?_, ?_⟩
      · exact (argumentBetween hs).1.mono_right hreach ho
      · exact (argumentBetween hs).2.mono_right hreach ho
  refine (gather_induct (P := fun s r => s.Settled → s.Reaches r.2 ∧ ∀ a ∈ r.1, ArgumentBetween s r.2 a)
    (fun s hs => ⟨Forward.reaches s, hround s hs⟩)
    (fun s rest ih hs => ?_) s hs).2
  have hstep := Forward.reaches (r := listItem .rightParen (some <$> argument)) s
  obtain ⟨hrest, hitems⟩ := ih (hs.reaches hstep)
  refine ⟨hstep.trans hrest, List.forall_mem_append.2 ⟨fun a ha => ?_, fun a ha => ?_⟩⟩
  · have h := hround s hs a ha
    have ho := (hs.reaches hstep).ordered
    exact ⟨h.1.mono_right hrest ho, h.2.mono_right hrest ho⟩
  · have h := hitems a ha
    exact ⟨h.1.mono_left hstep hs.ordered, h.2.mono_left hstep hs.ordered⟩

theorem argumentList_eq (s t : Cursor)
    (ht : (gather (listItem .rightParen (some <$> argument)) (advance s).2).2 = t) : argumentList s
      = (match (expect .rightParen "`)`" t).1 with
        | some closing => do
          return ⟨s.span, closing, (gather (listItem .rightParen (some <$> argument)) (advance s).2).1⟩
        | none => do
          return ⟨s.span, Span.point (← get).previousStop,
            (gather (listItem .rightParen (some <$> argument)) (advance s).2).1⟩ : Read ArgumentList)
        (expect .rightParen "`)`" t).2 := by
  subst ht
  rfl

/-- The arguments lie between the cursors, and so does the place where the closing parenthesis
    starts or is missing. -/
theorem between_argumentList (hs : s.Settled) (hk : s.kind ≠ .eof) :
    (∀ a ∈ (argumentList s).1.arguments, ArgumentBetween s (argumentList s).2 a) ∧
      s.Between (argumentList s).2 (.point (argumentList s).1.closing.start) := by
  let t := (gather (listItem .rightParen (some <$> argument)) (advance s).2).2
  have hopen : s.Reaches (advance s).2 := Forward.reaches s
  have hargs : (advance s).2.Reaches t :=
    Forward.reaches _
  have hst := hopen.trans hargs
  have hclose : t.Reaches (expect .rightParen "`)`" t).2 := Forward.reaches (r := expect .rightParen "`)`") t
  have hall : ∀ a ∈ (gather (listItem .rightParen (some <$> argument)) (advance s).2).1,
      ArgumentBetween s (expect .rightParen "`)`" t).2 a := by
    intro a ha
    have h := argumentBetween_gather (hs.reaches hopen) a ha
    have ho := (hs.reaches hst).ordered
    exact ⟨(h.1.mono_left hopen hs.ordered).mono_right hclose ho,
      (h.2.mono_left hopen hs.ordered).mono_right hclose ho⟩
  have hlt : t.size < s.size := Nat.lt_of_le_of_lt hargs.size_le (size_advance_lt hk hs.ends)
  rw [argumentList_eq s t rfl]
  by_cases hparen : t.kind = .rightParen
  · rw [expect_of_eq hparen] at hall hclose ⊢
    refine ⟨hall, ?_⟩
    exact (Cursor.Between.here hclose (hs.reaches hst).ordered).mono_left hst hs.ordered
  · rw [expect_of_ne hparen] at hall ⊢
    refine ⟨hall, ?_⟩
    exact Cursor.Between.previousStop (hst.trans (.report t _ _)) hlt hs.ordered

end Read

/-! ## Attributes -/

/-- The spans lie between the cursors, one after the other. -/
structure InTurn (s t : Cursor) (spans : List Span) : Prop where
  apart : spans.Pairwise fun a b => a.stop ≤ b.start
  between : ∀ a ∈ spans, s.Between t a

namespace InTurn

variable {s t r : Cursor} {spans spans' : List Span} {span : Span}

theorem nil (s t : Cursor) : InTurn s t [] := ⟨.nil, List.forall_mem_nil _⟩

theorem single (h : s.Between t span) : InTurn s t [span] :=
  ⟨List.pairwise_singleton .., List.forall_mem_singleton.2 h⟩

theorem append (h : InTurn s t spans) (g : InTurn t r spans') (hst : s.Reaches t) (htr : t.Reaches r)
    (ho : Ordered s.tokens) : InTurn s r (spans ++ spans') := by
  refine ⟨List.pairwise_append.2 ⟨h.apart, g.apart, fun a ha b hb => ?_⟩,
    List.forall_mem_append.2 ⟨fun a ha => ?_, fun b hb => ?_⟩⟩
  · exact Nat.le_trans (h.between a ha).stop (g.between b hb).start
  · exact (h.between a ha).mono_right htr (ho.of_suffix hst.suffix)
  · exact (g.between b hb).mono_left hst ho

theorem mono_left (g : InTurn t r spans) (hst : s.Reaches t) (htr : t.Reaches r)
    (ho : Ordered s.tokens) : InTurn s r spans :=
  (InTurn.nil s t).append g hst htr ho

theorem mono_right (h : InTurn s t spans) (hst : s.Reaches t) (htr : t.Reaches r)
    (ho : Ordered s.tokens) : InTurn s r spans := by
  have := h.append (.nil t r) hst htr ho
  rwa [List.append_nil] at this

end InTurn

namespace Read

open TypeArgumentFix (editIn editFor insertionFor isTypeArgument isSet)

variable {s t : Cursor} (typeOf : String)

/-- The edit in an argument list lies where its arguments and its end do. -/
theorem between_editIn {list : ArgumentList} (h : ∀ a ∈ list.arguments, ArgumentBetween s t a)
    (hclose : s.Between t (.point list.closing.start)) : s.Between t (editIn typeOf list).span := by
  rw [editIn]
  cases htype : list.arguments.find? isTypeArgument with
  | some a => exact (h a (List.mem_of_find?_eq_some htype)).2
  | none =>
    rw [insertionFor]
    cases hset : list.arguments.find? isSet with
    | some a => exact (h a (List.mem_of_find?_eq_some hset)).1.pointStart
    | none =>
      cases hlast : list.arguments.getLast? with
      | some a => exact (h a (List.mem_of_getLast? hlast)).1.pointStop
      | none => exact hclose

theorem between_editFor (hs : s.Settled) :
    s.Between (namedAttribute s).2 (editFor typeOf (namedAttribute s).1).span := by
  let t := (qualifiedName typeExpr s).2
  have hst : s.Reaches t := Forward.reaches s
  by_cases hk : t.kind = .leftParen
  · have hrun := namedAttribute_of_arguments hk
    obtain ⟨hargs, hclose⟩ := between_argumentList (hs.reaches hst) (by rw [hk]; simp)
    rw [hrun]
    exact (between_editIn typeOf hargs hclose).mono_left hst hs.ordered
  · have hrun := namedAttribute_of_none hk
    have hspan := span_qualifiedName typeExpr s
    rw [hrun]
    exact (hspan ▸ Cursor.Between.spanFrom hs hst).pointStop

/-- Where the edits of the attributes stand. -/
def editSpans (attributes : List Attribute) : List Span := attributes.map fun a => (editFor typeOf a).span

theorem inTurn_attributeItem (hs : s.Settled) :
    InTurn s (attributeItem s).2 (editSpans typeOf (attributeItem s).1.toList) := by
  show InTurn s ((if s.atName = true then _ else _ : Read (Option Attribute)) s).2
    (editSpans typeOf ((if _ then _ else _ : Read (Option Attribute)) s).1.toList)
  split
  · exact .single (between_editFor typeOf hs)
  · exact .nil _ _

theorem inTurn_attributes (hs : s.Settled) :
    InTurn s (attributes s).2 (editSpans typeOf (attributes s).1) := by
  have hround (s : Cursor) (hs : s.Settled) :
      InTurn s (listItem .rightBracket attributeItem s).2
        (editSpans typeOf (listItem .rightBracket attributeItem s).1.1.toList) := by
    by_cases hend : (s.kind = .rightBracket || s.atEnd) = true
    · rw [listItem_of_end hend]
      exact .nil _ _
    · obtain ⟨hitem, hreach⟩ := reaches_listItem attributeItem hend
      rw [hitem]
      exact (inTurn_attributeItem typeOf hs).mono_right (Forward.reaches s) hreach
        hs.ordered
  refine (gather_induct (P := fun s r => s.Settled → s.Reaches r.2 ∧ InTurn s r.2 (editSpans typeOf r.1))
    (fun s hs => ⟨Forward.reaches s, hround s hs⟩)
    (fun s rest ih hs => ?_) s hs).2
  have hstep := Forward.reaches (r := listItem .rightBracket attributeItem) s
  obtain ⟨hrest, hspans⟩ := ih (hs.reaches hstep)
  refine ⟨hstep.trans hrest, ?_⟩
  rw [editSpans, List.map_append]
  exact (hround s hs).append hspans hstep hrest hs.ordered

theorem attributes_closeAttributes (first : Span) (target : Option Ident) (attributes : List Attribute)
    (closing : Option Span) (s : Cursor) :
    (closeAttributes first target attributes closing s).1.attributes = attributes := by
  unfold closeAttributes
  split <;> rfl

/-- The edits in a list stand after its opening bracket. -/
theorem inTurn_attributeList (ho : Ordered s.tokens) (hs : EndsInEof s.tokens) (hk : s.kind ≠ .eof) :
    (advance s).2.Reaches (attributeList s).2 ∧
      InTurn (advance s).2 (attributeList s).2 (editSpans typeOf (attributeList s).1.attributes) := by
  have hopen : s.Reaches (advance s).2 := Forward.reaches s
  have htarget : (advance s).2.Reaches s.afterTarget := Forward.reaches _
  have hsettled : s.afterTarget.Settled :=
    (hopen.settled (size_advance_lt hk hs) ho hs).reaches htarget
  have hattributes : s.afterTarget.Reaches (attributes s.afterTarget).2 := Forward.reaches _
  have hinside := htarget.trans hattributes
  have hclose := Forward.reaches (r := expect .rightBracket "`]`" >>= closeAttributes s.span
    (attributeTarget (advance s).2).1 (attributes s.afterTarget).1) (attributes s.afterTarget).2
  rw [attributeList_eq, bind_apply, attributes_closeAttributes]
  exact ⟨hinside.trans hclose,
    ((inTurn_attributes typeOf hsettled).mono_left htarget hattributes (ho.of_suffix hopen.suffix)).mono_right
      hinside hclose (ho.of_suffix hopen.suffix)⟩

theorem inTurn_attributeLists (ho : Ordered s.tokens) (hs : EndsInEof s.tokens) :
    InTurn s (attributeLists s).2
      (editSpans typeOf ((attributeLists s).1.flatMap (·.attributes))) := by
  induction hn : s.size using Nat.strongRecOn generalizing s with
  | ind n ih =>
    by_cases hk : s.kind = .leftBracket
    · have hlt := size_attributeList_lt hs hk
      have hlist : s.Reaches (attributeList s).2 := Forward.reaches s
      obtain ⟨hreach, hturn⟩ := inTurn_attributeList typeOf ho hs (by rw [hk]; simp)
      rw [attributeLists_of_go hk hlt, List.flatMap_cons, editSpans, List.map_append]
      exact (hturn.mono_left (Cursor.Reaches.advance s) hreach ho).append
        (ih _ (hn ▸ hlt) (ho.of_suffix hlist.suffix) (hlist.endsInEof hs) rfl) hlist
        (Forward.reaches _) ho
    · rw [attributeLists_of_stop hk]
      exact .nil s s

end Read

/-! ## Properties -/

open TypeArgumentFix (editFor isBinding)

/-- The attributes that are edited are some of those of the property, in the same order. -/
theorem Property.bindingAttributes_sublist (p : Property) :
    (p.ownAttributes.filter isBinding).Sublist p.allAttributes :=
  List.filter_sublist.trans (List.filter_sublist.flatMap _)

namespace Property.ReadFrom

variable {clean : Prop} {tokens : List Token} {p : Property}

/-- A property goes from a cursor to another one. First come its attributes, and its name is
    read some time after them. -/
theorem exists_cursors (h : p.ReadFrom clean tokens) (hs : EndsInEof tokens) :
    ∃ s t : Cursor, s.tokens <:+ tokens ∧ s.Reaches t ∧ p.span = t.spanFrom s.span ∧
      p.attributes = (Read.attributeLists s).1 ∧
      (Read.attributeLists s).2.Reaches t ∧ (Read.attributeLists s).2.Passed t p.name.span := by
  obtain ⟨s, typeName, hsuffix, hread, -⟩ := h
  have hs := hs.of_suffix hsuffix s.tokens_ne_nil
  have hlists : s.Reaches (Read.attributeLists s).2 := Read.Forward.reaches s
  have hmods : (Read.attributeLists s).2.Reaches (Read.memberHead s).2 :=
    Read.Forward.reaches (Read.attributeLists s).2
  have htype := hmods.trans (Read.Forward.reaches (r := Read.typeExpr) (Read.memberHead s).2)
  obtain ⟨hattributes, -, hspan⟩ := Read.plainMember_readAs hread
  have hname := (Read.passed_plainMember ((hlists.trans hmods).endsInEof hs) hread).mono_left htype
  have hend := hmods.trans (Read.Forward.reaches
    (r := Read.plainMember typeName s.span (Read.attributeLists s).1 (Read.memberHead s).1.2.2) _)
  exact ⟨s, _, hsuffix, hlists.trans hend, hspan, hattributes, hend, hname⟩

/-- A property goes from edge to edge of tokens. -/
theorem edges (h : p.ReadFrom clean tokens) (ho : Ordered tokens) (hs : EndsInEof tokens) :
    IsEdge tokens p.span.start ∧ IsEdge tokens p.span.stop ∧
      p.span.start ≤ p.name.span.start ∧ p.name.span.start < p.span.stop := by
  obtain ⟨s, t, hsuffix, hst, hspan, -, hlists, hname⟩ := h.exists_cursors hs
  have ho := ho.of_suffix hsuffix
  have hname := hname.mono_left (Read.Forward.reaches s)
  obtain ⟨u, last, hu⟩ := hst.exists_last hname.size_lt
  rw [hspan]
  refine ⟨⟨s.current, hsuffix.subset List.mem_cons_self, .inl rfl⟩, ⟨last, ?_, .inr ?_⟩, ?_⟩
  · exact hsuffix.subset (by simp [hu])
  · exact hst.spanFrom_stop ho hu
  · exact hname.inside hst ho

/-- The edits of a property come one after the other, between its start and its name. -/
theorem edits (h : p.ReadFrom clean tokens) (ho : Ordered tokens) (hs : EndsInEof tokens)
    (typeOf : String) :
    ((p.ownAttributes.filter isBinding).map (editFor typeOf)).Pairwise
        (fun e f => e.span.stop ≤ f.span.start) ∧
      ∀ e ∈ (p.ownAttributes.filter isBinding).map (editFor typeOf),
        p.span.start ≤ e.span.start ∧ e.span.start ≤ e.span.stop ∧ e.span.stop ≤ p.name.span.start ∧
          IsEdge tokens e.span.start ∧ IsEdge tokens e.span.stop := by
  obtain ⟨s, t, hsuffix, hst, hspan, hattributes, hlists, hname⟩ := h.exists_cursors hs
  have ho := ho.of_suffix hsuffix
  have hs := hs.of_suffix hsuffix s.tokens_ne_nil
  have hreach : s.Reaches (Read.attributeLists s).2 := Read.Forward.reaches s
  have hturn := Read.inTurn_attributeLists typeOf ho hs
  rw [← hattributes] at hturn
  have hsublist := p.bindingAttributes_sublist
  have hbefore := (hname.inside hlists (ho.of_suffix hreach.suffix)).1
  refine ⟨?_, List.forall_mem_map.2 fun a ha => ?_⟩
  · have hall := hturn.apart.sublist (hsublist.map fun a => (editFor typeOf a).span)
    rwa [List.pairwise_map] at hall ⊢
  · have hbetween := hturn.between _ (List.mem_map_of_mem (hsublist.subset ha))
    have hedge {n : Nat} : IsEdge s.tokens n → IsEdge tokens n := fun ⟨x, hx, hn⟩ =>
      ⟨x, hsuffix.subset hx, hn⟩
    exact ⟨hspan ▸ hbetween.start, hbetween.valid, Nat.le_trans hbetween.stop hbefore,
      hedge hbetween.startEdge, hedge hbetween.stopEdge⟩

end Property.ReadFrom

/-! ## Fixes -/

theorem Token.isBoundary_of_isEdge {text : String} {n : Nat} (h : IsEdge (lexToEnd text) n) :
    Text.IsBoundary text.toList n := by
  obtain ⟨t, ht, rfl | rfl⟩ := h
  · exact (isBoundary_lexToEnd ht).1
  · exact (isBoundary_lexToEnd ht).2

namespace TypeArgumentFix

open Text (IsBoundary byteSize)

/-- A fix is about the property at the place of the diagnostic, and edits its binding
    attributes. -/
theorem exists_of_fix?_eq_some {source : Source} {d : Diagnostic} {fix : CodeFix}
    (h : fix? source d = some fix) : ∃ p, source.unit.propertyAt? d.span.start = some p ∧
      fix.edits = (p.ownAttributes.filter isBinding).map
        (editFor (typeOfFor source (d.property? isReferenceKey = some "true") p)) := by
  obtain ⟨p, hp, h⟩ := Option.bind_eq_some_iff.1 h
  dsimp only at h
  split at h
  · cases h
  · exact ⟨p, hp, by rw [← Option.some.inj h]⟩

/-- The edits of a fix are well formed, in texts with errors, too. They come one after the other
    without an overlap, at boundaries of characters, inside of the property at the place of the
    diagnostic and before its name. So all of them are made, and what stands before and after
    the property stays as it is. -/
theorem edits_inOrder (text : String) (d : Diagnostic) (fix : CodeFix)
    (h : fix? (Source.parse text) d = some fix) :
    ∃ p, (Source.parse text).unit.propertyAt? d.span.start = some p ∧
      fix.edits.Pairwise (fun e f => e.span.stop ≤ f.span.start) ∧
      (∀ e ∈ fix.edits, e.span.start ≤ e.span.stop ∧ e.span.stop ≤ byteSize text.toList ∧
        IsBoundary text.toList e.span.start ∧ IsBoundary text.toList e.span.stop ∧
        p.span.contains e.span = true ∧ e.span.stop ≤ p.name.span.start) ∧
      (∃ kept, TextEdit.slices? (TextEdit.gaps (byteSize text.toList) 0 fix.edits) text.toList = some kept ∧
        (fix.apply text).toList = Text.interleave kept (fix.edits.map (·.newText.toList))) ∧
      ∃ before declaration fixed after, text.toList = before ++ (declaration ++ after) ∧
        byteSize before = p.span.start ∧ byteSize (before ++ declaration) = p.span.stop ∧
        (fix.apply text).toList = before ++ (fixed ++ after) := by
  obtain ⟨p, hp, hedits⟩ := exists_of_fix?_eq_some h
  have hlaid := Token.laid_lexToEnd text
  have hread := Source.readFrom_parse (List.mem_of_find?_eq_some hp)
  obtain ⟨hstart, hstop, hfirst, hname⟩ := hread.edges hlaid.ordered hlaid.ends
  obtain ⟨hapart, hplaces⟩ := hread.edits hlaid.ordered hlaid.ends
    (typeOfFor (Source.parse text) (d.property? isReferenceKey = some "true") p)
  rw [← hedits] at hapart hplaces
  have hinOrder : TextEdit.InOrder text.toList fix.edits :=
    ⟨hapart.isChain, fun e he => (hplaces e he).2.1,
      fun e he => Token.isBoundary_of_isEdge (hplaces e he).2.2.2.1,
      fun e he => Token.isBoundary_of_isEdge (hplaces e he).2.2.2.2⟩
  refine ⟨p, hp, hapart, fun e he => ?_, ?_, ?_⟩
  · obtain ⟨hfirst, hvalid, hlast, -, -⟩ := hplaces e he
    refine ⟨hvalid, (hinOrder.stop e he).le_byteSize, hinOrder.start e he, hinOrder.stop e he, ?_, hlast⟩
    simp only [Span.contains, Bool.and_eq_true, decide_eq_true_eq]
    omega
  · obtain ⟨kept, replaced, hkept, -, -, hnew⟩ := @TextEdit.exists_interleave fix.edits [] text.toList
      hinOrder (fun _ _ => Nat.zero_le _)
    exact ⟨kept, hkept, by rw [CodeFix.apply, String.toList_ofList]; exact hnew⟩
  · obtain ⟨before, rest, htext, hbefore⟩ := Token.isBoundary_of_isEdge hstart
    have hstop := Token.isBoundary_of_isEdge hstop
    rw [htext] at hstop
    obtain ⟨declaration, after, rfl, hdeclaration⟩ := hstop.exists_append (by omega)
    rw [htext] at hinOrder
    obtain ⟨fixed, hfixed⟩ := TextEdit.applyAll_between hinOrder
      (fun e he => hbefore ▸ (hplaces e he).1)
      (fun e he => hdeclaration ▸ Nat.le_trans (hplaces e he).2.2.1 (Nat.le_of_lt hname))
    refine ⟨before, declaration, fixed, after, htext, hbefore, hdeclaration, ?_⟩
    rw [CodeFix.apply, String.toList_ofList, htext, hfixed]

/-- A property in a text with errors: the value of an argument and the closing parenthesis after
    it are missing. -/
theorem edits_inOrder_missing_value :
    let text := "class C \x7b [CommandOption(optionType: , ] [CommandArgument] int P \x7b get; \x7d \x7d"
    let fix : CodeFix := ⟨title, key, [.insertion 37 "typeof(int)", .insertion 57 "(typeof(int))"]⟩
    (Source.parse text).errors.length = 3 ∧
      fix? (Source.parse text) ⟨"Spectre1050", .warning, "", ⟨63, 64⟩, [], .empty, none⟩ = some fix ∧
      ∃ before declaration fixed after, text.toList = before ++ (declaration ++ after) ∧
        byteSize before = 10 ∧ byteSize (before ++ declaration) = 73 ∧
        (fix.apply text).toList = before ++ (fixed ++ after) := by
  have hfix : fix? (Source.parse
      "class C \x7b [CommandOption(optionType: , ] [CommandArgument] int P \x7b get; \x7d \x7d")
      ⟨"Spectre1050", .warning, "", ⟨63, 64⟩, [], .empty, none⟩
        = some ⟨title, key, [.insertion 37 "typeof(int)", .insertion 57 "(typeof(int))"]⟩ := by
    decide +kernel
  have hspan : ((Source.parse
      "class C \x7b [CommandOption(optionType: , ] [CommandArgument] int P \x7b get; \x7d \x7d").unit.propertyAt?
        63).map (·.span) = some ⟨10, 73⟩ := by decide +kernel
  obtain ⟨p, hp, -, -, -, hframe⟩ := edits_inOrder _ _ _ hfix
  rw [hp, Option.map_some, Option.some_inj] at hspan
  rw [hspan] at hframe
  exact ⟨by decide +kernel, hfix, hframe⟩

end TypeArgumentFix

end SettingsLint
