import Mathlib.Data.List.Pairwise
import SettingsLint.Proofs.Reading.MemberParts
import SettingsLint.Proofs.Reading.Numbering
import SettingsLint.Proofs.Tree.Properties

/-! # Where properties stand

The properties of a unit stand one after the other: each ends before the next one starts,
those of nested types included. Every property contains its name. So a place inside a
property belongs to that property only.

`Spread s t ps` says this of the properties read between two cursors. It is put together
along the readers: what is read later starts where the cursor is.
-/

set_option synthInstance.maxSize 1024

namespace SettingsLint

/-! ## Between two cursors -/

/-- The token at the span has been read between the cursors. -/
def Cursor.Passed (s t : Cursor) (span : Span) : Prop :=
  ∃ u, s.tokens = u ++ t.tokens ∧ ∃ x ∈ u, x.span = span

/-- From one of the tokens on, the property is what is read as a member, without an error if
    `clean`. -/
def Property.ReadFrom (clean : Prop) (tokens : List Token) (p : Property) : Prop :=
  ∃ (s : Cursor) (typeName : String), s.tokens <:+ tokens ∧
    ((Read.memberHead >>= fun head => Read.plainMember typeName head.1 head.2.1 head.2.2) s).1
      = some (.property p) ∧
    (clean →
      ((Read.memberHead >>= fun head => Read.plainMember typeName head.1 head.2.1 head.2.2) s).2.errors = [])

/-- The properties stand one after the other between the cursors, and contain their names. -/
structure Spread (s t : Cursor) (ps : List Property) : Prop where
  apart : ps.Pairwise fun p q => p.span.stop ≤ q.span.start
  start : ∀ p ∈ ps, s.span.start ≤ p.span.start
  stop : ∀ p ∈ ps, p.span.stop ≤ t.span.start
  named : ∀ p ∈ ps, p.span.start ≤ p.name.span.start ∧ p.name.span.start < p.span.stop
  read : ∀ p ∈ ps, p.ReadFrom (t.errors = []) s.tokens

section

variable {s t r : Cursor} {span : Span} {ps qs : List Property}

/-- Reading goes on to the right. -/
theorem Cursor.Reaches.start_le (h : s.Reaches t) (ho : Ordered s.tokens) :
    s.span.start ≤ t.span.start := by
  obtain ⟨u, hu, -⟩ := h.read
  cases u with
  | nil =>
    have : s.current = t.current := (List.cons.inj hu).1
    rw [Cursor.span, this]
    exact Nat.le_refl _
  | cons x u =>
    have hx : s.current = x := (List.cons.inj hu).1
    rw [hu] at ho
    rw [Cursor.span, hx]
    exact Nat.le_of_lt (ho.start_lt List.mem_cons_self List.mem_cons_self)

/-- The last token that was read ends before the current one. -/
theorem Cursor.Reaches.spanFrom_stop_le (h : s.Reaches t) (ho : Ordered s.tokens)
    (hlt : t.size < s.size) : (t.spanFrom s.span).stop ≤ t.span.start := by
  obtain ⟨u, last, hu⟩ := h.exists_last hlt
  have hstop := h.previousStop hu
  refine Nat.max_le.mpr ⟨?_, h.start_le ho⟩
  rw [hstop]
  rw [hu] at ho
  exact ho.stop_le (List.mem_append_right _ (List.mem_singleton_self _)) List.mem_cons_self

theorem Cursor.Passed.mono_left (h : t.Passed r span) (hst : s.Reaches t) : s.Passed r span := by
  obtain ⟨u, hu, x, hx, hspan⟩ := h
  obtain ⟨w, hw, -⟩ := hst.read
  exact ⟨w ++ u, by rw [hw, hu, List.append_assoc], x, List.mem_append_right _ hx, hspan⟩

theorem Cursor.Passed.mono_right (h : s.Passed t span) (htr : t.Reaches r) : s.Passed r span := by
  obtain ⟨u, hu, x, hx, hspan⟩ := h
  obtain ⟨w, hw, -⟩ := htr.read
  exact ⟨u ++ w, by rw [hu, hw, List.append_assoc], x, List.mem_append_left _ hx, hspan⟩

theorem Cursor.Passed.size_lt (h : s.Passed t span) : t.size < s.size := by
  obtain ⟨u, hu, x, hx, -⟩ := h
  have hlength := congrArg List.length hu
  simp only [Cursor.tokens, List.length_append, List.length_cons] at hlength
  have := List.length_pos_of_mem hx
  rw [Cursor.size, Cursor.size]
  omega

/-- A token that was read lies inside the span of what was read. -/
theorem Cursor.Passed.inside (h : s.Passed t span) (hst : s.Reaches t) (ho : Ordered s.tokens) :
    s.span.start ≤ span.start ∧ span.start < (t.spanFrom s.span).stop := by
  obtain ⟨u, hu, x, hx, rfl⟩ := h
  obtain ⟨w, last, hw⟩ := hst.exists_last (Cursor.Passed.size_lt ⟨u, hu, x, hx, rfl⟩)
  obtain rfl : u = w ++ [last] := List.append_cancel_right (hu.symm.trans hw)
  have hfilled {y : Token} (hy : y ∈ w ++ [last]) : y.span.start < y.span.stop := by
    rw [hu] at ho
    exact (ho.filled_left t.tokens_ne_nil hy).2
  have hstop : (t.spanFrom s.span).stop = max last.span.stop s.span.start := by
    rw [Cursor.spanFrom, hst.previousStop hw]
  have hlast : x.span.stop ≤ last.span.stop := by
    rcases List.mem_append.mp hx with hx | hx
    · rw [hu, List.append_assoc] at ho
      exact Nat.le_trans (ho.stop_le hx List.mem_cons_self)
        (Nat.le_of_lt (hfilled (List.mem_append_right _ (List.mem_singleton_self _))))
    · exact Nat.le_of_eq (congrArg (·.span.stop) (List.mem_singleton.mp hx))
  refine ⟨?_, ?_⟩
  · -- The cursor stands on the first of the tokens read.
    cases hwl : w ++ [last] with
    | nil => simp at hwl
    | cons y rest =>
      have hy : s.current = y := (List.cons.inj (hwl ▸ hu)).1
      rw [hwl] at hx
      rw [hu, hwl] at ho
      rw [Cursor.span, hy]
      rcases List.mem_cons.mp hx with rfl | hx
      · exact Nat.le_refl _
      · exact Nat.le_of_lt (Ordered.start_lt (u := [y]) ho List.mem_cons_self
          (List.mem_append_left _ hx))
  · rw [hstop]
    exact Nat.lt_of_lt_of_le (hfilled hx) (Nat.le_trans hlast (Nat.le_max_left _ _))

theorem Property.ReadFrom.mono {clean clean' : Prop} {ts us : List Token} {p : Property}
    (h : p.ReadFrom clean us) (hs : us <:+ ts) (himp : clean' → clean) : p.ReadFrom clean' ts := by
  obtain ⟨s, typeName, hsuffix, hread, hclean⟩ := h
  exact ⟨s, typeName, hsuffix.trans hs, hread, fun h => hclean (himp h)⟩

theorem Spread.nil (s t : Cursor) : Spread s t [] := by
  constructor <;> simp

theorem Spread.append (h : Spread s t ps) (g : Spread t r qs) (hst : s.Reaches t) (htr : t.Reaches r)
    (ho : Ordered s.tokens) : Spread s r (ps ++ qs) := by
  have hs := hst.start_le ho
  have hr := htr.start_le (ho.of_suffix hst.suffix)
  refine ⟨?_, ?_, ?_, ?_, ?_⟩
  · refine List.pairwise_append.mpr ⟨h.apart, g.apart, fun p hp q hq => ?_⟩
    exact Nat.le_trans (h.stop p hp) (g.start q hq)
  · rw [List.forall_mem_append]
    exact ⟨h.start, fun q hq => Nat.le_trans hs (g.start q hq)⟩
  · rw [List.forall_mem_append]
    exact ⟨fun p hp => Nat.le_trans (h.stop p hp) hr, g.stop⟩
  · rw [List.forall_mem_append]
    exact ⟨h.named, g.named⟩
  · rw [List.forall_mem_append]
    exact ⟨fun p hp => (h.read p hp).mono List.suffix_rfl htr.clean,
      fun q hq => (g.read q hq).mono hst.suffix id⟩

/-- Two properties with a place in common are one. -/
theorem Spread.eq_of_common (h : Spread s t ps) {p q : Property} (hp : p ∈ ps) (hq : q ∈ ps)
    {offset : Nat} (hpo : p.span.containsOffset offset) (hqo : q.span.containsOffset offset) :
    p = q := by
  let R (p q : Property) : Prop := p.span.stop ≤ q.span.start ∨ q.span.stop ≤ p.span.start
  have hsymm : Std.Symm R := ⟨fun _ _ => Or.symm⟩
  have hpairs : ps.Pairwise R := h.apart.imp Or.inl
  refine Classical.byContradiction fun hne => ?_
  rcases hpairs.forall hp hq hne with hapart | hapart
  all_goals
    simp only [Span.containsOffset, Bool.and_eq_true, decide_eq_true_eq] at hpo hqo
    omega

theorem Spread.mono_left (g : Spread t r qs) (hst : s.Reaches t) (htr : t.Reaches r)
    (ho : Ordered s.tokens) : Spread s r qs :=
  (Spread.nil s t).append g hst htr ho

theorem Spread.mono_right (h : Spread s t ps) (hst : s.Reaches t) (htr : t.Reaches r)
    (ho : Ordered s.tokens) : Spread s r ps := by
  have := h.append (.nil t r) hst htr ho
  rwa [List.append_nil] at this

end

/-! ## Members -/

namespace Read

/-- What holds after one round of a loop, and of a round and the rest, holds of the loop. -/
theorem gatherWhile_induct {goOn : Cursor → Bool} {step : Read (Option α)}
    {P : Cursor → List α × Cursor → Prop} (stop : ∀ s, P s ([], s))
    (once : ∀ s, P s ((step s).1.toList, (step s).2))
    (more : ∀ s rest, P (step s).2 rest → P s ((step s).1.toList ++ rest.1, rest.2)) (s : Cursor) :
    P s (gatherWhile goOn step s) := by
  induction hn : s.size using Nat.strongRecOn generalizing s with
  | ind n ih =>
    cases hgo : goOn s with
    | false =>
      rw [gatherWhile_of_stop hgo]
      exact stop s
    | true =>
      rw [gatherWhile_of_go hgo]
      split
      · next hlt => exact more s _ (ih _ (hn ▸ hlt) _ rfl)
      · exact once s

variable {s₀ s : Cursor}

theorem passed_advance (h : s.kind ≠ .eof) (hs : EndsInEof s.tokens) :
    s.Passed s.advance s.span := by
  have htokens : s.advance.tokens = s.ahead := tokens_advance h hs
  exact ⟨[s.current], by rw [htokens]; rfl, s.current, List.mem_singleton_self _, rfl⟩

theorem passed_ident {what : String} {name : Ident} (hs : EndsInEof s.tokens)
    (h : (ident what s).1 = some name) : s.Passed (ident what s).2 name.span := by
  cases hk : s.kind.name? with
  | none =>
    rw [ident_of_none hk] at h
    cases h
  | some text =>
    rw [ident_of_some hk] at h ⊢
    cases h
    refine passed_advance (fun heof => ?_) hs
    rw [heof] at hk
    cases hk

/-- The names that a loop lists are tokens that have been read. -/
theorem passed_gatherWhile {goOn : Cursor → Bool} {step : Read (Option Ident)} [hf : Forward step]
    (h : ∀ s a, EndsInEof s.tokens → (step s).1 = some a → s.Passed (step s).2 a.span)
    (hs : EndsInEof s.tokens) :
    ∀ a ∈ (gatherWhile goOn step s).1, s.Passed (gatherWhile goOn step s).2 a.span := by
  have hstep (s : Cursor) (hs : EndsInEof s.tokens) :
      ∀ a ∈ (step s).1.toList, s.Passed (step s).2 a.span := fun a ha =>
    h s a hs (Option.mem_toList.mp ha)
  refine (gatherWhile_induct (P := fun s r => EndsInEof s.tokens → s.Reaches r.2 ∧
    ∀ a ∈ r.1, s.Passed r.2 a.span) (fun s _ => ⟨.refl s, List.forall_mem_nil _⟩)
    (fun s hs => ⟨hf.reaches s, hstep s hs⟩) (fun s rest ih hs => ?_) s hs).2
  obtain ⟨hreaches, hpassed⟩ := ih ((hf.reaches s).endsInEof hs)
  refine ⟨(hf.reaches s).trans hreaches, List.forall_mem_append.mpr ⟨fun a ha => ?_, fun a ha => ?_⟩⟩
  · exact (hstep s hs a ha).mono_right hreaches
  · exact (hpassed a ha).mono_left (hf.reaches s)

/-- The name of a member is a token that has been read. -/
theorem passed_memberName {name : Ident} (hs : EndsInEof s.tokens)
    (h : (memberName s).1 = some name) : s.Passed (memberName s).2 name.span := by
  rw [memberName, bind_apply] at h ⊢
  cases hfirst : (ident "a member name" s).1 with
  | none =>
    rw [hfirst] at h
    cases h
  | some first =>
    rw [hfirst] at h
    have hpassed := passed_ident hs hfirst
    let t := (skipQualifierArgument (ident "a member name" s).2).2
    let part : Read (Option Ident) := do
      let _ ← advance
      ident "a member name"
    let loop := gatherWhile (fun s => s.kind = .dot && (s.peek 1).name?.isSome) part
    have hst : s.Reaches t := (Forward.reaches s).trans
      (Forward.reaches _)
    have hqualifier : (ident "a member name" s).2.Reaches t :=
      Forward.reaches _
    have hloop : t.Reaches (loop t).2 := Forward.reaches t
    have hparts : ∀ a ∈ (loop t).1, t.Passed (loop t).2 a.span := by
      refine passed_gatherWhile (fun s a hs ha => ?_) (hst.endsInEof hs)
      have hadvance : s.Reaches (advance s).2 := Forward.reaches s
      exact (passed_ident (hadvance.endsInEof hs) ha).mono_left hadvance
    obtain rfl : (loop t).1.getLastD first = name := Option.some.inj h
    cases hlast : (loop t).1.getLast? with
    | none =>
      rw [List.getLastD_eq_getLast?, hlast]
      exact (hpassed.mono_right hqualifier).mono_right hloop
    | some part =>
      rw [List.getLastD_eq_getLast?, hlast]
      exact (hparts part (List.mem_of_getLast? hlast)).mono_left hst

section

variable {first : Span} {attributes : List AttributeList} {mods : List Ident} {type : TypeExpr}
  {name : Ident} {p : Property}

theorem name_memberBody (h : (memberBody first attributes mods type name s).1 = .property p) :
    p.name = name := by
  rw [memberBody, bind_apply] at h
  split at h
  · obtain rfl := Member.property.inj h
    rfl
  · cases h

theorem passed_namedMember (hs : EndsInEof s.tokens)
    (h : (namedMember first attributes mods type s).1 = .property p) :
    s.Passed (namedMember first attributes mods type s).2 p.name.span := by
  rw [namedMember, bind_apply] at h ⊢
  cases hk : (memberName s).1 with
  | none =>
    rw [hk] at h
    cases h
  | some name =>
    rw [hk] at h
    rw [name_memberBody h]
    exact (passed_memberName hs hk).mono_right
      (Forward.reaches (memberName s).2)

theorem passed_memberRest (hs : EndsInEof s.tokens)
    (h : (memberRest first attributes mods type s).1 = .property p) :
    s.Passed (memberRest first attributes mods type s).2 p.name.span := by
  rw [memberRest, bind_apply] at h ⊢
  split at h
  · cases h
  · rw [if_neg ‹_›]
    split at h
    · cases h
    · rw [if_neg ‹_›]
      split at h
      · cases h
      · rw [if_neg ‹_›]
        exact passed_namedMember hs h

/-- The name of a property is a token that is read after its type. -/
theorem passed_plainMember {typeName : String} (hs : EndsInEof s.tokens)
    (h : (plainMember typeName first attributes mods s).1 = some (.property p)) :
    (typeExpr s).2.Passed (plainMember typeName first attributes mods s).2 p.name.span := by
  have htype : s.Reaches (typeExpr s).2 := Forward.reaches s
  rw [plainMember, bind_apply] at h ⊢
  split at h
  · cases h
  · rw [if_neg ‹_›]
    split at h
    · cases h
    · rw [if_neg ‹_›]
      exact passed_memberRest (htype.endsInEof hs) (Option.some.inj h)

end

/-- A member that is no type has at most one property, which goes from the start of the member
    to its end. -/
theorem spread_plainMember {typeName : String} (ho : Ordered s.tokens) (hs : EndsInEof s.tokens) :
    Spread s ((memberHead >>= fun head => plainMember typeName head.1 head.2.1 head.2.2) s).2
      (((memberHead >>= fun head => plainMember typeName head.1 head.2.1 head.2.2) s).1.toList.flatMap
        (·.allProperties)) := by
  let t := ((memberHead >>= fun head => plainMember typeName head.1 head.2.1 head.2.2) s).2
  have hhead : s.Reaches (memberHead s).2 := Forward.reaches s
  have hst : s.Reaches t := Forward.reaches
    s
  cases hread : ((memberHead >>= fun head => plainMember typeName head.1 head.2.1 head.2.2) s).1 with
  | none => exact .nil _ _
  | some m =>
    have hparts := plainMember_readAs hread
    cases m with
    | constructor c => exact .nil _ _
    | other span => exact .nil _ _
    | nested declaration => exact hparts.elim
    | property p =>
      have htype : (memberHead s).2.Reaches (typeExpr (memberHead s).2).2 :=
        Forward.reaches (memberHead s).2
      have hname : s.Passed t p.name.span :=
        (passed_plainMember (hhead.endsInEof hs) hread).mono_left (hhead.trans htype)
      have hspan : p.span = t.spanFrom s.span := hparts.2.2
      refine ⟨List.pairwise_singleton .., ?_, ?_, ?_, ?_⟩ <;> refine List.forall_mem_singleton.mpr ?_
      · exact hspan ▸ Nat.le_refl _
      · exact hspan ▸ hst.spanFrom_stop_le ho hname.size_lt
      · exact hspan ▸ hname.inside hst ho
      · exact ⟨s, typeName, List.suffix_rfl, hread, id⟩

/-! ## Readers -/

/-- The reader goes forward, and the properties of what it gives stand one after the other
    where it has read. -/
structure Spreads (properties : α → List Property) (r : Read α) : Prop where
  forward : Forward r
  spread : ∀ s : Cursor, Ordered s.tokens → EndsInEof s.tokens →
    Spread s (r s).2 (properties (r s).1)

/-- The properties in what may be missing. -/
def ifAny (properties : α → List Property) (o : Option α) : List Property :=
  o.toList.flatMap properties

section

variable {properties : α → List Property} {properties' : β → List Property}

theorem Spreads.of_nil {r : Read α} [hr : Forward r] (h : ∀ s, properties (r s).1 = []) :
    Spreads properties r :=
  ⟨hr, fun s _ _ => h s ▸ .nil _ _⟩

theorem Spreads.pure {a : α} (h : properties a = []) : Spreads properties (pure a : Read α) :=
  .of_nil fun _ => h

/-- Something else may be read first. -/
theorem Spreads.after {r : Read α} [hr : Forward r] {k : α → Read β}
    (h : ∀ a, Spreads properties' (k a)) : Spreads properties' (r >>= k) := by
  have hk (a : α) : Forward (k a) := (h a).forward
  refine ⟨inferInstance, fun s ho hs => ?_⟩
  have hreaches := hr.reaches s
  exact ((h (r s).1).spread (r s).2 (ho.of_suffix hreaches.suffix)
    (hreaches.endsInEof hs)).mono_left hreaches ((hk _).reaches _) ho

/-- What is read afterwards may keep the properties. -/
theorem Spreads.before {r : Read α} (h : Spreads properties r) {k : α → Read β}
    (hk : ∀ a, Forward (k a)) (hkeeps : ∀ a s, properties' (k a s).1 = properties a) :
    Spreads properties' (r >>= k) := by
  have hr := h.forward
  refine ⟨inferInstance, fun s ho hs => ?_⟩
  rw [bind_apply, hkeeps]
  exact (h.spread s ho hs).mono_right (hr.reaches s) ((hk _).reaches _) ho

theorem Spreads.map {r : Read α} (h : Spreads properties r) {f : α → β}
    (hf : ∀ a, properties' (f a) = properties a) : Spreads properties' (f <$> r) := by
  have hr := h.forward
  refine ⟨inferInstance, fun s ho hs => ?_⟩
  rw [map_apply, hf]
  exact h.spread s ho hs

/-- Two readers may run one after the other. -/
theorem Spreads.both {whole : γ → List Property} {r : Read α} (h : Spreads properties r)
    {r' : Read β} (h' : Spreads properties' r') {k : α → β → Read γ} [hk : ∀ a b, Forward (k a b)]
    (hkeeps : ∀ a b s, whole (k a b s).1 = properties a ++ properties' b) :
    Spreads whole (r >>= fun a => r' >>= fun b => k a b) := by
  have hr := h.forward
  have hr' := h'.forward
  refine ⟨inferInstance, fun s ho hs => ?_⟩
  have hfirst := hr.reaches s
  have hsecond := hr'.reaches (r s).2
  rw [bind_apply, bind_apply, hkeeps]
  have hspread := h'.spread (r s).2 (ho.of_suffix hfirst.suffix) (hfirst.endsInEof hs)
  exact ((h.spread s ho hs).append hspread hfirst hsecond ho).mono_right (hfirst.trans hsecond)
    ((hk _ _).reaches _) ho

theorem Spreads.ite {r r' : Read α} {c : Prop} [Decidable c] (h : Spreads properties r)
    (h' : Spreads properties r') : Spreads properties (if c then r else r') := by
  split
  · exact h
  · exact h'

/-- The items of a loop stand one after the other if those of each round do. -/
theorem Spreads.gatherWhile {goOn : Cursor → Bool} {step : Read (Option α)}
    (h : Spreads (ifAny properties) step) :
    Spreads (·.flatMap properties) (gatherWhile goOn step) := by
  have hf := h.forward
  refine ⟨inferInstance, fun s ho hs => ?_⟩
  refine (gatherWhile_induct (P := fun s r => Ordered s.tokens → EndsInEof s.tokens →
    s.Reaches r.2 ∧ Spread s r.2 (r.1.flatMap properties)) (fun s _ _ => ⟨.refl s, .nil s s⟩)
    (fun s ho hs => ⟨hf.reaches s, h.spread s ho hs⟩) (fun s rest ih ho hs => ?_) s ho hs).2
  have hstep := hf.reaches s
  obtain ⟨hreaches, hspread⟩ := ih (ho.of_suffix hstep.suffix) (hstep.endsInEof hs)
  refine ⟨hstep.trans hreaches, ?_⟩
  rw [List.flatMap_append]
  exact (h.spread s ho hs).append hspread hstep hreaches ho

/-- At a level of nesting the properties stand as they do elsewhere. -/
theorem Spreads.nested {body instead : Read α} (h : Spreads properties body)
    (hinstead : Spreads properties instead) : Spreads properties (nested body instead) := by
  have hbody := h.forward
  have hforward := hinstead.forward
  refine ⟨inferInstance, fun s ho hs => ?_⟩
  rcases Nat.lt_or_ge s.depth maxNesting with shallow | deep
  · rw [nested_of_lt shallow]
    obtain ⟨apart, start, stop, named, read⟩ := h.spread { s with depth := s.depth + 1 } ho hs
    exact ⟨apart, start, stop, named, read⟩
  · rw [nested_of_le deep]
    exact (Spreads.after fun _ => .after fun _ => hinstead).spread s ho hs

end

/-! ## Types -/

/-- The declarations that are read have their properties one after the other. -/
abbrev SpreadsTypes (nestedType : TypeReader) : Prop :=
  ∀ first attributes modifiers,
    Spreads (ifAny (·.allProperties)) (nestedType first attributes modifiers)

section

variable {nestedType : TypeReader}

theorem spreads_member (h : SpreadsTypes nestedType) (typeName : String) :
    Spreads (ifAny (·.allProperties)) (member nestedType typeName) := by
  have hf first attributes modifiers := (h first attributes modifiers).forward
  refine ⟨inferInstance, fun s ho hs => ?_⟩
  by_cases htype : (memberHead s).2.typeKeywordAt 0 = true
  · rw [member_of_type _ _ htype]
    refine (Spreads.after (r := memberHead) fun head =>
      (h head.1 head.2.1 head.2.2).map fun o => ?_).spread s ho hs
    cases o <;> rfl
  · rw [member_of_plain htype]
    exact spread_plainMember ho hs

theorem spreads_memberStep (h : SpreadsTypes nestedType) (typeName : String) :
    Spreads (ifAny (·.allProperties)) (memberStep nestedType typeName) := by
  refine .after fun semicolon => ?_
  refine .ite (.pure rfl) (.after fun start => ?_)
  refine (spreads_member h typeName).before (fun _ => inferInstance) fun item s => ?_
  show ifAny _ ((if _ then _ else _ : Read (Option Member)) s).1 = _
  split <;> rfl

theorem spreads_members (h : SpreadsTypes nestedType) (typeName : String) :
    Spreads Member.allPropertiesIn (members nestedType typeName) := by
  rw [funext Member.allPropertiesIn_eq]
  exact (spreads_memberStep h typeName).gatherWhile

theorem spreads_typeBody (h : SpreadsTypes nestedType) (kind : DeclarationKind) (typeName : String) :
    Spreads Member.allPropertiesIn (typeBody nestedType kind typeName) := by
  refine .after fun opening => ?_
  cases opening with
  | none =>
    refine .of_nil fun s => ?_
    show Member.allPropertiesIn ((if _ then _ else _ : Read (List Member)) s).1 = []
    split <;> rfl
  | some opening =>
    have hclose (items : List Member) (s : Cursor) : ((do
        if (← eat .rightBrace).isNone then report (.unclosed '\x7b') opening
        return items : Read (List Member)) s).1 = items := by
      rw [bind_apply]
      split <;> rfl
    refine .ite (.of_nil fun s => ?_) ((spreads_members h typeName).before (fun _ => inferInstance) fun items s => ?_)
    · exact congrArg Member.allPropertiesIn (hclose [] _)
    · exact congrArg Member.allPropertiesIn (hclose items s)

theorem spreads_typeRest (h : SpreadsTypes nestedType) : SpreadsTypes (typeRest nestedType) := by
  intro first attributes modifiers
  refine .after fun header => ?_
  cases header with
  | none => exact .pure rfl
  | some header =>
    refine (spreads_typeBody h header.kind header.name.name).before (fun _ => inferInstance) fun items s => ?_
    exact List.append_nil _

end

theorem spreads_typeRestWithin (levels : Nat) : SpreadsTypes (typeRestWithin levels) := by
  have hskip : Spreads (ifAny (·.allProperties)) skippedDeclaration := .of_nil fun _ => rfl
  induction levels with
  | zero => exact fun _ _ _ => .after fun _ => .after fun _ => hskip
  | succ levels ih => exact fun first attributes modifiers =>
      (spreads_typeRest ih first attributes modifiers).nested hskip

theorem spreads_typeDeclaration : Spreads (ifAny (·.allProperties)) typeDeclaration :=
  .after fun _ => .after fun _ => .after fun _ => spreads_typeRestWithin maxNesting _ _ _

/-! ## Units -/

section

variable {block : Read (Option (List UnitItem))}
  (h : Spreads (ifAny (·.flatMap UnitItem.allProperties)) block)

include h

theorem spreads_namespaceItem : Spreads (ifAny UnitItem.allProperties) (namespaceItem block) := by
  refine .after fun first => .after fun name => ?_
  cases name with
  | none => exact .pure rfl
  | some name =>
    refine .after fun semicolon => .ite (.pure rfl) (.after fun brace => .ite ?_ ?_)
    · exact .of_nil fun _ => rfl
    · refine h.before (fun o => by cases o <;> infer_instance) fun items s => ?_
      cases items with
      | none => rfl
      | some items =>
        show ifAny _ ((if _ then _ else _ : Read (Option UnitItem)) _).1 = _
        have hall := UnitItem.allPropertiesIn_assemble s.previousStop items
        split
        · exact congrArg (· ++ []) hall
        · exact congrArg (· ++ []) hall

theorem spreads_unitItem : Spreads (ifAny UnitItem.allProperties) (unitItem block) := by
  refine .after fun s => .after fun semicolon => .ite (.pure rfl) (.ite ?_ (.ite ?_ (.ite ?_
    (.ite ?_ (.ite ?_ ?_)))))
  · exact .of_nil fun _ => rfl
  · exact .of_nil fun _ => rfl
  · exact spreads_namespaceItem h
  · exact .of_nil fun _ => rfl
  · refine spreads_typeDeclaration.before (fun _ => inferInstance) fun o s => ?_
    cases o <;> rfl
  · exact .of_nil fun _ => rfl

theorem spreads_unitItems : Spreads (·.flatMap UnitItem.allProperties) (unitItems block) :=
  (spreads_unitItem h).gatherWhile

end

theorem spreads_blockWithin (levels : Nat) :
    Spreads (ifAny (·.flatMap UnitItem.allProperties)) (blockWithin levels) := by
  have hskip : Spreads (ifAny (·.flatMap UnitItem.allProperties)) skippedBlock := .of_nil fun _ => rfl
  induction levels with
  | zero => exact .after fun _ => .after fun _ => hskip
  | succ levels ih =>
    exact ((spreads_unitItems ih).map fun items => List.append_nil _).nested hskip

theorem spreads_unitBody : Spreads (UnitMember.allPropertiesIn ·.2) unitBody :=
  (spreads_unitItems (spreads_blockWithin maxNesting)).before (fun _ => inferInstance) fun items s =>
    UnitItem.allPropertiesIn_assemble s.previousStop items

theorem spreads_sourceUnit : Spreads SourceUnit.allProperties sourceUnit := by
  refine .after fun first => spreads_unitBody.both (Spreads.gatherWhile (.after fun stray =>
    .after fun _ => spreads_unitBody.before (fun _ => inferInstance) fun body s => List.append_nil _))
    fun body more s => ?_
  show UnitMember.allPropertiesIn ((body :: more).flatMap (·.2)) = _
  rw [UnitMember.allPropertiesIn_eq, List.flatMap_assoc, List.flatMap_cons]
  simp only [UnitMember.allPropertiesIn_eq]

end Read

/-! ## In a text -/

/-- The properties of a text stand one after the other, and contain their names. -/
theorem Source.spread_parse (text : String) :
    Spread (.ofTokens (Token.lexToEnd text)) (SourceUnit.read (Token.lexToEnd text)).2
      (Source.parse text).unit.allProperties := by
  have hlaid := Token.laid_lexToEnd text
  have htokens := Cursor.tokens_ofTokens hlaid.ends
  exact Read.spreads_sourceUnit.spread (.ofTokens (Token.lexToEnd text))
    (by rw [htokens]; exact hlaid.ordered) (by rw [htokens]; exact hlaid.ends)

/-- The properties of a text have been read from its tokens. -/
theorem Source.readFrom_parse {text : String} {p : Property}
    (h : p ∈ (Source.parse text).unit.properties) :
    p.ReadFrom ((Source.parse text).errors = []) (Token.lexToEnd text) := by
  rw [← Cursor.tokens_ofTokens (Token.laid_lexToEnd text).ends]
  exact (Source.spread_parse text).read p ((Source.parse text).unit.perm_allProperties.mem_iff.mp h)

/-- The property at a place is the one whose declaration covers the place. -/
theorem Source.propertyAt?_eq_some_iff (text : String) (offset : Nat) (p : Property) :
    (Source.parse text).unit.propertyAt? offset = some p ↔
      p ∈ (Source.parse text).unit.allProperties ∧ p.span.containsOffset offset = true := by
  have hspread := Source.spread_parse text
  have hperm := (Source.parse text).unit.perm_allProperties
  constructor
  · intro hfound
    exact ⟨hperm.mem_iff.mp (List.mem_of_find?_eq_some hfound),
      List.find?_some (p := fun q : Property => q.span.containsOffset offset) hfound⟩
  · rintro ⟨hp, hcovers⟩
    -- some property is found at the place, and no other one than `p` covers it
    obtain ⟨q, hfound⟩ := Option.isSome_iff_exists.mp
      (List.find?_isSome (p := (·.span.containsOffset offset)).mpr
        ⟨p, hperm.mem_iff.mpr hp, hcovers⟩)
    have hq := hperm.mem_iff.mp (List.mem_of_find?_eq_some hfound)
    have hqo := List.find?_some hfound
    rw [SourceUnit.propertyAt?, hfound, hspread.eq_of_common hq hp hqo hcovers]

/-- A property is found where its name starts. -/
theorem Source.propertyAt?_name {text : String} {p : Property}
    (h : p ∈ (Source.parse text).unit.properties) :
    (Source.parse text).unit.propertyAt? p.name.span.start = some p := by
  have hp := (Source.parse text).unit.perm_allProperties.mem_iff.mp h
  have hinside := (Source.spread_parse text).named p hp
  exact (propertyAt?_eq_some_iff text _ p).mpr ⟨hp, by simpa [Span.containsOffset] using hinside⟩

end SettingsLint
