import SettingsLint.Proofs.Reading.Correspondence
import SettingsLint.Proofs.Reading.Extent

/-! # Reading does not depend on layout

A layout puts the same tokens at other places: it keeps their kinds and their order, and
says where each offset goes. `Layout.Shifts` relates a value to the same value in the layout,
and `Read.Moves` states of a reader that it does the same there, so that what it reads differs
in the places only; and that every place in what it reads is made from places of tokens. Both
are classes: readers are put together from readers, and so are the proofs about them.

Readers look at places three times: to notice that nothing was read, to tell a missing
type, and to tell a missing value. All of these compare the ends of tokens, and a layout
keeps their order.
-/

namespace SettingsLint

open Placed (relocate places)

/-! ## Places made from tokens -/

/-- The span is that of a token. -/
def Span.OfToken (T : List Token) (span : Span) : Prop := ∃ t ∈ T, t.span = span

/-- The span goes from the start of a token to that of the token or to a later end. -/
inductive Span.Rooted (T : List Token) : Span → Prop where
  | token {t : Token} (ht : t ∈ T) : Rooted T t.span
  | point {t : Token} (ht : t ∈ T) : Rooted T (.point t.span.start)
  | across {t u : Token} (ht : t ∈ T) (hu : u ∈ T) (heof : u.kind ≠ .eof)
    (hlt : t.span.start < u.span.stop) : Rooted T ⟨t.span.start, u.span.stop⟩

theorem Span.OfToken.rooted {T : List Token} {span : Span} (h : span.OfToken T) : span.Rooted T := by
  obtain ⟨t, ht, rfl⟩ := h
  exact .token ht

theorem Span.Rooted.exists_start {T : List Token} {span : Span} (h : span.Rooted T) :
    ∃ t ∈ T, t.span.start = span.start := by
  cases h with
  | token ht | point ht | across ht => exact ⟨_, ht, rfl⟩

/-- The place is made from the tokens. A name is the name of a token. -/
inductive Place.Within (T : List Token) : Place → Prop where
  | property {t : Token} {text : String} (ht : t ∈ T) (hk : t.kind = .identifier text) :
    Within T (.property text t.span)
  | name {t : Token} {text : String} (ht : t ∈ T) (hk : t.kind = .identifier text) :
    Within T (.name text t.span)
  | node {span : Span} (h : span.Rooted T) : Within T (.node span)
  | gap {span : Span} (h : span.Rooted T) : Within T (.gap span)
  | stop {t : Token} (ht : t ∈ T) : Within T (.gap (.point t.span.stop))
  | whole {t u : Token} (ht : t ∈ T) (hu : u ∈ T) (hle : t.span.start ≤ u.span.stop) :
    Within T (.gap ⟨t.span.start, u.span.stop⟩)

/-- All places in the value are made from the tokens. -/
abbrev Placed.Within [Placed α] (T : List Token) (a : α) : Prop := ∀ p ∈ places a, p.Within T

theorem Placed.within_span {T : List Token} {span : Span} :
    Placed.Within T span ↔ span.Rooted T := by
  refine List.forall_mem_singleton.trans ⟨fun h => ?_, .node⟩
  cases h with
  | node h => exact h

/-- The cursor stands among the tokens. -/
structure Cursor.Within (T : List Token) (s : Cursor) : Prop where
  suffix : s.tokens <:+ T
  start : s.lastStop = none → s.tokens = T
  stop : ∀ x, s.lastStop = some x → ∃ t ∈ T, t.kind ≠ .eof ∧ t.span.stop = x
  errors : ∀ e ∈ s.errors, e.span.Rooted T

namespace Cursor.Within

variable {T : List Token} {s : Cursor}

theorem current_mem (h : s.Within T) : s.current ∈ T := h.suffix.subset List.mem_cons_self

theorem span (h : s.Within T) : s.span.OfToken T := ⟨s.current, h.current_mem, rfl⟩

theorem advance (h : s.Within T) : s.advance.Within T := by
  refine ⟨(Cursor.Reaches.advance s).suffix.trans h.suffix, ?_, ?_, ?_⟩
  all_goals unfold Cursor.advance; split
  · exact h.start
  · split
    · exact h.start
    · simp
  · exact h.stop
  · next hk =>
    split
    · exact h.stop
    · rintro x ⟨⟩
      refine ⟨s.current, h.current_mem, ?_, rfl⟩
      intro heof
      exact hk (by rw [Cursor.atEnd, Cursor.kind, heof]; rfl)
  · exact h.errors
  · split <;> exact h.errors

theorem report (h : s.Within T) {span : Span} (hspan : span.Rooted T) (fault : SyntaxFault) :
    (s.report fault span).Within T := by
  refine ⟨h.suffix, h.start, h.stop, fun e he => ?_⟩
  rcases List.mem_append.mp he with he | he
  · exact h.errors e he
  · rw [List.mem_singleton.mp he]
    exact hspan

theorem withDepth (h : s.Within T) (depth : Nat) : { s with depth }.Within T :=
  ⟨h.suffix, h.start, h.stop, h.errors⟩

/-- What is read from a token on is rooted in it. -/
theorem rooted_spanFrom (h : s.Within T) (ho : Ordered T) {first : Span} (hfirst : first.Rooted T) :
    (s.spanFrom first).Rooted T := by
  obtain ⟨t, ht, hstart⟩ := hfirst.exists_start
  have hpoint {x : Nat} (hx : x ≤ t.span.start) :
      Span.Rooted T ⟨t.span.start, max x t.span.start⟩ := by
    rw [Nat.max_eq_right hx]
    exact .point ht
  rw [Cursor.spanFrom, Cursor.previousStop, ← hstart]
  cases hstop : s.lastStop with
  | none =>
    refine hpoint ?_
    have hT := h.start hstop
    rw [← hT] at ht ho
    rcases List.mem_cons.mp ht with rfl | ht
    · exact Nat.le_refl _
    · exact Nat.le_of_lt (Ordered.start_lt (u := [s.current]) ho List.mem_cons_self ht)
  | some x =>
    obtain ⟨u, hu, heof, rfl⟩ := h.stop x hstop
    rcases Nat.lt_or_ge t.span.start u.span.stop with hlt | hge
    · rw [Option.getD_some, Nat.max_eq_left (Nat.le_of_lt hlt)]
      exact .across ht hu heof hlt
    · exact hpoint hge

end Cursor.Within

/-! ## Layouts -/

/-- The span between other offsets. -/
def Span.shift (offset : Nat → Nat) (span : Span) : Span := ⟨offset span.start, offset span.stop⟩

/-- Other places for the tokens `T`, which stand in order. -/
structure Layout (T : List Token) where
  /-- Where an offset goes. -/
  offset : Nat → Nat
  /-- What stands before a token. -/
  trivia : Token → List Trivia
  ordered : Ordered T
  valid : ∀ t ∈ T, t.span.start ≤ t.span.stop
  mono : ∀ x y, x ≤ y → offset x ≤ offset y
  /-- A token is not emptied. -/
  lt : ∀ t ∈ T, ∀ u ∈ T, t.span.start < u.span.stop → offset t.span.start < offset u.span.stop

namespace Layout

variable {T : List Token} (m : Layout T)

def token (t : Token) : Token := ⟨t.kind, t.span.shift m.offset, m.trivia t⟩

/-- Where a place is in the layout. -/
def place (p : Place) : Span := p.span.shift m.offset

def error (e : SyntaxError) : SyntaxError := ⟨e.fault, e.span.shift m.offset⟩

def cursor (s : Cursor) : Cursor where
  current := m.token s.current
  ahead := s.ahead.map m.token
  lastStop := s.lastStop.map m.offset
  depth := s.depth
  errors := s.errors.map m.error

theorem max_offset (x y : Nat) : max (m.offset x) (m.offset y) = m.offset (max x y) := by
  rcases Nat.le_total x y with h | h
  · rw [Nat.max_eq_right h, Nat.max_eq_right (m.mono _ _ h)]
  · rw [Nat.max_eq_left h, Nat.max_eq_left (m.mono _ _ h)]

section

variable (s : Cursor)

@[simp] theorem kind_token (t : Token) : (m.token t).kind = t.kind := rfl
@[simp] theorem kind_cursor : (m.cursor s).kind = s.kind := rfl
@[simp] theorem span_cursor : (m.cursor s).span = s.span.shift m.offset := rfl
@[simp] theorem depth_cursor : (m.cursor s).depth = s.depth := rfl
@[simp] theorem atEnd_cursor : (m.cursor s).atEnd = s.atEnd := rfl
@[simp] theorem atWord_cursor (word : String) : (m.cursor s).atWord word = s.atWord word := rfl
@[simp] theorem atName_cursor : (m.cursor s).atName = s.atName := rfl
@[simp] theorem atArgumentEnd_cursor : (m.cursor s).atArgumentEnd = s.atArgumentEnd := rfl
theorem tokens_cursor : (m.cursor s).tokens = s.tokens.map m.token := rfl
@[simp] theorem size_cursor : (m.cursor s).size = s.size := List.length_map _

@[simp] theorem peek_cursor (n : Nat) : (m.cursor s).peek n = s.peek n := by
  rw [Cursor.peek, Cursor.peek, tokens_cursor, List.getElem?_map]
  cases s.tokens[n]? with
  | some t => rfl
  | none =>
    show ((s.ahead.map m.token).getLastD (m.token s.current)).kind = (s.ahead.getLastD s.current).kind
    cases s.ahead.eq_nil_or_concat with
    | inl h => rw [h]; rfl
    | inr h =>
      simp

theorem previousStop_cursor : (m.cursor s).previousStop = m.offset s.previousStop := by
  rw [Cursor.previousStop, Cursor.previousStop]
  show (s.lastStop.map m.offset).getD _ = _
  cases s.lastStop <;> rfl

theorem spanFrom_cursor (first : Span) :
    (m.cursor s).spanFrom (first.shift m.offset) = (s.spanFrom first).shift m.offset := by
  rw [Cursor.spanFrom, previousStop_cursor]
  exact congrArg (Span.mk _) (m.max_offset _ _)

theorem advance_cursor : (m.cursor s).advance = m.cursor s.advance := by
  rw [Cursor.advance, Cursor.advance, atEnd_cursor]
  split
  · rfl
  · cases hahead : s.ahead <;> simp only [cursor, hahead, List.map_nil]
    rfl

theorem report_cursor (fault : SyntaxFault) (span : Span) :
    (m.cursor s).report fault (span.shift m.offset) = m.cursor (s.report fault span) := by
  simp [Cursor.report, cursor, error]

end

/-- The layout keeps tokens apart. -/
theorem pairwise_start : T.Pairwise fun t u => m.offset t.span.start < m.offset u.span.start := by
  refine (List.pairwise_iff_getElem.mpr fun i j hi hj hij => ?_)
  have hi' : i < T.dropLast.length := by
    rw [List.length_dropLast]
    omega
  have hfilled := (m.ordered.filled _ (List.getElem_mem hi')).2
  rw [List.getElem_dropLast] at hfilled
  have hlt := m.lt _ (List.getElem_mem hi) _ (List.getElem_mem hi) hfilled
  exact Nat.lt_of_lt_of_le hlt (m.mono _ _ (List.pairwise_iff_getElem.mp m.ordered.apart i j hi hj hij))

theorem shift_inj {a b : Span} (ha : a.OfToken T) (hb : b.OfToken T) :
    a.shift m.offset = b.shift m.offset ↔ a = b := by
  obtain ⟨t, ht, rfl⟩ := ha
  obtain ⟨u, hu, rfl⟩ := hb
  refine ⟨fun h => ?_, congrArg _⟩
  have hstart := congrArg Span.start h
  rcases List.mem_iff_getElem.mp ht with ⟨i, hi, rfl⟩
  rcases List.mem_iff_getElem.mp hu with ⟨j, hj, rfl⟩
  have hpairwise := List.pairwise_iff_getElem.mp m.pairwise_start
  rcases Nat.lt_trichotomy i j with hij | rfl | hij
  · exact absurd hstart (Nat.ne_of_lt (hpairwise i j hi hj hij))
  · rfl
  · exact absurd hstart.symm (Nat.ne_of_lt (hpairwise j i hj hi hij))

/-- The layout empties no span. -/
theorem isEmpty_shift {t u : Token} (ht : t ∈ T) (hu : u ∈ T) (hle : t.span.start ≤ u.span.stop) :
    ((Span.mk t.span.start u.span.stop).shift m.offset).isEmpty
      = (Span.mk t.span.start u.span.stop).isEmpty := by
  rw [Span.isEmpty, Span.isEmpty, decide_eq_decide]
  rcases Nat.eq_or_lt_of_le hle with heq | hlt
  · simp [Span.shift, heq]
  · have hshift := m.lt t ht u hu hlt
    exact ⟨fun h => absurd h (Nat.ne_of_lt hshift), fun h => absurd h (Nat.ne_of_lt hlt)⟩

/-- A type is missing in every layout or in none. -/
theorem isMissing_relocate {type : TypeExpr} (h : Placed.Within T type) :
    (relocate m.place type).isMissing = type.isMissing := by
  cases type with
  | named isGlobal segments span =>
    rfl
  | array element rank span => rfl
  | nullable inner span => rfl
  | unsupported span =>
    have hpoint (x : Nat) : ((Span.point x).shift m.offset).isEmpty = (Span.point x).isEmpty := by
      simp [Span.point, Span.shift, Span.isEmpty]
    cases h _ List.mem_cons_self with
    | gap h =>
      cases h with
      | token ht => exact m.isEmpty_shift ht ht (m.valid _ ht)
      | point ht => exact hpoint _
      | across ht hu _ hlt => exact m.isEmpty_shift ht hu (Nat.le_of_lt hlt)
    | stop ht => exact hpoint _
    | whole ht hu hle => exact m.isEmpty_shift ht hu hle

end Layout

/-! ## Values in a layout -/

namespace Layout

variable {T : List Token} {m : Layout T}

/-- What is read from the tokens corresponds to what is read in the layout. -/
def corr (m : Layout T) : Correspondence where
  left := Span.shift m.offset
  right := id
  counts := Place.Within T
  gap | .node h => .gap h
  property | .name ht hk => .property ht hk

/-- In the layout `a'` stands for `a`, all of whose places are made from the tokens. -/
abbrev Shifts [Placed α] (m : Layout T) (a a' : α) : Prop := m.corr.Relates a a'

theorem Shifts.eq [Placed α] [LawfulPlaced α] {a a' : α} (h : m.Shifts a a') : a' = relocate m.place a :=
  (LawfulPlaced.relocate_eq_self fun _ _ => rfl).symm.trans h.same

theorem Shifts.rooted {span span' : Span} (h : m.Shifts span span') : span.Rooted T :=
  Placed.within_span.1 h.counted

theorem shifts_span {span : Span} (h : span.Rooted T) : m.Shifts span (span.shift m.offset) :=
  ⟨rfl, Placed.within_span.2 h⟩

section

variable (s : Cursor)

instance : m.Shifts s.kind (m.cursor s).kind := inferInstanceAs (m.Shifts s.kind s.kind)
instance (n : Nat) : m.Shifts (s.peek n) ((m.cursor s).peek n) := ⟨m.peek_cursor s n, List.forall_mem_nil _⟩
instance : m.Shifts s.atEnd (m.cursor s).atEnd := .plain rfl
instance : m.Shifts s.atName (m.cursor s).atName := .plain rfl
instance : m.Shifts s.atArgumentEnd (m.cursor s).atArgumentEnd := .plain rfl
instance (word : String) : m.Shifts (s.atWord word) ((m.cursor s).atWord word) := .plain rfl
instance (t : Cursor) : m.corr.Keeps (s.size = t.size) ((m.cursor s).size = (m.cursor t).size) :=
  ⟨by rw [m.size_cursor, m.size_cursor]⟩

end

section

variable {span span' : Span} [hspan : m.Shifts span span']

instance : m.Shifts (Span.point span.start) (.point span'.start) := by
  obtain rfl := hspan.eq
  obtain ⟨t, ht, hstart⟩ := hspan.rooted.exists_start
  exact shifts_span (hstart ▸ .point ht)

instance : m.Shifts (TypeExpr.unsupported (.point span.stop)) (.unsupported (.point span'.stop)) := by
  obtain rfl := hspan.eq
  refine ⟨rfl, List.forall_mem_singleton.mpr ?_⟩
  cases hspan.rooted with
  | token ht | across _ ht => exact .stop ht
  | point ht => exact .gap (.point ht)

instance {type type' : TypeExpr} [h : m.Shifts type type'] : m.Shifts type.isMissing type'.isMissing :=
  .plain (by rw [h.eq, m.isMissing_relocate h.counted])

end

end Layout

/-! ## Readers in a layout -/

open Layout (Shifts shifts_span)

/-- From the cursor the reader `r'` reads in the layout what `r` reads. -/
structure Read.MovesAt [Placed α] {T : List Token} (m : Layout T) (r r' : Read α) (s : Cursor) :
    Prop where
  cursor : (r' (m.cursor s)).2 = m.cursor (r s).2
  shifts : m.Shifts (r s).1 (r' (m.cursor s)).1
  within : (r s).2.Within T

/-- In the layout the reader `r'` reads what `r` reads. -/
class Read.Moves [Placed α] {T : List Token} (m : Layout T) (r r' : Read α) : Prop where
  reads : ∀ s, s.Within T → MovesAt m r r' s

namespace Read

variable {T : List Token} {m : Layout T} {s : Cursor} [Placed α] [Placed β]

namespace MovesAt

variable {r r' : Read α}

theorem congr {q q' : Read α} (h : MovesAt m q q' s) (hr : r s = q s)
    (hr' : r' (m.cursor s) = q' (m.cursor s)) : MovesAt m r r' s :=
  ⟨by rw [hr, hr', h.cursor], by rw [hr, hr']; exact h.shifts, by rw [hr]; exact h.within⟩

theorem bind {f g : α → Read β} (h : MovesAt m r r' s)
    (hf : MovesAt m (f (r s).1) (g (r' (m.cursor s)).1) (r s).2) : MovesAt m (r >>= f) (r' >>= g) s := by
  have hrun : (r' >>= g) (m.cursor s) = g (r' (m.cursor s)).1 (m.cursor (r s).2) := by
    rw [← h.cursor]
    rfl
  exact ⟨by rw [hrun]; exact hf.cursor, by rw [hrun]; exact hf.shifts, hf.within⟩

theorem get {f f' : Cursor → Read β} (h : MovesAt m (f s) (f' (m.cursor s)) s) :
    MovesAt m (get >>= f) (get >>= f') s := ⟨h.cursor, h.shifts, h.within⟩

theorem pure {a a' : α} (h : m.Shifts a a') (hs : s.Within T) : MovesAt m (pure a) (pure a') s :=
  ⟨rfl, h, hs⟩

theorem ite {c c' : Prop} [Decidable c] [Decidable c'] {q q' : Read α} (hc : c' ↔ c)
    (hr : c → MovesAt m r r' s) (hq : ¬ c → MovesAt m q q' s) :
    MovesAt m (if c then r else q) (if c' then r' else q') s := by
  by_cases h : c
  · rw [if_pos h, if_pos (hc.mpr h)]
    exact hr h
  · rw [if_neg h, if_neg (mt hc.mp h)]
    exact hq h

end MovesAt

namespace Moves

theorem readsAt {r r' : Read α} (h : Moves m r r') (hs : s.Within T) : MovesAt m r r' s := h.reads s hs

theorem get {f f' : Cursor → Read β} (h : ∀ s, s.Within T → MovesAt m (f s) (f' (m.cursor s)) s) :
    Moves m (get >>= f) (get >>= f') :=
  ⟨fun s hs => .get (h s hs)⟩

theorem bind {r r' : Read α} {f f' : α → Read β} (hr : Moves m r r')
    (hf : ∀ a a', m.Shifts a a' → Moves m (f a) (f' a')) : Moves m (r >>= f) (r' >>= f') :=
  ⟨fun s hs => (hr.reads s hs).bind ((hf _ _ (hr.reads s hs).shifts).reads _ (hr.reads s hs).within)⟩

end Moves

instance {f f' : Cursor → Read β} [h : ∀ s, Moves m (f s) (f' (m.cursor s))] :
    Moves m (get >>= f) (get >>= f') := .get fun s hs => (h s).reads s hs

instance {a a' : α} [h : m.Shifts a a'] : Moves m (pure a) (pure a') := ⟨fun _ hs => .pure h hs⟩

instance {r r' : Read α} {f f' : α → Read β} [hr : Moves m r r']
    [hf : ∀ x : m.corr.Pair α, Moves m (f x.left) (f' x.right)] : Moves m (r >>= f) (r' >>= f') :=
  .bind hr fun a a' h => hf ⟨a, a', h⟩

instance {r r' : Read α} {f f' : α → β} [hr : Moves m r r']
    [hf : ∀ x : m.corr.Pair α, m.Shifts (f x.left) (f' x.right)] : Moves m (f <$> r) (f' <$> r') :=
  .bind hr fun a a' h => ⟨fun _ hs => .pure (hf ⟨a, a', h⟩) hs⟩

instance {c c' : Prop} [Decidable c] [Decidable c'] {r r' q q' : Read α} [hc : m.corr.Keeps c c']
    [hr : Moves m r r'] [hq : Moves m q q'] : Moves m (if c then r else q) (if c' then r' else q') :=
  ⟨fun s hs => .ite hc.iff (fun _ => hr.reads s hs) fun _ => hq.reads s hs⟩

/-! ### Single tokens -/

instance : Moves m kind kind := ⟨fun s hs => ⟨rfl, inferInstanceAs (m.Shifts s.kind s.kind), hs⟩⟩

instance : Moves m span span := ⟨fun _ hs => ⟨rfl, shifts_span hs.span.rooted, hs⟩⟩

instance {first first' : Span} [h : m.Shifts first first'] : Moves m (spanFrom first) (spanFrom first') := by
  obtain rfl := h.eq
  refine ⟨fun s hs => ⟨rfl, ?_, hs⟩⟩
  exact ⟨m.spanFrom_cursor s first, Placed.within_span.2 (hs.rooted_spanFrom m.ordered h.rooted)⟩

instance : Moves m advance advance :=
  ⟨fun s hs => ⟨m.advance_cursor s, shifts_span hs.span.rooted, hs.advance⟩⟩

instance (fault : SyntaxFault) {span span' : Span} [h : m.Shifts span span'] :
    Moves m (report fault span) (report fault span') := by
  obtain rfl := h.eq
  exact ⟨fun s hs => ⟨m.report_cursor s fault span, inferInstance, hs.report h.rooted fault⟩⟩

instance (what : String) : Moves m (expected what) (expected what) :=
  ⟨fun s hs => ⟨m.report_cursor s _ _, inferInstance, hs.report hs.span.rooted _⟩⟩

instance (kind : TokenKind) : Moves m (eat kind) (eat kind) := by
  unfold eat
  infer_instance

instance (word : String) : Moves m (eatWord word) (eatWord word) := by
  unfold eatWord
  infer_instance

instance (kind : TokenKind) (what : String) : Moves m (expect kind what) (expect kind what) :=
  .bind inferInstance fun _ _ h => h.option inferInstance fun _ _ _ => inferInstance

instance (what : String) : Moves m (ident what) (ident what) := by
  refine .get fun s hs => ?_
  rw [Layout.kind_cursor]
  cases hname : s.kind.name? with
  | none => exact Moves.reads s hs
  | some name =>
    have hk : s.current.kind = .identifier name := by
      cases hkind : s.current.kind <;> simp_all [Cursor.kind, TokenKind.name?]
    exact ⟨m.advance_cursor s, ⟨rfl, List.forall_mem_singleton.mpr (.name hs.current_mem hk)⟩, hs.advance⟩

/-! ### Loops and nesting -/

instance {goOn goOn' : Cursor → Bool} {step step' : Read Unit} [h : Moves m step step']
    [hgo : ∀ s, m.Shifts (goOn s) (goOn' (m.cursor s))] :
    Moves m (whileDo goOn step) (whileDo goOn' step') := by
  refine ⟨fun s hs => ?_⟩
  induction hn : s.size using Nat.strongRecOn generalizing s with
  | _ n ih =>
    have hstep := h.reads s hs
    refine (MovesAt.ite (by rw [show goOn' (m.cursor s) = goOn s from (hgo s).same]) (fun _ => ?_)
      fun _ => .pure inferInstance hs).congr (whileDo_eq_bind ..) (whileDo_eq_bind ..)
    refine hstep.bind (.get (.ite (by rw [m.size_cursor, m.size_cursor]) (fun hlt => ?_) fun _ => ?_))
    · exact ih _ (hn ▸ hlt) _ hstep.within rfl
    · exact .pure inferInstance hstep.within

instance {step step' : Read (Option α × Bool)} [h : Moves m step step'] :
    Moves m (gather step) (gather step') := by
  refine ⟨fun s hs => ?_⟩
  induction hn : s.size using Nat.strongRecOn generalizing s with
  | _ n ih =>
    have hstep := h.reads s hs
    obtain ⟨hitem, hagain⟩ := hstep.shifts.pair
    refine (hstep.bind (.get (.ite ?_ (fun hgo => ?_) fun _ => .pure hitem.toList hstep.within))).congr
      (gather_eq_bind ..) (gather_eq_bind ..)
    · rw [m.size_cursor, m.size_cursor, show (step' (m.cursor s)).1.2 = (step s).1.2 from hagain.same]
    · have hrest := ih _ (hn ▸ of_decide_eq_true (Bool.and_eq_true_iff.mp hgo).2) _ hstep.within rfl
      exact hrest.bind (.pure (hitem.toList.append hrest.shifts) hrest.within)

theorem Moves.gather {step step' : Read (Option α × Bool)} (h : Moves m step step') :
    Moves m (gather step) (gather step') := inferInstance

instance {goOn goOn' : Cursor → Bool} {step step' : Read (Option α)} [Moves m step step']
    [∀ s, m.Shifts (goOn s) (goOn' (m.cursor s))] :
    Moves m (gatherWhile goOn step) (gatherWhile goOn' step') := by
  unfold gatherWhile
  infer_instance

instance {instead instead' : Read α} [Moves m instead instead'] :
    Moves m (refuse instead) (refuse instead') := by
  unfold refuse
  infer_instance

instance {body body' instead instead' : Read α} [hbody : Moves m body body']
    [Moves m instead instead'] : Moves m (nested body instead) (nested body' instead') := by
  refine ⟨fun s hs => ?_⟩
  rcases Nat.lt_or_ge s.depth maxNesting with shallow | deep
  · obtain ⟨cursor, shifts, within⟩ := hbody.reads _ (hs.withDepth (s.depth + 1))
    have hdeeper : { m.cursor s with depth := s.depth + 1 } = m.cursor { s with depth := s.depth + 1 } :=
      rfl
    rw [← hdeeper] at cursor shifts
    refine ⟨?_, ?_, ?_⟩ <;> rw [nested_of_lt shallow]
    · rw [nested_of_lt (s := m.cursor s) shallow, Layout.depth_cursor, cursor]
      rfl
    · rw [nested_of_lt (s := m.cursor s) shallow]
      exact shifts
    · exact within.withDepth _
  · exact (Moves.reads s hs).congr (nested_of_le deep) (nested_of_le deep)

/-! ### Skipping -/

theorem openedAfter_cursor (opened : List (TokenKind × Span)) (s : Cursor) :
    openedAfter (opened.map (Prod.map id (·.shift m.offset))) (m.cursor s)
      = (openedAfter opened s).map (Prod.map id (·.shift m.offset)) := by
  by_cases hopen : s.kind.isOpener = true
  · simp [openedAfter, hopen]
  · by_cases hclose : s.kind.isCloser = true
    · simp [openedAfter, hopen, hclose]
    · simp [openedAfter, hopen, hclose]

theorem moves_skipOpened {opened : List (TokenKind × Span)}
    (hopened : ∀ o ∈ opened, o.2.Rooted T) (hs : s.Within T) :
    skipOpened (opened.map (Prod.map id (·.shift m.offset))) (m.cursor s)
      = m.cursor (skipOpened opened s) ∧ (skipOpened opened s).Within T := by
  induction hn : s.size using Nat.strongRecOn generalizing s opened with
  | _ n ih =>
    by_cases heof : s.kind = .eof
    · have hend : s.atEnd = true := by rw [Cursor.atEnd, heof]; rfl
      rw [skipOpened, skipOpened, Layout.atEnd_cursor, if_pos hend, if_pos hend, List.getLast?_map]
      cases hlast : opened.getLast? with
      | none => exact ⟨rfl, hs⟩
      | some o => exact ⟨m.report_cursor s _ o.2, hs.report (hopened o (List.mem_of_getLast? hlast)) _⟩
    · have hafter : ∀ o ∈ openedAfter opened s, o.2.Rooted T := by
        unfold openedAfter
        split
        · exact List.forall_mem_cons.mpr ⟨hs.span.rooted, hopened⟩
        · split
          · exact fun o ho => hopened o (List.mem_of_mem_tail ho)
          · exact hopened
      rw [skipOpened_eq heof, skipOpened_eq (s := m.cursor s) heof, openedAfter_cursor,
        List.isEmpty_map, m.advance_cursor, Layout.size_cursor, Layout.size_cursor]
      split
      · exact ⟨rfl, hs.advance⟩
      · split
        case isTrue hlt => exact ih _ (hn ▸ hlt) hafter hs.advance rfl
        case isFalse => exact ⟨rfl, hs.advance⟩

instance : Moves m skipGroup skipGroup := by
  refine ⟨fun s hs => ?_⟩
  obtain ⟨heq, hwithin⟩ := moves_skipOpened (List.forall_mem_nil _) hs
  exact ⟨heq, inferInstance, hwithin⟩

instance : Moves m skipBody skipBody :=
  .bind inferInstance fun _ _ _ => .get fun s hs => by
    rw [Layout.kind_cursor]
    split <;> exact Moves.reads s hs

set_option synthInstance.maxSize 1024

/-! ### Types -/

instance {item item' : Span → α} [h : ∀ x : m.corr.Pair Span, m.Shifts (item x.left) (item' x.right)] :
    Moves m (commas item) (commas item') :=
  .gather (.bind inferInstance fun _ _ hfound => hfound.option inferInstance fun a a' hcomma =>
    have := h ⟨a, a', hcomma⟩
    inferInstance)

section

variable {argument argument' : Read TypeExpr} [Moves m argument argument']

instance : Moves m (segmentArguments argument) (segmentArguments argument') := by
  unfold segmentArguments
  infer_instance

instance : Moves m separator separator := by
  unfold separator
  infer_instance

instance : Moves m (nameSegment argument) (nameSegment argument') :=
  .bind inferInstance fun _ _ h => h.option inferInstance fun _ _ _ => inferInstance

instance : Moves m (qualifiedName argument) (qualifiedName argument') := by
  unfold qualifiedName
  infer_instance

end

section

variable {first first' : Span} {type type' : TypeExpr} [m.Shifts first first'] [htype : m.Shifts type type']

instance : Moves m (typeSuffixes.oneSuffix first type) (typeSuffixes.oneSuffix first' type') := by
  unfold typeSuffixes.oneSuffix
  infer_instance

instance : Moves m (typeSuffixes first type) (typeSuffixes first' type') := by
  refine ⟨fun s hs => ?_⟩
  induction hn : s.size using Nat.strongRecOn generalizing s type type' with
  | _ n ih =>
    have hone : MovesAt m (typeSuffixes.oneSuffix first type)
        (typeSuffixes.oneSuffix first' type') s := Moves.reads s hs
    refine (hone.bind (.get ?_)).congr (typeSuffixes_eq_bind ..) (typeSuffixes_eq_bind ..)
    refine hone.shifts.option ?_ fun longer longer' _ => ?_
    · exact .pure htype hone.within
    · exact .ite (by rw [m.size_cursor, m.size_cursor]) (fun hlt => ih _ (hn ▸ hlt) _ hone.within rfl)
        fun _ => .pure inferInstance hone.within

omit htype in
instance {argument argument' : Read TypeExpr} [Moves m argument argument'] :
    Moves m (typeExprWith argument first) (typeExprWith argument' first') := by
  unfold typeExprWith
  infer_instance

end

instance (levels : Nat) : Moves m (typeExprWithin levels) (typeExprWithin levels) := by
  induction levels with
  | zero =>
    unfold typeExprWithin
    infer_instance
  | succ levels ih =>
    unfold typeExprWithin
    infer_instance

instance : Moves m typeExpr typeExpr := by
  unfold typeExpr
  infer_instance

end Read

end SettingsLint
