import SettingsLint.Proofs.Fix.Plan
import SettingsLint.Proofs.Reading.Extent
import SettingsLint.Proofs.Reading.Listed
import SettingsLint.Proofs.Tree.Properties

/-! # Reading by a plan

`π.Rewrites σ r s t es b` says what it means that the plan `π` is right for what was read
from `s` to `t`: it makes the edits `es`, and from its new tokens `r` reads `b`, apart from
places. What comes after them has to look like what comes after `t`, as far as readers look
beyond their end (`Meets`).

Plans for the parts of a reader are put together by `Plan.Rewrites.bind`. What a reader
replays is kept (`exists_keep`). `Planned` says that there is a plan for what is read, which
changes the properties in it.
-/

namespace SettingsLint

open Placed (erase)

/-! ## Ends that meet -/

/-- How far readers look beyond their end: those of members only as far as `lookahead`,
    those of units always three tokens. -/
inductive Sight where
  | near
  | far

/-- The number of tokens that are looked at. -/
def Sight.count : Sight → List Token → Nat
  | near, v => lookahead v
  | far, _ => 3

/-- As far as readers look the kinds are those of the tokens. -/
def Meets (σ : Sight) (v : List Token) (w : List TokenKind) : Prop :=
  w.take (σ.count v) = (v.map (·.kind)).take (σ.count v)

theorem lookahead_le_three (v : List Token) : lookahead v ≤ 3 := by
  cases v with
  | nil => simp [lookahead]
  | cons t rest =>
    simp only [lookahead]
    split
    · decide
    · split <;> decide

theorem lookahead_cons_le (t : Token) {v : List Token} (hv : v ≠ []) :
    lookahead (t :: v) ≤ 1 + lookahead v := by
  have hpos := lookahead_pos hv
  obtain ⟨u, rest, rfl⟩ := List.exists_cons_of_ne_nil hv
  simp only [lookahead] at hpos ⊢
  split
  · omega
  · split
    case isFalse => omega
    case isTrue hgreater =>
      -- A third token is looked at only after an angle bracket, and that ends no list.
      have hu : u.kind = .greater := by simpa using hgreater
      rw [if_neg (by simp [hu])]
      split <;> omega

theorem Sight.lookahead_le_count (σ : Sight) (v : List Token) : lookahead v ≤ σ.count v := by
  cases σ with
  | near => exact Nat.le_refl _
  | far => exact lookahead_le_three v

theorem Sight.count_append_le (σ : Sight) (u : List Token) {v : List Token} (hv : v ≠ []) :
    σ.count (u ++ v) ≤ u.length + σ.count v := by
  cases σ with
  | far => simp [count]
  | near =>
    induction u with
    | nil => simp
    | cons t u ih =>
      have hne : u ++ v ≠ [] := by simp [hv]
      have := lookahead_cons_le t hne
      simp only [count, List.length_cons, List.cons_append] at ih ⊢
      omega

namespace Meets

variable {σ : Sight} {v : List Token} {w : List TokenKind} {s s' : Cursor}

theorem take_eq (h : Meets σ v w) {n : Nat} (hn : n ≤ σ.count v) :
    w.take n = (v.map (·.kind)).take n := by
  have hk := congrArg (List.take n) h
  rwa [List.take_take, List.take_take, Nat.min_eq_left hn] at hk

theorem near (h : Meets σ v w) : Meets .near v w := h.take_eq (σ.lookahead_le_count v)

/-- The first kind is that of the first token. -/
theorem exists_cons (h : Meets σ s.tokens w) : ∃ rest, w = s.kind :: rest := by
  have hone := h.take_eq
    (Nat.le_trans (lookahead_pos s.tokens_ne_nil) (σ.lookahead_le_count _))
  cases w with
  | nil => simp [Cursor.tokens] at hone
  | cons k rest =>
    obtain rfl : k = s.kind := by simpa [Cursor.tokens, Cursor.kind] using hone
    exact ⟨rest, rfl⟩

theorem agree {v' : List Token} (h : Meets σ v (v'.map (·.kind))) (hv : EndsInEof v)
    (hv' : EndsInEof v') : Agree v v' := by
  have : Ends v v' := ⟨hv, hv'⟩
  refine ⟨?_⟩
  rw [List.map_take, List.map_take]
  exact h.near

/-- As far as readers look they see the same kinds. -/
theorem peek_eq (h : Meets σ s.tokens (s'.tokens.map (·.kind))) {n : Nat}
    (hn : n < σ.count s.tokens) : s'.peek n = s.peek n := by
  rw [Cursor.peek_eq, Cursor.peek_eq]
  exact kindAt_eq_of_take_eq h hn

theorem kind_eq (h : Meets σ s.tokens (s'.tokens.map (·.kind))) : s'.kind = s.kind := by
  exact h.peek_eq (Nat.lt_of_lt_of_le (lookahead_pos s.tokens_ne_nil) (σ.lookahead_le_count _))

/-- After a name one more token is looked at. -/
theorem peek_one (h : Meets σ s.tokens (s'.tokens.map (·.kind))) (hk : s.kind.name?.isSome = true) :
    s'.peek 1 = s.peek 1 := by
  refine h.peek_eq (Nat.lt_of_lt_of_le ?_ (σ.lookahead_le_count _))
  rw [Cursor.tokens, lookahead, if_neg]
  · split <;> decide
  · rw [← Cursor.kind]
    rintro (h | h | h) <;> simp [h, TokenKind.name?] at hk

/-- Ends that meet still do with the same kinds in front of them. -/
theorem append (h : Meets σ v w) (u : List Token) (hv : v ≠ []) :
    Meets σ (u ++ v) (u.map (·.kind) ++ w) := by
  have hle := σ.count_append_le u hv
  have hrest := h.take_eq (n := σ.count (u ++ v) - u.length) (by omega)
  rw [Meets, List.map_append, List.take_append, List.take_append, List.length_map, hrest]

end Meets

/-! ## Readers on new tokens -/

section

variable [Placed α] [Placed β]

/-- The plan is right for what was read from `s` to `t`: with its edits the new tokens are read
    as `b`, and who reads up to them sees the same. -/
structure Plan.Rewrites (π : Plan) (σ : Sight) (r : Read α) (s t : Cursor) (es : List TextEdit)
    (b : α) : Prop where
  old : s.tokens = π.old ++ t.tokens
  depth : t.depth = s.depth
  fits : ∀ prev, π.Fits prev
  edits : π.edits = es
  leads : ∀ w, Meets σ t.tokens w → Meets σ s.tokens (π.kinds ++ w)
  reads : ∀ w, Meets σ t.tokens w → Reads r s.depth (π.kinds ++ w) w b

namespace Plan.Rewrites

variable {π ρ : Plan} {σ : Sight} {s t u : Cursor} {r : Read α} {es es' : List TextEdit} {a : α}
  {b : β}

/-- The plans for the parts of a sequence are a plan for all of it. -/
theorem bind {f : α → Read β} (h : π.Rewrites σ r s t es a)
    (hf : ∀ a', erase a' = erase a → ρ.Rewrites σ (f a') t u es' b) :
    (π ++ ρ).Rewrites σ (r >>= f) s u (es ++ es') b := by
  have hρ := hf a rfl
  refine ⟨?_, hρ.depth.trans h.depth, fun prev => ?_, ?_, fun w hw => ?_, fun w hw => ?_⟩
  · rw [Plan.old_append, List.append_assoc, ← hρ.old, h.old]
  · exact Plan.fits_append.2 ⟨h.fits prev, hρ.fits _⟩
  · rw [Plan.edits_append, h.edits, hρ.edits]
  · rw [Plan.kinds_append, List.append_assoc]
    exact h.leads _ (hρ.leads w hw)
  · rw [Plan.kinds_append, List.append_assoc]
    refine (h.reads _ (hρ.leads w hw)).bind fun a' ha' => ?_
    exact h.depth ▸ (hf a' ha').reads w hw

theorem map {f : α → β} (h : π.Rewrites σ r s t es a)
    (hf : ∀ a', erase a' = erase a → erase (f a') = erase b) : π.Rewrites σ (f <$> r) s t es b :=
  ⟨h.old, h.depth, h.fits, h.edits, h.leads, fun w hw => (h.reads w hw).map hf⟩

/-- Only what the readers do on the new tokens matters. -/
theorem congr {q : Read α} (h : π.Rewrites σ q s t es a)
    (hr : ∀ w s', Meets σ t.tokens w → At s.depth (π.kinds ++ w) s' → r s' = q s') :
    π.Rewrites σ r s t es a :=
  ⟨h.old, h.depth, h.fits, h.edits, h.leads, fun w hw =>
    .congr (fun s' hs' => hr w s' hw hs') (h.reads w hw)⟩

/-- Readers that hang only on what they see do the same on the new tokens. -/
theorem congr_meets {q : Read α} (h : π.Rewrites σ q s t es a)
    (hr : ∀ s', EndsInEof s'.tokens → Meets σ s.tokens (s'.tokens.map (·.kind)) → r s' = q s') :
    π.Rewrites σ r s t es a :=
  h.congr fun w s' hw hs' => hr s' hs'.endsInEof (hs'.kinds ▸ h.leads w hw)

/-- Where nothing is read nothing is planned. -/
theorem still (h : ∀ w, Reads r s.depth w w a) : Plan.Rewrites [] σ r s s [] a :=
  ⟨rfl, rfl, fun _ => trivial, rfl, fun _ hw => hw, fun w _ => h w⟩

/-- A reader that looks at the cursor first, whatever cursor that is. -/
theorem get {f : Cursor → Read α} (h : ∀ c, π.Rewrites σ (f c) s t es a) :
    π.Rewrites σ (MonadState.get >>= f) s t es a :=
  ⟨(h s).old, (h s).depth, (h s).fits, (h s).edits, (h s).leads, fun w hw =>
    .get fun c _ => (h c).reads w hw⟩

/-- Above the limit, what is nested is read one level deeper. -/
theorem nested {body instead : Read α}
    (h : π.Rewrites σ body { s with depth := s.depth + 1 } t es a) (hdepth : s.depth < maxNesting) :
    π.Rewrites σ (Read.nested body instead) s { t with depth := t.depth - 1 } es a :=
  ⟨h.old, by rw [h.depth, Nat.add_sub_cancel], h.fits, h.edits, h.leads, fun w hw =>
    .nested hdepth (h.reads w hw)⟩

/-- With three tokens that are kept in front nobody sees further than that. -/
theorem far {u : List Token} (h : (Plan.keep u ++ ρ).Rewrites .near r s t es a)
    (hu : 3 ≤ u.length) : (Plan.keep u ++ ρ).Rewrites .far r s t es a := by
  refine ⟨h.old, h.depth, h.fits, h.edits, fun w hw => ?_, fun w hw => h.reads w hw.near⟩
  rw [h.old, Meets, Sight.count, Plan.kinds_append, Plan.kinds_keep, Plan.old_append, Plan.old_keep,
    List.map_append, List.map_append, List.append_assoc, List.append_assoc,
    List.take_append_of_le_length (by simpa using hu), List.take_append_of_le_length (by simpa using hu)]

end Plan.Rewrites

/-! ## What is kept -/

/-- What a reader replays is kept. -/
theorem exists_keep (σ : Sight) {r : Read α} [hr : Read.Forward r] {s : Cursor}
    (hs : EndsInEof s.tokens) (hclean : (r s).2.errors = []) :
    ∃ u, s.tokens = u ++ (r s).2.tokens ∧ ∀ q : Read α,
      (∀ v' s', Agree (r s).2.tokens v' → Ordered s'.tokens → Replays (r s).2.tokens v' r q s s') →
      (Plan.keep u).Rewrites σ q s (r s).2 [] (r s).1 := by
  have hreach := hr.reaches s
  obtain ⟨u, hu, -⟩ := hreach.read
  refine ⟨u, hu, fun q h => ⟨by simpa using hu, hreach.depth, fun prev => Plan.fits_keep prev u,
    by simp, fun w hw => ?_, fun w hw => ?_⟩⟩
  · rw [Plan.kinds_keep, hu]
    exact hw.append u (Cursor.tokens_ne_nil _)
  · obtain ⟨rest, hcons⟩ := hw.exists_cons
    rw [Plan.kinds_keep]
    refine Replays.reads_of (hcons ▸ List.cons_ne_nil _ _) hu hclean fun v' s' hv' hends ho' => ?_
    exact h v' s' ((hv' ▸ hw).agree (hreach.endsInEof hs) hends) ho'

/-! ## Changed properties -/

open Owner (owned change)

variable [Owner α]

/-- The plan is right for what `r` reads from the cursor: it makes the edits `E` of the properties
    in it, and `q` reads it with these properties changed by `W`. -/
abbrev Plan.Names (π : Plan) (σ : Sight) (E : Property → List TextEdit) (W : Property → Property)
    (r q : Read α) (s : Cursor) : Prop :=
  π.Rewrites σ q s (r s).2 ((owned (r s).1).flatMap E) (change W (r s).1)

/-- Unless there are errors there is a plan for what the reader reads. -/
def Planned (σ : Sight) (E : Property → List TextEdit) (W : Property → Property) (r : Read α)
    (s : Cursor) : Prop := (r s).2.errors = [] → ∃ π : Plan, π.Names σ E W r r s

section

variable {σ : Sight} {E : Property → List TextEdit} {W : Property → Property} {s : Cursor}

/-- Readers that hang only on what they see have the same plans. -/
theorem Planned.congr {r q : Read α} (h : Planned σ E W q s) (hs : EndsInEof s.tokens)
    (hr : ∀ s', EndsInEof s'.tokens → Meets σ s.tokens (s'.tokens.map (·.kind)) → r s' = q s') :
    Planned σ E W r s := by
  intro hclean
  have hrun : r s = q s := hr s hs rfl
  rw [hrun] at hclean
  obtain ⟨π, hπ⟩ := h hclean
  refine ⟨π, ?_⟩
  rw [Plan.Names, hrun]
  exact hπ.congr_meets hr

/-- What is replayed is kept if there are no properties in it. -/
theorem Planned.keep {r : Read α} [Read.Forward r] (hs : EndsInEof s.tokens)
    (hreplays : ∀ v' s', Agree (r s).2.tokens v' → Replays (r s).2.tokens v' r r s s')
    (hnone : owned (r s).1 = []) (hsame : change W (r s).1 = (r s).1) : Planned σ E W r s := by
  intro hclean
  obtain ⟨u, -, hkeep⟩ := exists_keep σ hs hclean
  refine ⟨Plan.keep u, ?_⟩
  rw [Plan.Names, hnone, hsame]
  exact hkeep r fun v' s' hv _ => hreplays v' s' hv

/-- The rounds of a loop are planned one after the other. Every round takes a token, and what it sees
    tells whether there is another one. -/
theorem planned_gatherWhile {goOn : Cursor → Bool} {step : Read (Option α)} [Read.Forward step]
    {text : String}
    (hgo : ∀ s s', Meets σ s.tokens (s'.tokens.map (·.kind)) → goOn s' = goOn s)
    (hlt : ∀ s, EndsInEof s.tokens → goOn s = true → (step s).2.size < s.size)
    (hstep : ∀ s, goOn s = true → s.LexedFrom text → Planned σ E W step s)
    (hs : s.LexedFrom text) : Planned σ E W (Read.gatherWhile goOn step) s := by
  induction hsize : s.size using Nat.strongRecOn generalizing s with
  | _ size ih =>
    have hends := hs.lexed.endsInEof
    cases hgoes : goOn s with
    | false =>
      refine .congr (q := pure []) (.keep hends (fun _ _ _ => inferInstance) rfl rfl) hends
        fun s' _ hmeet => ?_
      exact Read.gatherWhile_of_stop ((hgo s s' hmeet).trans hgoes)
    | true =>
      refine .congr (q := step >>= fun o => (o.toList ++ ·) <$> Read.gatherWhile goOn step) ?_ hends
        fun s' hs' hmeet => ?_
      · intro hclean
        have hclean₁ : (step s).2.errors = [] :=
          (Read.Forward.reaches _).clean hclean
        obtain ⟨π, hπ⟩ := hstep s hgoes hs hclean₁
        obtain ⟨ρ, hρ⟩ := ih _ (hsize ▸ hlt s hends hgoes)
          ((Read.Forward.reaches s).lexedFrom hs) rfl hclean
        have howned : owned ((step s).1.toList ++ (Read.gatherWhile goOn step (step s).2).1) =
            owned (step s).1 ++ owned (Read.gatherWhile goOn step (step s).2).1 := List.flatMap_append
        refine ⟨π ++ ρ, ?_⟩
        rw [Plan.Names, Read.bind_apply, Read.map_apply, howned, List.flatMap_append]
        -- What was read before goes in front of the rest.
        refine hπ.bind fun o' ho' => hρ.map fun as' has' => ?_
        have happend : change W ((step s).1.toList ++ (Read.gatherWhile goOn step (step s).2).1) =
            (change W (step s).1).toList ++ change W (Read.gatherWhile goOn step (step s).2).1 := by
          cases (step s).1 <;> rfl
        rw [happend, erase_append, erase_append, has', Reads.erase_toList, ho', ← Reads.erase_toList]
      · have hgoes' := (hgo s s' hmeet).trans hgoes
        rw [Read.gatherWhile_of_go hgoes', if_pos (hlt s' hs' hgoes')]
        rfl

end

end

end SettingsLint
