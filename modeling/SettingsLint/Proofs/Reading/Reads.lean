import SettingsLint.Proofs.Reading.Numbering
import SettingsLint.Proofs.Token.Lexemes
import SettingsLint.Proofs.Tree.Places

/-! # Reading tokens of given kinds

`Reads r d u v b` says that `r`, set on tokens of the kinds `u` at depth `d`, reads up to `v`,
reports nothing and gives `b`, apart from places. A reader made of smaller ones is followed
step by step: there is one rule for each way to put readers together, and one for each reader
of a single token.

The tokens are always those of some text. So they are in order, with an `eof` at the end, and
literals are spelled as the lexer spells them.
-/

namespace SettingsLint

open Placed (erase)

/-- The cursor stands before tokens of the kinds, at the depth, in some text, and nothing has
been reported. -/
structure At (depth : Nat) (kinds : List TokenKind) (s : Cursor) : Prop where
  kinds : s.tokens.map (·.kind) = kinds
  depth : s.depth = depth
  clean : s.errors = []
  lexed : s.Lexed

theorem Token.error?_eq_none_iff {t : Token} :
    t.error? = none ↔ ∀ malformed, t.kind ≠ .error malformed := by
  unfold Token.error?
  cases t.kind <;> simp

namespace At

variable {d : Nat} {s : Cursor} {k : TokenKind} {v : List TokenKind}

theorem kind (h : At d (k :: v) s) : s.kind = k := (List.cons.inj h.kinds).1

theorem ahead (h : At d (k :: v) s) : s.ahead.map (·.kind) = v := (List.cons.inj h.kinds).2

theorem size_lt {u : List TokenKind} {t : Cursor} (h : At d v t) (hs : At d u s)
    (hlt : v.length < u.length) : t.size < s.size := by
  rw [← h.kinds, ← hs.kinds, List.length_map, List.length_map] at hlt
  exact Nat.lt_of_succ_lt_succ hlt

theorem peek {n : Nat} {k' : TokenKind} (h : At d v s) (hn : v[n]? = some k') : s.peek n = k' := by
  rw [← h.kinds, List.getElem?_map] at hn
  obtain ⟨t, ht, rfl⟩ := Option.map_eq_some_iff.mp hn
  simp [Cursor.peek, ht]

theorem peek_one {k' : TokenKind} (h : At d (k :: k' :: v) s) : s.peek 1 = k' := h.peek rfl

theorem atWord (h : At d (k :: v) s) (word : String) : s.atWord word = k.isWord word := by
  rw [Cursor.atWord, h.kind]

theorem atName (h : At d (k :: v) s) : s.atName = k.name?.isSome := by
  rw [Cursor.atName, h.kind]

theorem endsInEof (h : At d v s) : EndsInEof s.tokens := h.lexed.endsInEof

/-- After a step the cursor stands before the rest. -/
theorem advance (h : At d (k :: v) s) (hk : k ≠ .eof) : At d v s.advance := by
  have heof : s.kind ≠ .eof := h.kind ▸ hk
  have htokens : s.advance.tokens = s.ahead := Read.tokens_advance heof h.endsInEof
  have hreach := Cursor.Reaches.advance s
  refine ⟨htokens ▸ h.ahead, hreach.depth.trans h.depth, ?_, hreach.lexed h.lexed⟩
  rw [← h.clean, Cursor.advance]
  split
  · rfl
  · split <;> rfl

/-- At the start of a text without malformed tokens nothing has been reported. -/
theorem ofTokens {text : String} (h : ∀ k ∈ Token.kindsOf text, ∀ malformed, k ≠ .error malformed) :
    At 0 (Token.kindsOf text) (.ofTokens (Token.lexToEnd text)) := by
  have hends := (Token.laid_lexToEnd text).ends
  refine ⟨by rw [Cursor.tokens_ofTokens hends, Token.kindsOf], Cursor.depth_ofTokens _, ?_,
    (Cursor.lexedFrom_ofTokens text).lexed⟩
  rw [Cursor.errors_ofTokens hends, List.filterMap_eq_nil_iff]
  exact fun t ht => Token.error?_eq_none_iff.2 (h t.kind (List.mem_map_of_mem ht))

end At

/-- Set on tokens of the kinds `u` the reader reads up to `v`, and gives `b` apart from places. -/
def Reads [Placed α] (r : Read α) (d : Nat) (u v : List TokenKind) (b : α) : Prop :=
  ∀ s, At d u s → At d v (r s).2 ∧ erase (r s).1 = erase b

namespace Reads

variable [Placed α] [Placed β] {d : Nat} {k : TokenKind} {u v w : List TokenKind}

/-! ## Putting readers together -/

theorem pure {a b : α} (h : erase a = erase b) : Reads (Pure.pure a : Read α) d v v b :=
  fun _ hs => ⟨hs, h⟩

theorem bind {r : Read α} {f : α → Read β} {a : α} {b : β} (h : Reads r d u v a)
    (g : ∀ a', erase a' = erase a → Reads (f a') d v w b) : Reads (r >>= f) d u w b := by
  intro s hs
  obtain ⟨ht, ha⟩ := h s hs
  exact g _ ha _ ht

omit [Placed α] in
theorem pure_bind {a : α} {f : α → Read β} {b : β} (h : Reads (f a) d u v b) :
    Reads (Pure.pure a >>= f) d u v b := h

theorem bind_some {r : Read (Option α)} {f : Option α → Read β} {a : α} {b : β}
    (h : Reads r d u v (some a))
    (g : ∀ a', erase a' = erase a → Reads (f (some a')) d v w b) : Reads (r >>= f) d u w b := by
  refine h.bind fun o ho => ?_
  obtain ⟨a', rfl, ha⟩ := erase_eq_some_iff.1 ho
  exact g a' ha

theorem bind_none {r : Read (Option α)} {f : Option α → Read β} {b : β} (h : Reads r d u v none)
    (g : Reads (f none) d v w b) : Reads (r >>= f) d u w b := by
  refine h.bind fun o ho => ?_
  cases o with
  | none => exact g
  | some => cases ho

theorem bind_bool {r : Read Bool} {f : Bool → Read β} {c : Bool} {b : β} (h : Reads r d u v c)
    (g : Reads (f c) d v w b) : Reads (r >>= f) d u w b := by
  refine h.bind fun c' hc => ?_
  cases hc
  exact g

theorem map {r : Read α} {f : α → β} {a : α} {b : β} (h : Reads r d u v a)
    (g : ∀ a', erase a' = erase a → erase (f a') = erase b) : Reads (f <$> r) d u v b := by
  intro s hs
  obtain ⟨ht, ha⟩ := h s hs
  exact ⟨ht, g _ ha⟩

/-- A reader that looks at the cursor first. -/
theorem get {f : Cursor → Read β} {b : β} (h : ∀ s, At d u s → Reads (f s) d u v b) :
    Reads (MonadState.get >>= f) d u v b := fun s hs => h s hs s hs

/-- Only what the reader does on the tokens matters. -/
theorem congr {r q : Read α} {b : α} (h : ∀ s, At d u s → r s = q s) (g : Reads q d u v b) :
    Reads r d u v b := by
  intro s hs
  rw [h s hs]
  exact g s hs

theorem of_pos {c : Prop} [Decidable c] {r q : Read α} {b : α} (hc : c) (h : Reads r d u v b) :
    Reads (if c then r else q) d u v b := by rwa [if_pos hc]

theorem of_neg {c : Prop} [Decidable c] {r q : Read α} {b : α} (hc : ¬c) (h : Reads q d u v b) :
    Reads (if c then r else q) d u v b := by rwa [if_neg hc]

/-- The result counts only apart from places. -/
theorem of_erase_eq {r : Read α} {a b : α} (h : Reads r d u v a) (he : erase a = erase b) :
    Reads r d u v b := fun s hs => ⟨(h s hs).1, (h s hs).2.trans he⟩

/-! ## Single tokens -/

theorem kind {f : TokenKind → Read β} {b : β} (h : Reads (f k) d (k :: u) v b) :
    Reads (Read.kind >>= f) d (k :: u) v b := by
  refine get fun s hs => ?_
  rw [hs.kind]
  exact h

theorem advance (hk : k ≠ .eof) (b : Span) : Reads Read.advance d (k :: v) v b :=
  fun _ hs => ⟨hs.advance hk, rfl⟩

theorem span (b : Span) : Reads Read.span d v v b := fun _ hs => ⟨hs, rfl⟩

theorem spanFrom (first b : Span) : Reads (Read.spanFrom first) d v v b := fun _ hs => ⟨hs, rfl⟩

theorem eat_some (hk : k ≠ .eof) (b : Span) : Reads (Read.eat k) d (k :: v) v (some b) := by
  refine congr (fun s hs => Read.eat_of_eq hs.kind) ?_
  exact (advance hk b).map fun _ h => by rw [erase_some, erase_some, h]

theorem eat_none {kind : TokenKind} (hk : k ≠ kind) :
    Reads (Read.eat kind) d (k :: v) (k :: v) none :=
  congr (fun _ hs => Read.eat_of_ne (hs.kind ▸ hk)) (pure rfl)

theorem expect {what : String} (hk : k ≠ .eof) (b : Span) :
    Reads (Read.expect k what) d (k :: v) v (some b) := by
  refine congr (fun s hs => Read.expect_of_eq hs.kind) ?_
  exact (advance hk b).map fun _ h => by rw [erase_some, erase_some, h]

theorem ident {what : String} (name : Ident) :
    Reads (Read.ident what) d (.identifier name.name :: v) v (some name) := by
  refine congr (q := (fun span => some ⟨name.name, span⟩) <$> Read.advance) (fun s hs => ?_) ?_
  · exact Read.ident_of_some (by rw [hs.kind]; rfl)
  · exact (advance TokenKind.noConfusion default).map fun _ _ => rfl

/-! ## Loops and nesting -/

variable {o : Option α} {as : List α}

theorem erase_toList (o : Option α) : erase o.toList = (erase o).toList := by cases o <;> rfl

/-- A loop ends with a round that does not ask for another one. -/
theorem gather_end {step : Read (Option α × Bool)} (h : Reads step d u v (o, false)) :
    Reads (Read.gather step) d u v o.toList := by
  intro s hs
  obtain ⟨hend, hresult⟩ := h s hs
  have hitem : erase (step s).1.1 = erase o := congrArg Prod.fst hresult
  have hagain : (step s).1.2 = false := congrArg Prod.snd hresult
  rw [Read.gather_eq, hagain]
  exact ⟨hend, by simp only [Bool.false_and, Bool.false_eq_true, if_false, erase_toList, hitem]⟩

/-- A loop goes on after a round that asks for it and has read something. -/
theorem gather_more {step : Read (Option α × Bool)} (h : Reads step d u v (o, true))
    (hlt : v.length < u.length) (g : Reads (Read.gather step) d v w as) :
    Reads (Read.gather step) d u w (o.toList ++ as) := by
  intro s hs
  obtain ⟨hnext, hresult⟩ := h s hs
  have hitem : erase (step s).1.1 = erase o := congrArg Prod.fst hresult
  have hagain : (step s).1.2 = true := congrArg Prod.snd hresult
  obtain ⟨hend, hitems⟩ := g _ hnext
  rw [Read.gather_eq, if_pos (by simpa [hagain] using hnext.size_lt hs hlt)]
  exact ⟨hend, by rw [erase_append, erase_append, erase_toList, erase_toList, hitem, hitems]⟩

theorem gatherWhile_stop {goOn : Cursor → Bool} {step : Read (Option α)}
    (h : ∀ s, At d u s → goOn s = false) : Reads (Read.gatherWhile goOn step) d u u [] := by
  intro s hs
  rw [Read.gatherWhile_of_stop (h s hs)]
  exact ⟨hs, rfl⟩

theorem gatherWhile_go {goOn : Cursor → Bool} {step : Read (Option α)}
    (hgo : ∀ s, At d u s → goOn s = true) (h : Reads step d u v o) (hlt : v.length < u.length)
    (g : Reads (Read.gatherWhile goOn step) d v w as) :
    Reads (Read.gatherWhile goOn step) d u w (o.toList ++ as) := by
  intro s hs
  obtain ⟨hnext, hitem⟩ := h s hs
  obtain ⟨hend, hitems⟩ := g _ hnext
  rw [Read.gatherWhile_of_go (hgo s hs), if_pos (hnext.size_lt hs hlt)]
  exact ⟨hend, by rw [erase_append, erase_append, erase_toList, erase_toList, hitem, hitems]⟩

/-- Above the limit, what is nested is read one level deeper. -/
theorem nested {body instead : Read α} {b : α} (hd : d < maxNesting)
    (h : Reads body (d + 1) u v b) : Reads (Read.nested body instead) d u v b := by
  intro s hs
  obtain ⟨hend, hresult⟩ := h { s with depth := s.depth + 1 }
    ⟨hs.kinds, congrArg (· + 1) hs.depth, hs.clean, hs.lexed⟩
  rw [Read.nested_of_lt (hs.depth.symm ▸ hd)]
  exact ⟨⟨hend.kinds, congrArg (· - 1) hend.depth, hend.clean, hend.lexed⟩, hresult⟩

end Reads

/-! ## Units -/

/-- Items that differ in places only are put together to what differs in places only. -/
theorem UnitItem.erase_assemble {items items' : List UnitItem} (h : erase items = erase items')
    (stop stop' : Nat) : erase (assemble stop items) = erase (assemble stop' items') := by
  induction items generalizing items' with
  | nil =>
    obtain rfl : items' = [] := List.map_eq_nil_iff.mp h.symm
    rfl
  | cons item items ih =>
    cases items' with
    | nil => cases h
    | cons item' items' =>
      obtain ⟨hitem, hitems⟩ := List.cons.inj h
      have hrest := ih hitems
      have husings : erase (assemble stop items).1 = erase (assemble stop' items').1 :=
        congrArg Prod.fst hrest
      have hmembers : erase (assemble stop items).2 = erase (assemble stop' items').2 :=
        congrArg Prod.snd hrest
      cases item with
      | «using» directive =>
        cases item' with
        | «using» directive' =>
          have hdirective : erase directive = erase directive' := UnitItem.using.inj hitem
          show (erase directive :: erase (assemble stop items).1, erase (assemble stop items).2) = _
          rw [hdirective, husings, hmembers]
          rfl
        | member | fileScope => cases hitem
      | member one =>
        cases item' with
        | member one' =>
          have hone : erase one = erase one' := UnitItem.member.inj hitem
          show (erase (assemble stop items).1, erase one :: erase (assemble stop items).2) = _
          rw [hone, husings, hmembers]
          rfl
        | «using» | fileScope => cases hitem
      | fileScope name first =>
        cases item' with
        | fileScope name' first' =>
          have hname : erase name = erase name' := (UnitItem.fileScope.inj hitem).1
          simp only [assemble, erase_pair, erase_cons, erase_scope,
            erase_namespaceHeader, hname, husings, hmembers]
        | «using» | member => cases hitem

end SettingsLint
