import SettingsLint.Proofs.Fix.Plan
import SettingsLint.Proofs.Fix.TreeEdit
import SettingsLint.Proofs.Printing.Attributes
import SettingsLint.Proofs.Reading.Listed

/-! # Naming the type in the text: arguments

For the arguments of a binding attribute there is a plan whose edit is the one that the
fix makes, and whose new tokens are read as the arguments that the tree should have. The
plan follows the arguments as they were read: the first one that names a type has its
value replaced, or else a new one goes before the first one that is set, or to the end.
-/

set_option synthInstance.maxSize 1024

namespace SettingsLint

open Read
open Placed (erase)
open Token (Spelled)
open TypeArgumentFix

/-! ## Changes -/

/-- After a token of kind `prev` the plan changes what is read from `s` up to `t` by the
    edits, and the new tokens are read as `b` before what satisfies `stop`. -/
structure Plan.Changes [Placed α] (π : Plan) (r : Read α) (stop : TokenKind → Prop)
    (prev : TokenKind) (s t : Cursor) (es : List TextEdit) (b : α) : Prop where
  old : s.tokens = π.old ++ t.tokens
  edits : π.edits = es
  fits : π.Fits prev
  reads : ∀ k v, stop k → Reads r s.depth (π.kinds ++ k :: v) (k :: v) b

/-- An item of a list ends before a comma or what closes the list. -/
def endsItem (closing kind : TokenKind) : Prop := kind = .comma ∨ kind = closing

section

variable [Placed α] {π ρ : Plan} {item : Read (Option α)} {closing : TokenKind}
  {prev : TokenKind} {s t : Cursor} {es es' : List TextEdit} {b : α} {bs : List α}

theorem Plan.Changes.mono {r : Read α} {stop stop' : TokenKind → Prop}
    (h : π.Changes r stop prev s t es b) (hstop : ∀ k, stop' k → stop k) :
    π.Changes r stop' prev s t es b :=
  ⟨h.old, h.edits, h.fits, fun k v hk => h.reads k v (hstop k hk)⟩

theorem Plan.Changes.some_map {r : Read α} {stop : TokenKind → Prop}
    (h : π.Changes r stop prev s t es b) : π.Changes (some <$> r) stop prev s t es (some b) :=
  ⟨h.old, h.edits, h.fits, fun k v hk =>
    (h.reads k v hk).map fun _ he => by rw [erase_some, erase_some, he]⟩

/-- The new tokens do not start where a list ends. -/
def Plan.StartsItem (π : Plan) (closing : TokenKind) : Prop :=
  ∃ k ks, π.kinds = k :: ks ∧ k ≠ closing ∧ k ≠ .eof

theorem Plan.exists_kinds_keep {u v : List Token} (hs : s.tokens = u ++ v) (hu : u ≠ []) :
    ∃ ks, (Plan.keep u).kinds = s.kind :: ks := by
  obtain ⟨x, u, rfl⟩ := List.exists_cons_of_ne_nil hu
  obtain rfl : s.current = x := (List.cons.inj hs).1
  exact ⟨u.map (·.kind), by simp [Cursor.kind]⟩

theorem Plan.startsItem_keep {u v : List Token} (hs : s.tokens = u ++ v) (hu : u ≠ [])
    (hk : s.kind ≠ closing) (heof : s.kind ≠ .eof) : (Plan.keep u).StartsItem closing := by
  obtain ⟨ks, hks⟩ := Plan.exists_kinds_keep hs hu
  exact ⟨_, _, hks, hk, heof⟩

theorem Plan.Changes.list_nil :
    Plan.Changes [] (gather (listItem closing item)) (· = closing) prev s s [] [] := by
  refine ⟨rfl, rfl, trivial, ?_⟩
  rintro _ v rfl
  exact .list_nil

theorem Plan.Changes.list_last {stop : TokenKind → Prop}
    (h : π.Changes item stop prev s t es (some b)) (hclosing : closing ≠ .comma)
    (hstop : stop closing) (hfirst : π.StartsItem closing) :
    π.Changes (gather (listItem closing item)) (· = closing) prev s t es [b] := by
  obtain ⟨k, ks, hkinds, hk, heof⟩ := hfirst
  refine ⟨h.old, h.edits, h.fits, ?_⟩
  rintro closing v rfl
  have hitem := h.reads closing v hstop
  rw [hkinds] at hitem ⊢
  exact .list_last hk heof hclosing hitem

variable [Forward item]

theorem Plan.Changes.list_more {stop : TokenKind → Prop}
    (h : π.Changes item stop prev s (item s).2 es (some b)) (hstop : stop .comma)
    (hfirst : π.StartsItem closing) (hs : s.Lexed) (hc : (item s).2.kind = .comma)
    (g : ρ.Changes (gather (listItem closing item)) (· = closing) .comma
      (advance (item s).2).2 t es' bs) :
    (π ++ Plan.keep [(item s).2.current] ++ ρ).Changes (gather (listItem closing item))
      (· = closing) prev s t (es ++ es') (b :: bs) := by
  obtain ⟨k, ks, hkinds, hk, heof⟩ := hfirst
  have hreach := Forward.reaches (r := item) s
  have hne : (item s).2.kind ≠ .eof := by rw [hc]; decide
  have hnext := tokens_advance hne (hreach.lexed hs).endsInEof
  have hadvance : s.Reaches (advance (item s).2).2 := hreach.trans (.advance _)
  refine ⟨?_, ?_, ?_, ?_⟩
  · have htokens : (item s).2.tokens = (item s).2.current :: (advance (item s).2).2.tokens := by
      rw [hnext]
      rfl
    rw [h.old, htokens, g.old]
    simp
  · simp [h.edits, g.edits]
  · refine Plan.fits_append.2 ⟨Plan.fits_append.2 ⟨h.fits, Plan.fits_keep _ _⟩, ?_⟩
    have hlast : Plan.last prev (π ++ Plan.keep [(item s).2.current]) = .comma := by
      rw [Plan.last_append]
      exact hc
    rw [hlast]
    exact g.fits
  · rintro closing v rfl
    have hcomma : (item s).2.current.kind = .comma := hc
    have hlist := g.reads closing v rfl
    have hitem := h.reads .comma (ρ.kinds ++ closing :: v) hstop
    rw [hadvance.depth] at hlist
    simp only [Plan.kinds_append, Plan.kinds_keep, hkinds, List.map_cons, hcomma,
      List.append_assoc] at hitem ⊢
    exact .list_more hk heof (by simp; omega) hitem hlist

/-- If the items of a list are changed one by one, and none at its start, the list is. -/
theorem Listed.exists_plan (hclosing : closing ≠ .comma) {g : α → α} {E : α → List TextEdit}
    {as : List α} (h : Listed item closing s as t) {d : Nat} (hd : s.depth = d)
    (hitem : ∀ (s : Cursor) (a : α) (prev : TokenKind), s.depth = d → s.Lexed →
      (item s).2.errors = [] → (item s).1 = some a → endsItem closing (item s).2.kind →
      ∃ π : Plan, π.Changes item (· = (item s).2.kind) prev s (item s).2 (E a) (some (g a)) ∧
        ∃ ks, π.kinds = s.kind :: ks)
    (hs : s.Lexed) (hclean : t.errors = [])
    (prev : TokenKind) :
    ∃ π : Plan, π.Changes (gather (listItem closing item)) (· = closing) prev s t
      (as.flatMap E) (as.map g) ∧ (π.kinds ++ [closing]).head? = some s.kind := by
  induction h generalizing prev with
  | nil hk => exact ⟨[], .list_nil, by simp [hk]⟩
  | @last s a hk heof ha hc =>
    obtain ⟨π, hπ, ks, hks⟩ := hitem s a prev hd hs hclean ha (.inr hc)
    refine ⟨π, ?_, by simp [hks]⟩
    simpa using hπ.list_last hclosing hc.symm ⟨_, _, hks, hk, heof⟩
  | @more s t a as hk heof ha hc rest ih =>
    have hadvance : s.Reaches (advance (item s).2).2 :=
      (Forward.reaches s).trans (.advance _)
    have hclean₁ : (item s).2.errors = [] := rest.clean_item hclean
    obtain ⟨π, hπ, ks, hks⟩ := hitem s a prev hd hs hclean₁ ha (.inl hc)
    obtain ⟨ρ, hρ, -⟩ := ih (hadvance.depth.trans hd) (hadvance.lexed hs) hclean .comma
    exact ⟨_, hπ.list_more hc.symm ⟨_, _, hks, hk, heof⟩ hs hc hρ, by simp [hks]⟩

end

/-! ## Naming a type -/

/-- A way to write `typeof` of a type: the text of all of it, and the kinds of the tokens
    between its parentheses. -/
structure Naming where
  text : String
  kinds : List TokenKind
  type : TypeExpr

namespace Naming

/-- The kinds of all tokens. -/
def typeOfKinds (n : Naming) : List TokenKind :=
  .identifier "typeof" :: .leftParen :: (n.kinds ++ [.rightParen])

/-- The text is read as the kinds, and these are read as the type. -/
structure Valid (n : Naming) (d : Nat) : Prop where
  starts : n.text.toList.head? = some 't'
  spelled : Spelled n.text.toList n.typeOfKinds
  reads : ∀ v, Reads typeExpr d (n.kinds ++ .rightParen :: v) (.rightParen :: v) n.type

variable {n : Naming} {d : Nat} {k : TokenKind} {v : List TokenKind}

theorem Valid.reads_typeOfValue (hn : n.Valid d) (hk : endsItem .rightParen k) (first : Span) :
    Reads (typeOfValue first) d (n.typeOfKinds ++ k :: v) (k :: v) (.naming n.type) := by
  simp only [typeOfKinds, List.cons_append, List.append_assoc]
  refine (Reads.advance TokenKind.noConfusion default).bind fun _ _ => ?_
  refine (Reads.advance TokenKind.noConfusion default).bind fun _ _ => ?_
  refine (hn.reads (k :: v)).bind fun type htype => ?_
  refine (Reads.expect TokenKind.noConfusion default).bind_some fun _ _ => .get fun s hs => ?_
  refine .of_pos (by simp [hs.atArgumentEnd hk]) ?_
  exact (Reads.spanFrom first default).bind fun _ _ => .pure (congrArg (Expr.typeOf · default) htype)

theorem Valid.reads_value (hn : n.Valid d) (hk : endsItem .rightParen k) :
    Reads argumentValue d (n.typeOfKinds ++ k :: v) (k :: v) (.naming n.type) := by
  refine .get fun s hs => .of_pos ?_ (hn.reads_typeOfValue hk _)
  simp [hs.atWord, hs.peek_one, TokenKind.isWord, TokenKind.name?]

theorem startsValue (n : Naming) : StartsValue n.typeOfKinds := by
  refine ⟨nofun, nofun, fun k' hk' => ?_⟩
  obtain rfl : TokenKind.leftParen = k' := by simpa using hk'
  rfl

/-- The `typeof` alone is an argument. -/
theorem Valid.reads_argument (hn : n.Valid d) (hk : endsItem .rightParen k) :
    Reads argument d (n.typeOfKinds ++ k :: v) (k :: v) (.naming n.type) := by
  have hmark : k.argumentMark? = none := by rcases hk with rfl | rfl <;> rfl
  refine (Reads.span default).bind fun first _ => ?_
  refine (reads_argumentName_none n.startsValue hmark).bind fun name hname => ?_
  refine (hn.reads_value hk).bind fun value hvalue => ?_
  refine (Reads.spanFrom first default).bind fun _ _ => .pure ?_
  rw [Argument.naming, erase_argument, erase_argument, hname, hvalue]

/-- After a name and a mark the `typeof` is the value of the argument. -/
theorem Valid.reads_named (hn : n.Valid d) (hk : endsItem .rightParen k) {name : ArgumentName}
    {a : Argument} (ha : a.name = some name) :
    Reads argument d (name.kinds ++ (n.typeOfKinds ++ k :: v)) (k :: v)
      (a.withType n.type) := by
  refine (Reads.span default).bind fun first _ => ?_
  refine (reads_argumentName_some name).bind fun name' hname => ?_
  refine (hn.reads_value hk).bind fun value hvalue => ?_
  refine (Reads.spanFrom first default).bind fun _ _ => .pure ?_
  rw [Argument.withType, erase_argument, erase_argument, hname, hvalue, ha]

end Naming

/-! ## One argument -/

section

variable {s : Cursor} {n : Naming} (hs : s.Lexed)
  (hclean : (argument s).2.errors = []) (hend : endsItem .rightParen (argument s).2.kind)
  (prev : TokenKind)

theorem endsItem.atArgumentEnd {s : Cursor} (h : endsItem .rightParen s.kind) :
    s.atArgumentEnd = true := by
  rcases h with h | h <;> simp [Cursor.atArgumentEnd, h]

include hs hclean hend

/-- The argument is kept. -/
theorem exists_keep_argument :
    ∃ u, ArgumentTokens (argument s).1 u ∧ (Plan.keep u).Changes argument
      (endsItem .rightParen) prev s (argument s).2 [] (argument s).1 := by
  obtain ⟨u, hu, htokens⟩ := exists_argumentTokens hs.endsInEof hs.ordered hclean hend.atArgumentEnd
  refine ⟨u, htokens, by simpa using hu, by simp, Plan.fits_keep _ _, fun k v hk => ?_⟩
  rw [Plan.kinds_keep]
  refine Replays.reads hu hclean fun t v' s' ht hv' => ?_
  have : Ends (argument s).2.tokens (t :: v') :=
    ⟨(Forward.reaches s).endsInEof hs.endsInEof, hv'⟩
  have : ValueEnds (argument s).2.tokens (t :: v') :=
    ⟨.inr ⟨_, _, t, v', rfl, rfl, hend, ht ▸ hk⟩⟩
  infer_instance

/-- The value of the argument is replaced. -/
theorem exists_plan_withType (hn : n.Valid s.depth) (hprev : Plan.opensValue prev = true) :
    ∃ π : Plan, π.Changes argument (endsItem .rightParen) prev s (argument s).2
      [⟨(argument s).1.value.span, n.text⟩] ((argument s).1.withType n.type) ∧
      π.StartsItem .rightParen := by
  obtain ⟨u, hu, htokens⟩ := exists_argumentTokens hs.endsInEof hs.ordered hclean hend.atArgumentEnd
  cases htokens with
  | @positional first rest hname hspan =>
    refine ⟨[.instead first rest n.text n.typeOfKinds], ⟨by simpa using hu, ?_, ?_, ?_⟩, ?_⟩
    · rw [hspan]
      rfl
    · exact ⟨⟨hprev, hn.starts, hn.spelled⟩, trivial⟩
    · intro k v hk
      have heq : erase ((argument s).1.withType n.type) = erase (Argument.naming n.type) := by
        rw [Argument.withType, Argument.naming, erase_argument, erase_argument, hname]
      simpa using (hn.reads_argument hk).of_erase_eq heq.symm
    · exact ⟨_, _, by simp [Naming.typeOfKinds]; exact ⟨rfl, rfl⟩, by decide, by decide⟩
  | @named t m first rest name mark ht hm hname hspan =>
    have hkind : m.kind = mark.tokenKind := by
      cases hk : m.kind <;> rw [hk] at hm <;> cases hm <;> rfl
    refine ⟨.kept t :: .kept m :: [.instead first rest n.text n.typeOfKinds],
      ⟨by simpa using hu, ?_, ?_, ?_⟩, ?_⟩
    · rw [hspan]
      rfl
    · have hmark : Plan.opensValue m.kind = true := by
        rw [hkind]
        cases mark <;> rfl
      exact ⟨trivial, trivial, ⟨hmark, hn.starts, hn.spelled⟩, trivial⟩
    · intro k v hk
      simpa [ArgumentName.kinds, ht, hkind] using hn.reads_named hk hname
    · exact ⟨t.kind, _, rfl, by simp [ht], by simp [ht]⟩

end

/-! ## All arguments -/

section

variable {s t : Cursor} {as : List Argument} {n : Naming} {prev : TokenKind}
  {a : Argument} {x : Token} {w : List Token}

/-- The arguments between the parentheses. -/
abbrev Read.arguments : Read (List Argument) :=
  gather (listItem .rightParen (some <$> argument))

/-- The arguments are kept. -/
theorem Listed.exists_keep (h : Listed (some <$> argument) .rightParen s as t)
    (hs : s.Lexed) (hclean : t.errors = [])
    (prev : TokenKind) :
    ∃ u, (Plan.keep u).Changes arguments (· = .rightParen) prev s t [] as := by
  have hplan := h.exists_plan (by decide) (g := id) (E := fun _ => []) rfl ?_ hs hclean prev
  · obtain ⟨π, hπ, -⟩ := hplan
    rw [List.flatMap_eq_nil_iff.2 fun _ _ => rfl, List.map_id] at hπ
    exact ⟨π.old, Plan.eq_keep_of_edits_eq_nil hπ.edits ▸ hπ⟩
  · intro s a prev _ hs hclean ha hend
    obtain ⟨u, htokens, hu⟩ := exists_keep_argument hs hclean hend prev
    obtain rfl : (argument s).1 = a := Option.some.inj ha
    exact ⟨Plan.keep u, hu.some_map.mono fun k hk => hk ▸ hend,
      Plan.exists_kinds_keep (by simpa using hu.old) htokens.ne_nil⟩

/-- The value of the first argument that names a type is replaced. -/
theorem Listed.exists_plan_replace (h : Listed (some <$> argument) .rightParen s as t)
    (hs : s.Lexed) (hclean : t.errors = [])
    (hn : n.Valid s.depth) (hprev : Plan.opensValue prev = true)
    (hfind : as.find? isTypeArgument = some a) :
    ∃ π : Plan, π.Changes arguments (· = .rightParen) prev s t [⟨a.value.span, n.text⟩]
      (Argument.replaceType n.type as) := by
  induction h generalizing prev with
  | nil => simp at hfind
  | @last s b hk heof hb hc =>
    obtain rfl : (argument s).1 = b := Option.some.inj hb
    obtain ⟨htype, rfl⟩ : isTypeArgument (argument s).1 = true ∧ (argument s).1 = a := by
      simpa [List.find?_singleton] using hfind
    obtain ⟨π, hπ, hfirst⟩ := exists_plan_withType hs hclean (.inr hc) prev hn hprev
    refine ⟨π, ?_⟩
    rw [Argument.replaceType, if_pos htype]
    exact hπ.some_map.list_last (by decide) (.inr rfl) hfirst
  | @more s t b as hk heof hb hc rest ih =>
    obtain rfl : (argument s).1 = b := Option.some.inj hb
    have hadvance : s.Reaches (advance (argument s).2).2 :=
      (Forward.reaches s).trans (.advance _)
    have hclean₁ : (argument s).2.errors = [] := rest.clean_item hclean
    have hs₁ := hadvance.lexed hs
    rw [Argument.replaceType]
    split
    case isTrue htype =>
      obtain rfl : (argument s).1 = a := by simpa [htype] using hfind
      obtain ⟨π, hπ, hfirst⟩ := exists_plan_withType hs hclean₁ (.inl hc) prev hn hprev
      obtain ⟨u, hu⟩ := rest.exists_keep hs₁ hclean .comma
      exact ⟨_, hπ.some_map.list_more (.inl rfl) hfirst hs hc hu⟩
    case isFalse htype =>
      have hfind' : as.find? isTypeArgument = some a := by
        simpa [htype] using hfind
      have hcomma : Plan.opensValue .comma = true := rfl
      obtain ⟨ρ, hρ⟩ := ih hs₁ hclean (hadvance.depth ▸ hn) hcomma hfind'
      obtain ⟨u, htokens, hu⟩ := exists_keep_argument hs hclean₁ (.inl hc) prev
      exact ⟨_, hu.some_map.list_more (.inl rfl)
        (Plan.startsItem_keep (by simpa using hu.old) htokens.ne_nil hk heof) hs hc hρ⟩

/-! ### A new argument -/

section

variable {text : String} {closing : Span} {a b : Argument} {as : List Argument}

theorem insertionFor_of_isSet (h : isSet a = true) :
    insertionFor text closing (a :: as) = .insertion a.span.start (text ++ ", ") := by
  simp [insertionFor, h]

theorem insertionFor_singleton (h : ¬ isSet a = true) :
    insertionFor text closing [a] = .insertion a.span.stop (", " ++ text) := by
  simp [insertionFor, h]

theorem insertionFor_cons_cons (h : ¬ isSet a = true) :
    insertionFor text closing (a :: b :: as) = insertionFor text closing (b :: as) := by
  simp [insertionFor, h]

end

section

variable {d : Nat} {u v : List TokenKind}

theorem Naming.Valid.reads_some {k : TokenKind} (hn : n.Valid d) (hk : endsItem .rightParen k) :
    Reads (some <$> argument) d (n.typeOfKinds ++ k :: v) (k :: v)
      (some (.naming n.type)) :=
  (hn.reads_argument hk).map fun _ he => by rw [erase_some, erase_some, he]

/-- The new argument and a comma stand before the others. -/
theorem Naming.Valid.reads_before (hn : n.Valid d) (h : Reads arguments d u v as) :
    Reads arguments d (n.typeOfKinds ++ .comma :: u) v (.naming n.type :: as) := by
  refine .list_more nofun nofun ?_ (hn.reads_some (.inl rfl)) h
  simp
  omega

/-- The new argument is the last one. -/
theorem Naming.Valid.reads_last (hn : n.Valid d) :
    Reads arguments d (n.typeOfKinds ++ .rightParen :: v) (.rightParen :: v)
      [.naming n.type] :=
  .list_last nofun nofun nofun
    (hn.reads_some (.inr rfl))

end

/-- The new argument is put before arguments that are kept. -/
theorem Plan.Changes.insert_first
    (h : (Plan.keep (x :: w)).Changes arguments (· = .rightParen) prev s t [] as)
    (hn : n.Valid s.depth) (hprev : Plan.opensValue prev = true) (hx : x.kind.name?.isSome = true) :
    Plan.Changes (.before x (n.text ++ ", ") (n.typeOfKinds ++ [.comma]) :: Plan.keep w)
      arguments (· = .rightParen) prev s t
      [.insertion x.span.start (n.text ++ ", ")] (.naming n.type :: as) := by
  refine ⟨by simpa using h.old, by simp, ⟨⟨hprev, ?_, ?_, .inl hx⟩, Plan.fits_keep _ _⟩, ?_⟩
  · have hstarts := hn.starts
    simp only [String.toList_append, List.head?_append, hstarts, Option.some_or]
  · rw [String.toList_append]
    exact hn.spelled.append Token.spelled_comma
  · intro k v hk
    simpa using hn.reads_before (h.reads k v hk)

/-- The new argument is put after an argument that is kept. -/
theorem Plan.Changes.insert_last {t : Cursor}
    (h : (Plan.keep (w ++ [x])).Changes (some <$> argument) (endsItem .rightParen) prev s t []
      (some a))
    (hfirst : (Plan.keep (w ++ [x])).StartsItem .rightParen) (hn : n.Valid s.depth) :
    ∃ π : Plan, π.old = w ++ [x] ∧ π.edits = [.insertion x.span.stop (", " ++ n.text)] ∧
      π.Fits prev ∧ ∀ u v, Reads arguments s.depth (n.typeOfKinds ++ u) v [.naming n.type] →
        Reads arguments s.depth (π.kinds ++ u) v [a, .naming n.type] := by
  refine ⟨Plan.keep w ++ [.after x (", " ++ n.text) (.comma :: n.typeOfKinds)], by simp, by simp, ?_,
    fun u v hreads => ?_⟩
  · refine Plan.fits_append.2 ⟨Plan.fits_keep _ _, ⟨.inr ?_, ?_⟩, trivial⟩
    · simp
    · rw [String.toList_append]
      exact Token.spelled_comma.append hn.spelled
  · obtain ⟨k, ks, hks, hk, heof⟩ := hfirst
    have hitem := h.reads .comma (n.typeOfKinds ++ u) (.inl rfl)
    have hkinds : (Plan.keep w ++ [Piece.after x (", " ++ n.text) (.comma :: n.typeOfKinds)]).kinds =
        (Plan.keep (w ++ [x])).kinds ++ .comma :: n.typeOfKinds := by simp
    rw [hkinds, List.append_assoc]
    rw [hks] at hitem ⊢
    exact .list_more hk heof (by simp; omega) hitem hreads

theorem span_argument_stop (hs : s.Lexed)
    (hw : s.tokens = w ++ [x] ++ (argument s).2.tokens) :
    (argument s).1.span.stop = x.span.stop := by
  rw [span_argument, (Forward.reaches s).spanFrom_stop hs.ordered hw]

theorem ArgumentTokens.exists_name {u : List Token} (h : ArgumentTokens a u)
    (hset : isSet a = true) : ∃ x w, u = x :: w ∧ x.kind.name?.isSome = true := by
  cases h with
  | positional hname => simp [isSet, hname] at hset
  | named ht => exact ⟨_, _, rfl, by simp [ht, TokenKind.name?]⟩

/-- The first argument is set, so the new one is put before it. -/
theorem Plan.Changes.insert_set {u : List Token}
    (h : (Plan.keep u).Changes arguments (· = .rightParen) prev s t [] (a :: as))
    (hn : n.Valid s.depth) (hprev : Plan.opensValue prev = true) (hset : isSet a = true)
    (ha : a.span.start = s.span.start) (hu : u = x :: w)
    (hx : x.kind.name?.isSome = true) (closing : Span) :
    ∃ π : Plan, π.Changes arguments (· = .rightParen) prev s t
      [insertionFor n.text closing (a :: as)] (.naming n.type :: a :: as) := by
  subst hu
  have hold : s.tokens = x :: w ++ t.tokens := by simpa using h.old
  have hfirst : s.current = x := (List.cons.inj hold).1
  rw [insertionFor_of_isSet hset, ha, Cursor.span, hfirst]
  exact ⟨_, h.insert_first hn hprev hx⟩

/-- A new argument is put before the first one that is set, or after the last one. -/
theorem Listed.exists_plan_insert (h : Listed (some <$> argument) .rightParen s as t)
    (hs : s.Lexed) (hclean : t.errors = [])
    (hn : n.Valid s.depth) (hprev : Plan.opensValue prev = true) (hne : as ≠ []) (closing : Span) :
    ∃ π : Plan, π.Changes arguments (· = .rightParen) prev s t
      [insertionFor n.text closing as] (Argument.insertType n.type as) := by
  induction h generalizing prev with
  | nil => exact absurd rfl hne
  | @last s b hk heof hb hc =>
    obtain rfl : (argument s).1 = b := Option.some.inj hb
    obtain ⟨u, htokens, hu⟩ := exists_keep_argument hs hclean (.inr hc) prev
    have hold : s.tokens = u ++ (argument s).2.tokens := by simpa using hu.old
    have hstart := Plan.startsItem_keep hold htokens.ne_nil hk heof
    rw [Argument.insertType]
    split
    case isTrue hset =>
      obtain ⟨x, w, hxw, hx⟩ := htokens.exists_name hset
      have hlist := hu.some_map.list_last (by decide) (.inr rfl) hstart
      exact hlist.insert_set hn hprev hset rfl hxw hx closing
    case isFalse hset =>
      obtain ⟨w, x, rfl⟩ := List.eq_nil_or_concat u |>.resolve_left htokens.ne_nil
      rw [List.concat_eq_append] at *
      obtain ⟨π, hπ, hedits, hfits, hreads⟩ := hu.some_map.insert_last hstart hn
      refine ⟨π, hπ ▸ hold, ?_, hfits, ?_⟩
      · rw [hedits, insertionFor_singleton hset, span_argument_stop hs hold]
      · rintro _ v rfl
        exact hreads _ _ hn.reads_last
  | @more s t b as hk heof hb hc rest ih =>
    obtain rfl : (argument s).1 = b := Option.some.inj hb
    have hadvance : s.Reaches (advance (argument s).2).2 :=
      (Forward.reaches s).trans (.advance _)
    have hclean₁ : (argument s).2.errors = [] := rest.clean_item hclean
    have hs₁ := hadvance.lexed hs
    obtain ⟨u, htokens, hu⟩ := exists_keep_argument hs hclean₁ (.inl hc) prev
    have hold : s.tokens = u ++ (argument s).2.tokens := by simpa using hu.old
    have hstart := Plan.startsItem_keep hold htokens.ne_nil hk heof
    rw [Argument.insertType]
    split
    case isTrue hset =>
      obtain ⟨x, w, rfl, hx⟩ := htokens.exists_name hset
      obtain ⟨u₂, hu₂⟩ := rest.exists_keep hs₁ hclean .comma
      have hlist := hu.some_map.list_more (.inl rfl) hstart hs hc hu₂
      simp only [← Plan.keep_append] at hlist
      exact hlist.insert_set hn hprev hset rfl rfl hx closing
    case isFalse hset =>
      cases as with
      | nil =>
        -- A comma stands after the last argument, and stays there.
        obtain rfl : t = (advance (argument s).2).2 := by
          cases rest with
          | nil => rfl
        obtain ⟨w, x, rfl⟩ := List.eq_nil_or_concat u |>.resolve_left htokens.ne_nil
        rw [List.concat_eq_append] at *
        obtain ⟨π, hπ, hedits, hfits, hreads⟩ := hu.some_map.insert_last hstart hn
        have hnext := tokens_advance (s := (argument s).2) (hc ▸ by decide)
          ((Forward.reaches s).endsInEof hs.endsInEof)
        refine ⟨π ++ Plan.keep [(argument s).2.current], ?_, ?_, ?_, ?_⟩
        · rw [Plan.old_append, hπ, hnext, hold]
          simp [Cursor.tokens]
        · rw [Plan.edits_append, hedits, insertionFor_singleton hset, span_argument_stop hs hold]
          rfl
        · exact Plan.fits_append.2 ⟨hfits, Plan.fits_keep _ _⟩
        · rintro _ v rfl
          have hcomma : (argument s).2.current.kind = .comma := hc
          have hlast := hreads (.comma :: .rightParen :: v) _ (hn.reads_before .list_nil)
          simpa [hcomma, Argument.insertType] using hlast
      | cons c as =>
        have hcomma : Plan.opensValue .comma = true := rfl
        obtain ⟨ρ, hρ⟩ := ih hs₁ hclean (hadvance.depth ▸ hn) hcomma (by simp)
        rw [insertionFor_cons_cons hset]
        exact ⟨_, hu.some_map.list_more (.inl rfl) hstart hs hc hρ⟩

end

/-! ## The argument list -/

section

variable {s : Cursor} {n : Naming} {as : List Argument}

theorem Read.argumentList_of_closed (hk : (arguments (advance s).2).2.kind = .rightParen) :
    argumentList s = (⟨s.span, (arguments (advance s).2).2.span, (arguments (advance s).2).1⟩,
      (advance (arguments (advance s).2).2).2) := by
  simp only [argumentList, bind_apply]
  rw [expect_of_eq hk]
  rfl

theorem Read.kind_of_argumentList_clean (hclean : (argumentList s).2.errors = []) :
    (arguments (advance s).2).2.kind = .rightParen := by
  by_contra hk
  simp only [argumentList, bind_apply] at hclean
  rw [expect_of_ne hk] at hclean
  exact absurd hclean (List.append_ne_nil_of_right_ne_nil _ (List.cons_ne_nil _ _))

/-- Arguments between parentheses are an argument list. -/
theorem Reads.argumentList {d : Nat} {u v : List TokenKind}
    (h : Reads arguments d (u ++ .rightParen :: v) (.rightParen :: v) as) (first last : Span) :
    Reads argumentList d (.leftParen :: (u ++ .rightParen :: v)) v ⟨first, last, as⟩ := by
  refine (Reads.advance TokenKind.noConfusion default).bind fun _ _ => h.bind fun as' has => ?_
  refine (Reads.expect TokenKind.noConfusion default).bind_some fun _ _ => .pure ?_
  rw [erase_argumentList, erase_argumentList, has]

/-- The argument list is changed as its arguments are. -/
theorem Plan.Changes.argumentList {π : Plan} {es : List TextEdit} (hs : s.Lexed)
    (hk : s.kind = .leftParen) (hc : (arguments (advance s).2).2.kind = .rightParen)
    (h : π.Changes arguments (· = .rightParen) .leftParen (advance s).2
      (arguments (advance s).2).2 es as) (prev : TokenKind) (first last : Span) :
    ∃ ρ : Plan, ρ.Changes argumentList (fun _ => True) prev s (argumentList s).2 es
      ⟨first, last, as⟩ ∧ ∃ ks, ρ.kinds = .leftParen :: ks := by
  set t := (arguments (advance s).2).2 with ht
  have hreach : s.Reaches t := (Cursor.Reaches.advance s).trans (Forward.reaches _)
  have hfirst := tokens_advance (hk ▸ by decide) hs.endsInEof
  have hlast := tokens_advance (hc ▸ by decide) (hreach.lexed hs).endsInEof
  have hrun := argumentList_of_closed hc
  have hopening : s.current.kind = .leftParen := hk
  have hclosing : t.current.kind = .rightParen := hc
  refine ⟨.kept s.current :: (π ++ Plan.keep [t.current]), ⟨?_, ?_, ?_, fun k v _ => ?_⟩,
    _, congrArg (· :: _) hk⟩
  · have hold := h.old
    rw [hfirst] at hold
    rw [hrun, hlast, Cursor.tokens, hold, Cursor.tokens]
    simp
  · simpa using h.edits
  · refine ⟨trivial, Plan.fits_append.2 ⟨?_, Plan.fits_keep _ _⟩⟩
    rw [show Plan.lastOf (.kept s.current) = .leftParen from hk]
    exact h.fits
  · have hreads := h.reads .rightParen (k :: v) rfl
    have hdepth : (advance s).2.depth = s.depth := (Cursor.Reaches.advance s).depth
    rw [hdepth] at hreads
    simpa [hopening, hclosing] using hreads.argumentList first last

/-- Without arguments the new one is put before the closing parenthesis. -/
theorem exists_plan_emptyList (hs : s.Lexed) (hk : s.kind = .leftParen)
    (hc : (advance s).2.kind = .rightParen) (hn : n.Valid s.depth) (prev : TokenKind) :
    ∃ π : Plan, π.Changes argumentList (fun _ => True) prev s
      (advance (advance s).2).2 [.insertion (advance s).2.span.start n.text]
      (ArgumentList.nameType n.type (some ⟨s.span, (advance s).2.span, []⟩)) ∧
      ∃ ks, π.kinds = .leftParen :: ks := by
  have hfirst := tokens_advance (hk ▸ by decide) hs.endsInEof
  have hlast : (advance (advance s).2).2.tokens = (advance s).2.ahead :=
    tokens_advance (hc ▸ by decide) ((Cursor.Reaches.advance s).lexed hs).endsInEof
  have hopening : s.current.kind = .leftParen := hk
  have hclosing : (advance s).2.current.kind = .rightParen := hc
  refine ⟨[.kept s.current, .before (advance s).2.current n.text n.typeOfKinds],
    ⟨?_, rfl, ?_, fun k v _ => ?_⟩, _, congrArg (· :: _) hk⟩
  · rw [hlast, Cursor.tokens, ← hfirst]
    rfl
  · refine ⟨trivial, ?_, trivial⟩
    rw [show Plan.lastOf (.kept s.current) = .leftParen from hk]
    exact ⟨rfl, hn.starts, hn.spelled, .inr hc⟩
  · have hreads := (hn.reads_last (v := k :: v)).argumentList s.span (advance s).2.span
    simpa [hopening, hclosing, ArgumentList.nameType, Argument.nameType, Argument.insertType]
      using hreads

/-- In the argument list the type is named by the edit that the fix makes. -/
theorem exists_plan_argumentList (hs : s.Lexed) (hk : s.kind = .leftParen)
    (hclean : (argumentList s).2.errors = [])
    (hn : n.Valid s.depth) (prev : TokenKind) :
    ∃ π : Plan, π.Changes argumentList (fun _ => True) prev s (argumentList s).2
      [editIn n.text (argumentList s).1]
      (ArgumentList.nameType n.type (some (argumentList s).1)) ∧
      ∃ ks, π.kinds = .leftParen :: ks := by
  have hc := kind_of_argumentList_clean hclean
  have hrun := argumentList_of_closed hc
  have hadvance := Cursor.Reaches.advance s
  have hs₁ := hadvance.lexed hs
  have hn₁ : n.Valid (advance s).2.depth := hadvance.depth ▸ hn
  have hclean₁ : (arguments (advance s).2).2.errors = [] := by
    rw [hrun] at hclean
    exact (Cursor.Reaches.advance _).clean hclean
  have hlist : Listed (some <$> argument) .rightParen (advance s).2
      (argumentList s).1.arguments (arguments (advance s).2).2 := by
    rw [hrun]
    exact Listed.of_gather (fun _ h => nomatch h) hs₁.endsInEof hclean₁ hc
  by_cases hnil : (argumentList s).1.arguments = []
  · rw [hnil] at hlist
    have hstay : arguments (advance s).2 = ([], (advance s).2) := by
      refine Prod.ext ?_ ?_
      · rw [hrun] at hnil
        exact hnil
      · generalize (arguments (advance s).2).2 = t at hlist
        cases hlist
        rfl
    rw [hstay] at hc hrun
    rw [hrun]
    exact exists_plan_emptyList hs hk hc hn prev
  have hchange : ∃ π : Plan, π.Changes arguments (· = .rightParen) .leftParen
      (advance s).2 (arguments (advance s).2).2 [editIn n.text (argumentList s).1]
      (Argument.nameType n.type (argumentList s).1.arguments) := by
    rw [Argument.nameType]
    cases hfind : (argumentList s).1.arguments.find? isTypeArgument with
    | some a =>
      have hany : (argumentList s).1.arguments.any isTypeArgument = true :=
        List.any_eq_true.2 ⟨a, List.mem_of_find?_eq_some hfind, List.find?_some hfind⟩
      rw [if_pos hany, editIn, hfind]
      exact hlist.exists_plan_replace hs₁ hclean₁ hn₁ rfl hfind
    | none =>
      have hany : ¬ (argumentList s).1.arguments.any isTypeArgument = true := by
        simpa using List.find?_eq_none.1 hfind
      rw [if_neg hany, editIn, hfind]
      exact hlist.exists_plan_insert hs₁ hclean₁ hn₁ rfl hnil _
  obtain ⟨π, hπ⟩ := hchange
  exact hπ.argumentList hs hk hc prev _ _

end

end SettingsLint
