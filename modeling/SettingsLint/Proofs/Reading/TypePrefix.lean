import SettingsLint.Proofs.Reading.Listed
import SettingsLint.Proofs.Reading.ReplayTypes
import SettingsLint.Proofs.Reading.Termination

/-! # Types without their last suffix

A nullable type ends with a question mark, and what stands before the mark is read as the type
without it. The reader of types goes on through the mark; so there is a reader here that stops after
some of the suffixes, which reads as far as the reader of types does if a parenthesis comes next.
-/

set_option synthInstance.maxSize 1024

namespace SettingsLint

open Placed (erase)

namespace Read

variable {inner : TypeExpr}

/-- At most `n` suffixes after a type that starts at `first`. -/
def suffixesUpTo (first : Span) : Nat → TypeExpr → Read TypeExpr
  | 0, type => pure type
  | n + 1, type => do
    match ← typeSuffixes.oneSuffix first type with
    | some longer => suffixesUpTo first n longer
    | none => pure type

/-- A type without its suffixes, where one starts. -/
def typeBase (argument : Read TypeExpr) (first : Span) : Read TypeExpr := do
  if (← kind) = .leftParen then
    skipGroup
    return .unsupported (← spanFrom first)
  else qualifiedName argument

/-- A type with at most `n` suffixes, where one starts. -/
def typeUpTo (n : Nat) : Read TypeExpr := do
  let first ← span
  nested (typeBase (typeExprWithin 63) first >>= suffixesUpTo first n) (skippedType first)

variable {first : Span} {type : TypeExpr} {s : Cursor} {n : Nat} {argument : Read TypeExpr}

instance : Forward (suffixesUpTo first n type) := by
  induction n generalizing type with
  | zero =>
    unfold suffixesUpTo
    infer_instance
  | succ n ih => exact .bind inferInstance fun found => by cases found <;> infer_instance

instance [Forward argument] : Forward (typeBase argument first) := by
  unfold typeBase
  infer_instance

instance : Forward (typeUpTo n) := by
  unfold typeUpTo
  infer_instance

theorem suffixesUpTo_of_none (h : (typeSuffixes.oneSuffix first type s).1 = none) :
    suffixesUpTo first n type s = (type, s) := by
  cases n with
  | zero => rfl
  | succ n =>
    rw [suffixesUpTo, bind_apply, h, oneSuffix_none h]
    rfl

theorem suffixesUpTo_of_some {longer : TypeExpr}
    (h : (typeSuffixes.oneSuffix first type s).1 = some longer) :
    suffixesUpTo first (n + 1) type s =
      suffixesUpTo first n longer (typeSuffixes.oneSuffix first type s).2 := by
  rw [suffixesUpTo, bind_apply, h]

theorem typeSuffixes_of_none (h : (typeSuffixes.oneSuffix first type s).1 = none) :
    typeSuffixes first type s = (type, s) := by
  rw [typeSuffixes_eq]
  dsimp only
  rw [h, oneSuffix_none h]

theorem typeSuffixes_of_some (hs : EndsInEof s.tokens) {longer : TypeExpr}
    (h : (typeSuffixes.oneSuffix first type s).1 = some longer) :
    typeSuffixes first type s = typeSuffixes first longer (typeSuffixes.oneSuffix first type s).2 := by
  rw [typeSuffixes_eq]
  dsimp only
  rw [h]
  dsimp only
  rw [if_pos (findsAt_oneSuffix first type hs (by simp [h]))]

/-- A suffix that makes a type nullable is a question mark. -/
theorem oneSuffix_nullable {span : Span}
    (h : (typeSuffixes.oneSuffix first type s).1 = some (.nullable inner span)) :
    s.kind = .question ∧ inner = type ∧ (typeSuffixes.oneSuffix first type s).2 = s.advance := by
  rw [oneSuffix_eq] at h ⊢
  split at h
  case isTrue hk =>
    rw [if_pos hk]
    cases h
    exact ⟨hk, rfl, rfl⟩
  case isFalse =>
    split at h
    · cases h
    · split at h <;> cases h

theorem oneSuffix_rightParen (h : s.kind = .rightParen) :
    (typeSuffixes.oneSuffix first type s).1 = none := by
  rw [oneSuffix_eq]
  simp [h, Cursor.atArraySuffix]
  rfl

/-- Before a parenthesis a type has no more suffixes. -/
theorem typeSuffixes_of_upTo (hs : EndsInEof s.tokens)
    (h : (suffixesUpTo first n type s).2.kind = .rightParen) :
    typeSuffixes first type s = suffixesUpTo first n type s := by
  induction n generalizing type s with
  | zero => exact typeSuffixes_of_none (oneSuffix_rightParen h)
  | succ n ih =>
    cases hone : (typeSuffixes.oneSuffix first type s).1 with
    | none => rw [typeSuffixes_of_none hone, suffixesUpTo_of_none hone]
    | some longer =>
      rw [suffixesUpTo_of_some hone] at h ⊢
      rw [typeSuffixes_of_some hs hone]
      exact ih ((Forward.reaches s).endsInEof hs) h

/-- If the last suffix makes the type nullable, all others are read before the mark. -/
theorem exists_upTo_of_nullable (hs : EndsInEof s.tokens) (hspan : type.span = s.spanFrom first)
    (hone : (typeSuffixes.oneSuffix first type s).1 ≠ none) {span : Span}
    (h : (typeSuffixes first type s).1 = .nullable inner span) :
    ∃ n t, suffixesUpTo first n type s = (inner, t) ∧ t.kind = .question ∧
      inner.span = t.spanFrom first ∧ (typeSuffixes first type s).2 = t.advance := by
  induction hn : s.size using Nat.strongRecOn generalizing s type with
  | _ size ih =>
    obtain ⟨longer, hlonger⟩ := Option.ne_none_iff_exists'.mp hone
    rw [typeSuffixes_of_some hs hlonger] at h ⊢
    by_cases hnext : (typeSuffixes.oneSuffix first longer (typeSuffixes.oneSuffix first type s).2).1 = none
    · rw [typeSuffixes_of_none hnext] at h ⊢
      obtain rfl : longer = .nullable inner span := h
      obtain ⟨hk, rfl, hadvance⟩ := oneSuffix_nullable hlonger
      exact ⟨0, s, rfl, hk, hspan, hadvance⟩
    · obtain ⟨n, t, hrun, hk, hinner, hend⟩ := ih _ (hn ▸ findsAt_oneSuffix first type hs hone)
        ((Forward.reaches s).endsInEof hs) (span_oneSuffix hlonger) hnext h rfl
      exact ⟨n + 1, t, (suffixesUpTo_of_some hlonger).trans hrun, hk, hinner, hend⟩

/-! ## Whole types -/

theorem typeBase_of_paren (h : s.kind = .leftParen) :
    typeBase argument first s = (.unsupported ((skipGroup s).2.spanFrom first), (skipGroup s).2) := by
  rw [typeBase, kind_bind, if_pos h]
  rfl

theorem typeBase_of_ne (h : s.kind ≠ .leftParen) :
    typeBase argument first s = qualifiedName argument s := by
  rw [typeBase, kind_bind, if_neg h]

theorem span_typeBase :
    (typeBase argument s.span s).1.span = (typeBase argument s.span s).2.spanFrom s.span := by
  by_cases hk : s.kind = .leftParen
  · rw [typeBase_of_paren hk]
    rfl
  · rw [typeBase_of_ne hk]
    exact span_qualifiedName argument s

theorem typeBase_ne_nullable (inner : TypeExpr) (span : Span) :
    (typeBase argument first s).1 ≠ .nullable inner span := by
  by_cases hk : s.kind = .leftParen
  · rw [typeBase_of_paren hk]
    exact nofun
  · rw [typeBase_of_ne hk]
    show ((if (s.atWord "global" && s.peek 1 = .colonColon) = true then _ else _ : Read TypeExpr)
      s).1 ≠ _
    split <;> exact nofun

theorem takes_typeBase (argument : Read TypeExpr) [Forward argument] (first : Span) :
    Takes (typeBase argument first) := by
  intro s
  show TakesAt (if s.kind = .leftParen then _ else _ : Read TypeExpr) s
  split
  case isTrue hk => exact (takesAt_skipGroup (by rw [hk]; decide)).bind
  case isFalse => exact takes_qualifiedName argument s

/-- Where a type starts, it is what stands before its suffixes and the suffixes. -/
theorem typeExprWith_eq (h : s.kind = .leftParen ∨ s.atName = true) :
    typeExprWith argument first s = (typeBase argument first >>= typeSuffixes first) s := by
  rw [typeExprWith, get_bind, bind_apply]
  by_cases hk : s.kind = .leftParen
  · rw [if_pos hk, typeBase_of_paren hk]
    rfl
  · rw [if_neg hk, if_pos (h.resolve_left hk), typeBase_of_ne hk]
    rfl

theorem startsType_of_clean (h : (typeExprWith argument first s).2.errors = []) :
    s.kind = .leftParen ∨ s.atName = true := by
  rw [typeExprWith, get_bind] at h
  split at h
  · exact .inl ‹_›
  · split at h
    · exact .inr ‹_›
    · exact absurd h (List.append_ne_nil_of_right_ne_nil _ (List.cons_ne_nil _ _))

/-- What the reader reads covers the inner type, and it stops before the mark, after which the
    cursor `t` stands. -/
structure StopsAfter (r : Read TypeExpr) (s t : Cursor) (inner : TypeExpr) : Prop where
  reads : (r s).1 = inner
  clean : (r s).2.errors = []
  takes : (r s).2.size < s.size
  covers : inner.span = (r s).2.spanFrom s.span
  before : t.tokens <:+ (r s).2.tokens

theorem exists_stopsAfter [Forward argument] (hs : EndsInEof s.tokens)
    (hclean : (typeExprWith argument s.span s).2.errors = []) {span : Span}
    (h : (typeExprWith argument s.span s).1 = .nullable inner span) :
    ∃ n, StopsAfter (typeBase argument s.span >>= suffixesUpTo s.span n) s
      (typeExprWith argument s.span s).2 inner := by
  have hstart := startsType_of_clean hclean
  rw [typeExprWith_eq hstart, bind_apply] at hclean h ⊢
  have hbase := Forward.reaches (r := typeBase argument s.span) s
  have hone : (typeSuffixes.oneSuffix s.span (typeBase argument s.span s).1
      (typeBase argument s.span s).2).1 ≠ none := by
    -- Without a suffix the type would not be nullable.
    intro hnone
    rw [typeSuffixes_of_none hnone] at h
    exact typeBase_ne_nullable inner span h
  obtain ⟨n, t, hrun, -, hspan, hend⟩ :=
    exists_upTo_of_nullable (hbase.endsInEof hs) span_typeBase hone h
  rw [hend] at hclean ⊢
  rw [errors_advance] at hclean
  have hreach : (typeBase argument s.span s).2.Reaches t := by
    have := Forward.reaches (r := suffixesUpTo s.span n (typeBase argument s.span s).1)
      (typeBase argument s.span s).2
    rwa [hrun] at this
  have hall : (typeBase argument s.span >>= suffixesUpTo s.span n) s = (inner, t) := hrun
  refine ⟨n, ?_, ?_, ?_, ?_, ?_⟩
  all_goals rw [hall]
  · exact hclean
  · exact Nat.lt_of_le_of_lt hreach.size_le (takes_typeBase argument _ s hs (hreach.clean hclean))
  · exact hspan
  · exact (Cursor.Reaches.advance t).suffix

/-- What stands before the mark of a nullable type is the inner type. -/
theorem exists_typeUpTo (hs : EndsInEof s.tokens) (hclean : (typeExpr s).2.errors = []) {span : Span}
    (h : (typeExpr s).1 = .nullable inner span) :
    ∃ n, StopsAfter (typeUpTo n) s (typeExpr s).2 inner := by
  rw [typeExpr_eq] at hclean h ⊢
  rcases Nat.lt_or_ge s.depth maxNesting with shallow | deep
  · rw [nested_of_lt shallow] at hclean h ⊢
    obtain ⟨n, hstops⟩ := exists_stopsAfter (s := { s with depth := s.depth + 1 }) hs hclean h
    have hupTo : typeUpTo n s = nested
        (typeBase (typeExprWithin 63) s.span >>= suffixesUpTo s.span n) (skippedType s.span) s := rfl
    rw [nested_of_lt shallow] at hupTo
    refine ⟨n, ?_, ?_, ?_, ?_, ?_⟩
    all_goals rw [hupTo]
    · exact hstops.reads
    · exact hstops.clean
    · exact hstops.takes
    · exact hstops.covers
    · exact hstops.before
  · rw [nested_of_le deep] at hclean
    exact absurd hclean (refuse_ne_clean _ s)

/-- Before a parenthesis the reader of types stops as well. -/
theorem typeExpr_of_upTo (hs : EndsInEof s.tokens) (hclean : (typeUpTo n s).2.errors = [])
    (hstart : s.kind = .leftParen ∨ s.atName = true) (hk : (typeUpTo n s).2.kind = .rightParen) :
    typeExpr s = typeUpTo n s := by
  have hupTo : typeUpTo n s = nested
      (typeBase (typeExprWithin 63) s.span >>= suffixesUpTo s.span n) (skippedType s.span) s := rfl
  rw [hupTo] at hclean hk ⊢
  rw [typeExpr_eq]
  rcases Nat.lt_or_ge s.depth maxNesting with shallow | deep
  · rw [nested_of_lt shallow] at hk
    have hbody : typeExprWith (typeExprWithin 63) s.span { s with depth := s.depth + 1 } =
        (typeBase (typeExprWithin 63) s.span >>= suffixesUpTo s.span n)
          { s with depth := s.depth + 1 } := by
      rw [typeExprWith_eq (s := { s with depth := s.depth + 1 }) hstart, bind_apply]
      exact typeSuffixes_of_upTo ((Forward.reaches { s with depth := s.depth + 1 }).endsInEof hs) hk
    rw [nested_of_lt shallow, nested_of_lt shallow, hbody]
  · rw [nested_of_le deep] at hclean
    exact absurd hclean (refuse_ne_clean _ s)

end Read

/-! ## Reading the types again -/

section

variable {v v' : List Token} {s s' : Cursor} [hv : TypeEnds v v']
include hv

namespace Replays

instance {type type' : TypeExpr} [htype : Alike type type'] (first first' : Span) (n : Nat) :
    Replays v v' (Read.suffixesUpTo first n type) (Read.suffixesUpTo first' n type') s s' := by
  induction n generalizing type type' s s' with
  | zero => exact pure htype
  | succ n ih =>
    exact .bind (fun found => by cases found <;> infer_instance) inferInstance fun found found' t t' hfound =>
      hfound.option (pure htype) fun _ _ _ => ih

instance {argument : Read TypeExpr} [Read.Forward argument]
    [∀ s s', Replays v v' argument argument s s'] (first first' : Span) :
    Replays v v' (Read.typeBase argument first) (Read.typeBase argument first') s s' := by
  by_cases hs : s.tokens = v
  · exact of_takes hs (Read.takes_typeBase argument first s)
  refine .getAt fun twin => .ite (by rw [twin.kind_of_ne hs]) (fun hk => ?_) inferInstance
  exact .bind inferInstance (skipGroup (by rw [hk]; decide)) inferInstance

instance (n : Nat) : Replays v v' (Read.typeUpTo n) (Read.typeUpTo n) s s' := by
  unfold Read.typeUpTo
  infer_instance

end Replays

end

end SettingsLint
