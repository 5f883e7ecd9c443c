import SettingsLint.Proofs.Fix.MemberPlans
import SettingsLint.Proofs.Reading.TypePrefix
import SettingsLint.Proofs.Token.Gaps

/-! # The text of a type

The fix writes the type of a property again, as it stands in the source, between the parentheses of
a `typeof`. The same tokens are read there, and from them the same type: without the question mark,
the type that the mark made nullable.
-/

set_option synthInstance.maxSize 1024

namespace SettingsLint

open Placed (erase)
open TypeArgumentFix
open Text (byteSize)
open Token (Lexes Proper Solid Spelled kindsFrom lexFrom)

/-! ## The tokens of a type -/

/-- The type covers the first tokens, and is read from tokens of such kinds before a parenthesis. -/
structure TypeTokens (s : Cursor) (type : TypeExpr) (first : Token) (rest more : List Token) : Prop where
  tokens : s.tokens = first :: rest ++ more
  follows : more ≠ []
  within : (Read.typeExpr s).2.tokens <:+ more
  span : type.span = .over first rest
  reads : ∀ v, Reads Read.typeExpr s.depth ((first :: rest).map (·.kind) ++ .rightParen :: v)
    (.rightParen :: v) type

section

variable {s : Cursor} (hs : EndsInEof s.tokens) (ho : Ordered s.tokens)

/-- The tokens of a reader that takes some. -/
theorem Cursor.Reaches.exists_first {t : Cursor} (h : s.Reaches t) (hlt : t.size < s.size) :
    ∃ first rest, s.tokens = first :: rest ++ t.tokens := by
  obtain ⟨u, last, hu⟩ := h.exists_last hlt
  obtain ⟨first, rest, hfirst⟩ := List.exists_cons_of_ne_nil (List.concat_ne_nil last u)
  exact ⟨first, rest, hu.trans (congrArg (· ++ t.tokens) (by simpa using hfirst))⟩

theorem Read.startsType_typeExpr (hclean : (typeExpr s).2.errors = []) :
    s.kind = .leftParen ∨ s.atName = true := by
  rw [typeExpr_eq] at hclean
  rcases Nat.lt_or_ge s.depth maxNesting with shallow | deep
  · rw [nested_of_lt shallow] at hclean
    exact startsType_of_clean (s := { s with depth := s.depth + 1 }) hclean
  · rw [nested_of_le deep] at hclean
    exact absurd hclean (refuse_ne_clean _ s)

include hs

/-- A parenthesis ends a type. -/
theorem typeEnds_rightParen {v v' : List Token} {t : Token} (hv : v <:+ s.tokens) (hne : v ≠ [])
    (ht : t.kind = .rightParen) (hends : EndsInEof (t :: v')) : TypeEnds v (t :: v') :=
  have : Ends v (t :: v') := ⟨hs.of_suffix hv hne, hends⟩
  ⟨.inr ⟨t, v', rfl, .inr ht⟩⟩

include ho

theorem exists_typeTokens (hclean : (Read.typeExpr s).2.errors = []) :
    ∃ first rest more, TypeTokens s (Read.typeExpr s).1 first rest more := by
  have hreach := Read.Forward.reaches (r := Read.typeExpr) s
  obtain ⟨first, rest, htokens⟩ := hreach.exists_first (Read.takes_typeExpr s hs hclean)
  refine ⟨first, rest, (Read.typeExpr s).2.tokens, htokens, Cursor.tokens_ne_nil _, List.suffix_rfl, ?_,
    fun v => ?_⟩
  · exact (Read.span_typeExpr hclean).trans (hreach.spanFrom_eq ho htokens)
  · refine Replays.reads htokens hclean fun t v' s' ht hends => ?_
    have := typeEnds_rightParen hs hreach.suffix (Cursor.tokens_ne_nil _) ht hends
    infer_instance

/-- Without its mark a nullable type is the inner type. -/
theorem exists_typeTokens_inner (hclean : (Read.typeExpr s).2.errors = []) {inner : TypeExpr}
    {span : Span} (h : (Read.typeExpr s).1 = .nullable inner span) :
    ∃ first rest more, TypeTokens s inner first rest more := by
  obtain ⟨n, hstops⟩ := Read.exists_typeUpTo hs hclean h
  have hreach := Read.Forward.reaches (r := Read.typeUpTo n) s
  obtain ⟨first, rest, htokens⟩ := hreach.exists_first hstops.takes
  refine ⟨first, rest, (Read.typeUpTo n s).2.tokens, htokens, Cursor.tokens_ne_nil _, hstops.before, ?_,
    fun v => ?_⟩
  · exact hstops.covers.trans (hreach.spanFrom_eq ho htokens)
  · have hupTo : Reads (Read.typeUpTo n) s.depth ((first :: rest).map (·.kind) ++ .rightParen :: v)
        (.rightParen :: v) (Read.typeUpTo n s).1 := by
      refine Replays.reads htokens hstops.clean fun t v' s' ht hends => ?_
      have := typeEnds_rightParen hs hreach.suffix (Cursor.tokens_ne_nil _) ht hends
      infer_instance
    rw [hstops.reads] at hupTo
    refine .congr (fun s' hs' => ?_) hupTo
    obtain ⟨hend, -⟩ := hupTo s' hs'
    refine Read.typeExpr_of_upTo hs'.endsInEof hend.clean ?_ hend.kind
    -- The first token is of the same kind.
    have hkind : s'.kind = s.kind := by
      rw [hs'.kind]
      exact congrArg Token.kind (List.cons.inj htokens).1.symm
    rw [Cursor.atName, hkind]
    exact Read.startsType_typeExpr hclean

/-- The type to name is read from its own tokens. -/
theorem exists_typeTokens_toName (hclean : (Read.typeExpr s).2.errors = []) (dropNullable : Bool) :
    ∃ first rest more,
      TypeTokens s (typeToName dropNullable (Read.typeExpr s).1) first rest more := by
  have hwhole := exists_typeTokens hs ho hclean
  cases htype : (Read.typeExpr s).1 with
  | nullable inner span =>
    cases dropNullable with
    | true => exact exists_typeTokens_inner hs ho hclean htype
    | false => rwa [htype] at hwhole
  | _ => rwa [htype] at hwhole

end

/-! ## Its text -/

/-- Some tokens of a source are read from their text before a parenthesis, too. -/
theorem Token.exists_slice {text : String} {w more rest : List Token} {first : Token}
    (h : lexToEnd text = w ++ (first :: rest ++ more))
    (hproper : ∀ t ∈ w ++ first :: rest, t.Proper) :
    ∃ x, (Span.over first rest).slice text.toList = x ∧ Solid x ∧ ∀ r,
      kindsFrom false (x ++ ')' :: r) =
        (first :: rest).map (·.kind) ++ kindsFrom false (')' :: r) := by
  -- What stands before the tokens ends where their text starts.
  have hbefore : ∃ before lineStart cs, text.toList = before ++ cs ∧
      lexFrom lineStart (byteSize before) [] cs = first :: rest ++ more := by
    cases w with
    | nil => exact ⟨[], true, text.toList, rfl, h⟩
    | cons t w =>
      obtain ⟨u, x, r, next, hcs, -, -, hstart, hstop, hmore, -⟩ := exists_part h
        fun t' ht' => hproper t' (List.mem_append_left _ ht')
      refine ⟨u ++ x, false, r, by rw [hcs, List.append_assoc], ?_⟩
      rw [hmore, hstop, hstart, Text.byteSize_append, Nat.zero_add]
  obtain ⟨before, lineStart, cs, hcs, hlex⟩ := hbefore
  obtain ⟨u, x, r, next, rfl, -, hsolid, hstart, hstop, -, hkinds⟩ := exists_part hlex
    fun t' ht' => hproper t' (List.mem_append_right _ ht')
  refine ⟨x, ?_, hsolid, fun r' => hkinds false _ (.inr rfl) (.ends rfl r r')⟩
  have hslice := Text.slice?_append (before ++ u) x r
  rw [Span.slice, Span.slice?, Span.over, hstop, hstart, hcs]
  rw [Text.byteSize_append, List.append_assoc] at hslice
  rw [hslice, Option.getD_some]

theorem Token.spelled_typeOf : Spelled "typeof(".toList [.identifier "typeof", .leftParen] := by
  have hname (r : List Char) : Lexes false "typeof".toList ('(' :: r) (.identifier "typeof") :=
    ⟨'t', "ypeof".toList, rfl, rfl, rfl, nofun, rfl⟩
  refine ⟨fun rest => ?_, by simp⟩
  show kindsFrom false ("typeof".toList ++ '(' :: rest) = _
  rw [(hname rest).kindsFrom]
  exact congrArg _ (spelled_leftParen.reads rest)

/-- The `typeof` with the text of a type. -/
theorem Token.spelled_typeOf_append {x : List Char} {kinds : List TokenKind}
    (h : ∀ r, kindsFrom false (x ++ ')' :: r) = kinds ++ kindsFrom false (')' :: r))
    (hkinds : ∀ kind ∈ kinds, ∀ malformed, kind ≠ .error malformed) :
    Spelled ("typeof(".toList ++ (x ++ [')']))
      (.identifier "typeof" :: .leftParen :: (kinds ++ [.rightParen])) := by
  have hclosed : Spelled (x ++ [')']) (kinds ++ [.rightParen]) := by
    refine ⟨fun rest => ?_, List.forall_mem_append.2 ⟨hkinds, spelled_rightParen.ne_error⟩⟩
    rw [List.append_assoc, List.singleton_append, h, List.append_assoc]
    exact congrArg _ (spelled_rightParen.reads rest)
  exact spelled_typeOf.append hclosed

/-! ## The type of a property -/

/-- The edits that name the type of a property in its attributes. -/
theorem map_editFor_eq (text : String) (p : Property) :
    (p.ownAttributes.filter isBinding).map (editFor text) = p.attributes.flatMap (listEdits text) := by
  have hattributes (as : List Attribute) :
      (as.filter isBinding).map (editFor text) = as.flatMap (attributeEdits text) := by
    induction as with
    | nil => rfl
    | cons a as ih =>
      rw [List.flatMap_cons, ← ih, attributeEdits, List.filter_cons]
      split <;> rfl
  rw [hattributes, Property.ownAttributes]
  induction p.attributes with
  | nil => rfl
  | cons list lists ih =>
    rw [List.flatMap_cons, ← ih, listEdits, List.filter_cons]
    split
    · rw [List.flatMap_cons, List.flatMap_append]
    · rfl

theorem toList_typeOfFor (source : Source) (dropNullable : Bool) (p : Property) :
    (typeOfFor source dropNullable p).toList = "typeof(".toList ++
      (Text.trimBlank ((typeToName dropNullable p.type).span.slice source.text.toList) ++ [')']) := by
  simp [typeOfFor]

/-- Naming its type in its attributes, as the fix writes it, is right for every property that is
    selected. -/
theorem renames_nameType (source : Source)
    (htext : ∀ t ∈ (Token.lexToEnd source.text).dropLast, t.Proper)
    (selected dropNullable : Property → Bool) :
    Renames source.text
      (fun p => if selected p then
        (p.ownAttributes.filter isBinding).map (editFor (typeOfFor source (dropNullable p) p)) else [])
      (fun p => if selected p then p.nameType (dropNullable p) else p) := by
  intro s p hs htype hclean
  dsimp only
  cases selected p with
  | false => exact ⟨fun _ => rfl, fun h => absurd rfl h⟩
  | true =>
    refine ⟨fun hE => p.nameType_of_isEmpty (List.map_eq_nil_iff.1 hE), fun _ => ?_⟩
    obtain ⟨first, rest, more, ht⟩ := exists_typeTokens_toName
      hs.lexed.endsInEof hs.lexed.ordered hclean (dropNullable p)
    rw [htype] at ht
    obtain ⟨w, hw⟩ := hs
    rw [ht.tokens] at hw
    have hproper (t : Token) (htoken : t ∈ w ++ first :: rest) : t.Proper := by
      refine htext t ?_
      rw [← hw, ← List.append_assoc, List.dropLast_append_of_ne_nil ht.follows]
      exact List.mem_append_left _ htoken
    obtain ⟨x, hx, hsolid, hkinds⟩ := Token.exists_slice hw.symm hproper
    have hspelled := Token.spelled_typeOf_append hkinds (List.forall_mem_map.2 fun t htoken =>
      (hproper t (List.mem_append_right w htoken)).ne_error)
    rw [← hsolid.trimBlank, ← hx, ← ht.span, ← toList_typeOfFor] at hspelled
    refine ⟨⟨typeOfFor source (dropNullable p) p, (first :: rest).map Token.kind,
      typeToName (dropNullable p) p.type⟩, ⟨?_, hspelled, ht.reads⟩, map_editFor_eq _ p, rfl⟩
    rw [toList_typeOfFor]
    rfl

end SettingsLint
