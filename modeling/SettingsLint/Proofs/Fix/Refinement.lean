import SettingsLint.Fix.Fixing
import SettingsLint.Proofs.Fix.EditPlaces
import SettingsLint.Proofs.Fix.TypeText
import SettingsLint.Proofs.Fix.UnitPlans
import SettingsLint.Proofs.Fix.Weaving
import SettingsLint.Proofs.Reading.Brackets
import SettingsLint.Proofs.Reading.Nesting

/-! # Text edits refine tree edits

A source without errors is edited in its text. What is read from the new text is the old tree with
its properties changed, apart from places, and there are no errors in it.
-/

set_option synthInstance.maxSize 1024

namespace SettingsLint

open Placed (erase)
open TextEdit (applyAll)
open TypeArgumentFix

/-! ## Tokens -/

theorem Source.clean_ofTokens {text : String} (hclean : (Source.parse text).errors = []) :
    (Cursor.ofTokens (Token.lexToEnd text)).errors = [] :=
  (Read.Forward.reaches (r := Read.sourceUnit) _).clean hclean

/-- Without errors all tokens but the last one are proper. -/
theorem Source.proper_of_clean {text : String} (hclean : (Source.parse text).errors = []) :
    ∀ t ∈ (Token.lexToEnd text).dropLast, t.Proper := by
  have hlaid := Token.laid_lexToEnd text
  have herrors := (Cursor.errors_ofTokens hlaid.ends).symm.trans (Source.clean_ofTokens hclean)
  intro t ht
  refine ⟨(hlaid.ordered.filled t ht).1, Token.error?_eq_none_iff.1 ?_⟩
  exact List.filterMap_eq_nil_iff.1 herrors t ((List.dropLast_sublist _).subset ht)

/-- Among the new tokens none is malformed. -/
theorem Plan.Fits.ne_error {π : Plan} {prev : TokenKind} (h : π.Fits prev)
    (hold : ∀ t ∈ π.old, t.Proper) : ∀ kind ∈ π.kinds, ∀ malformed, kind ≠ .error malformed := by
  induction π generalizing prev with
  | nil => exact fun _ hkind => absurd hkind List.not_mem_nil
  | cons piece π ih =>
    rw [Plan.old_cons, List.forall_mem_append] at hold
    rw [Plan.kinds_cons, List.forall_mem_append]
    refine ⟨?_, ih h.2 hold.2⟩
    have hpiece := h.1
    cases piece with
    | kept t => simpa using (hold.1 t (by simp)).ne_error
    | after t text new =>
      have ht := (hold.1 t (by simp)).ne_error
      exact List.forall_mem_cons.2 ⟨ht, hpiece.2.ne_error⟩
    | before t text new =>
      have ht := (hold.1 t (by simp)).ne_error
      exact List.forall_mem_append.2 ⟨hpiece.2.2.1.ne_error, List.forall_mem_singleton.2 ht⟩
    | instead first rest text new => exact hpiece.2.2.ne_error

/-- Nothing follows the end of a source. -/
theorem Cursor.ahead_eq_nil {s : Cursor} (ho : Ordered s.tokens) (heof : s.kind = .eof) :
    s.ahead = [] := by
  by_contra hne
  refine (ho.filled s.current ?_).1 heof
  rw [Cursor.tokens, List.dropLast_cons_of_ne_nil hne]
  exact List.mem_cons_self

/-! ## Units -/

namespace Read

variable {s : Cursor}

/-- The parts of a unit after braces that close nothing. -/
def strayBodies : Read (List (List UsingDirective × List UnitMember)) :=
  gatherWhile (!·.atEnd) strayBody

theorem sourceUnit_eq (s : Cursor) : sourceUnit s =
    (⟨((unitBody s).1 :: (strayBodies (unitBody s).2).1).flatMap (·.1),
      ((unitBody s).1 :: (strayBodies (unitBody s).2).1).flatMap (·.2),
      ⟨s.span.start, (strayBodies (unitBody s).2).2.span.stop⟩⟩, (strayBodies (unitBody s).2).2) := rfl

/-- A body that goes up to the end is a whole unit. -/
theorem sourceUnit_of_eof (h : (unitBody s).2.kind = .eof) :
    sourceUnit s = (⟨(unitBody s).1.1, (unitBody s).1.2, ⟨s.span.start, (unitBody s).2.span.stop⟩⟩,
      (unitBody s).2) := by
  have hnone : strayBodies (unitBody s).2 = ([], (unitBody s).2) :=
    gatherWhile_of_stop (by simp [Cursor.atEnd, h, TokenKind.isEof])
  rw [sourceUnit_eq, hnone]
  simp

theorem unitBody_eq (s : Cursor) : unitBody s =
    (UnitItem.assemble (unitItems (blockWithin maxNesting) s).2.previousStop
      (unitItems (blockWithin maxNesting) s).1, (unitItems (blockWithin maxNesting) s).2) := rfl

end Read

section

variable {text text' : String} {E : Property → List TextEdit} {W : Property → Property}

/-- A text of the kinds of a plan is read from its start without errors. -/
theorem Plan.Fits.at_ofTokens {π : Plan} {prev : TokenKind} (h : π.Fits prev)
    (hold : ∀ t ∈ π.old, t.Proper) (hkinds : Token.kindsOf text' = π.kinds ++ [.eof]) :
    At 0 (π.kinds ++ [.eof]) (.ofTokens (Token.lexToEnd text')) := by
  rw [← hkinds]
  refine At.ofTokens ?_
  -- What the plan puts in is spelled without errors.
  rw [hkinds, List.forall_mem_append]
  exact ⟨h.ne_error hold, List.forall_mem_singleton.2 fun _ => nofun⟩

/-- The items of a unit are put together to the unit. -/
theorem SourceUnit.erase_of_items {items items' : List UnitItem}
    (h : erase items' = erase (items.map (·.mapProperties W))) (stop stop' : Nat) (span span' : Span) :
    erase (SourceUnit.mk (UnitItem.assemble stop' items').1 (UnitItem.assemble stop' items').2 span') =
      erase ((SourceUnit.mk (UnitItem.assemble stop items).1 (UnitItem.assemble stop items).2
        span).mapProperties W) := by
  have hassemble := UnitItem.erase_assemble h stop' stop
  rw [UnitItem.assemble_map] at hassemble
  exact congrArg₂ (SourceUnit.mk · · default) (congrArg Prod.fst hassemble) (congrArg Prod.snd hassemble)

/-- The plans for the items of a unit are a plan for all of it. -/
theorem Source.exists_plan (hclean : (Source.parse text).errors = [])
    (hren : Renames text E W) :
    ∃ (π : Plan) (last : Token), Token.lexToEnd text = π.old ++ [last] ∧ last.kind = .eof ∧
      (∀ prev, π.Fits prev) ∧ π.edits = (Source.parse text).unit.allProperties.flatMap E ∧
      ∀ s', At 0 (π.kinds ++ [.eof]) s' → (Read.sourceUnit s').2.errors = [] ∧
        erase (Read.sourceUnit s').1 = erase ((Source.parse text).unit.mapProperties W) := by
  have hlaid := Token.laid_lexToEnd text
  set s := Cursor.ofTokens (Token.lexToEnd text)
  have htokens : s.tokens = Token.lexToEnd text := Cursor.tokens_ofTokens hlaid.ends
  obtain ⟨heof, hread⟩ := Read.kind_unitBody hclean
  have hunit : (Source.parse text).unit = _ := congrArg Prod.fst (Read.sourceUnit_of_eof heof)
  set t := (Read.unitItems (Read.blockWithin maxNesting) s).2
  have hreach : s.Reaches t := Read.Forward.reaches s
  have hlast : t.tokens = [t.current] := by
    have ho : Ordered t.tokens := hlaid.ordered.of_suffix (htokens ▸ hreach.suffix)
    rw [Cursor.tokens, Cursor.ahead_eq_nil ho heof]
  obtain ⟨π, hplan⟩ := planned_unitItems (Cursor.lexedFrom_ofTokens text) hren
    (blockPlans_blockWithin hren maxNesting) ((congrArg Cursor.errors hread).symm.trans hclean)
  refine ⟨π, t.current, ?_, heof, hplan.fits, ?_, fun s' hs' => ?_⟩
  · rw [← htokens, hplan.old]
    exact congrArg (π.old ++ ·) hlast
  · rw [hplan.edits, hunit, SourceUnit.allProperties, Read.unitBody_eq,
      UnitItem.allPropertiesIn_assemble]
    rfl
  · have hmeets : Meets .far t.tokens [.eof] := by
      rw [hlast, ← show t.current.kind = .eof from heof]
      rfl
    obtain ⟨hend, hitems⟩ := hplan.reads _ hmeets s' (Cursor.depth_ofTokens _ ▸ hs')
    rw [Read.sourceUnit_of_eof hend.kind, hunit]
    exact ⟨hend.clean, SourceUnit.erase_of_items hitems _ _ _ _⟩

/-- The text after the edits of all properties is read as the unit with its properties changed. -/
theorem Source.exists_rewritten (hclean : (Source.parse text).errors = [])
    (hren : Renames text E W) :
    ∃ text' : String,
      applyAll ((Source.parse text).unit.allProperties.flatMap E) text.toList = text'.toList ∧
      (Source.parse text').errors = [] ∧
      erase (Source.parse text').unit = erase ((Source.parse text).unit.mapProperties W) := by
  obtain ⟨π, last, hold, hlast, hfits, hπ, hrun⟩ := Source.exists_plan hclean hren
  have hproper : ∀ t ∈ π.old, t.Proper := by
    have := Source.proper_of_clean hclean
    rwa [hold, List.dropLast_concat] at this
  obtain ⟨cs', hweaves⟩ := Plan.exists_weaves hold hlast hproper (hfits .eof)
  rw [← hπ]
  refine ⟨String.ofList cs', ?_, hrun _ ((hfits .eof).at_ofTokens hproper ?_)⟩
  · rw [String.toList_ofList]
    exact hweaves.applied [] rfl
  · rw [Token.kindsOf, Token.lexToEnd, String.toList_ofList, Token.map_kind_lexFrom, hweaves.kinds, hlast]

end

/-! ## Fixes -/

/-- The unit with the type named in the binding attributes of the property at the place. -/
def SourceUnit.nameTypeAt (span : Span) (dropNullable : Bool) (unit : SourceUnit) : SourceUnit :=
  unit.mapProperties fun p => if p.span = span then p.nameType dropNullable else p

section

variable {text : String} {p : Property}

/-- Of all properties of a text only one is at its place. -/
theorem Source.filter_span_eq (hp : p ∈ (Source.parse text).unit.properties) :
    (Source.parse text).unit.allProperties.filter (·.span = p.span) = [p] := by
  have hspread := Source.spread_parse text
  replace hp := (Source.parse text).unit.perm_allProperties.mem_iff.1 hp
  obtain ⟨before, after, hsplit⟩ := List.append_of_mem hp
  have hne (q : Property) (hq : q ∈ (Source.parse text).unit.allProperties) :
      q.span.start < q.span.stop := by
    have := hspread.named q hq
    omega
  have hapart := hspread.apart
  rw [hsplit] at hne hapart ⊢
  have hp := hne p (by simp)
  rw [List.pairwise_append] at hapart
  have hbefore : before.filter (·.span = p.span) = [] := by
    refine List.filter_eq_nil_iff.2 fun q hq hsame => ?_
    have := hapart.2.2 q hq p (by simp)
    rw [of_decide_eq_true hsame] at this
    omega
  have hafter : after.filter (·.span = p.span) = [] := by
    refine List.filter_eq_nil_iff.2 fun q hq hsame => ?_
    have := (List.pairwise_cons.1 hapart.2.1).1 q hq
    rw [of_decide_eq_true hsame] at this
    omega
  rw [List.filter_append, hbefore, List.filter_cons_of_pos (by simp), hafter, List.nil_append]

/-- The edits for the selected properties are found by going through all of them. -/
theorem flatMap_ite_eq (selected : Property → Bool) (edits : Property → List TextEdit)
    (ps : List Property) :
    ps.flatMap (fun q => if selected q then edits q else []) = (ps.filter selected).flatMap edits := by
  induction ps with
  | nil => rfl
  | cons q ps ih => cases h : selected q <;> simp [h, ih]

/-- The text after a fix has no errors, and what is read from it is the tree with the type named at the
    place of the property. -/
theorem CodeFix.erase_parse_apply {d : Diagnostic} {fix : CodeFix} (hclean : (Source.parse text).errors = [])
    (hfix : Fix.fix? (Source.parse text) d = some fix) :
    ∃ p, (Source.parse text).unit.propertyAt? d.span.start = some p ∧
      (Source.parse (fix.apply text)).errors = [] ∧
      erase (Source.parse (fix.apply text)).unit = erase ((Source.parse text).unit.nameTypeAt p.span
        (d.property? isReferenceKey = some "true")) := by
  unfold Fix.fix? at hfix
  split at hfix
  case isFalse => cases hfix
  obtain ⟨p, hp, hedits⟩ := exists_of_fix?_eq_some hfix
  have hmem := List.mem_of_find?_eq_some hp
  -- The edits of the fix are those of all properties at the place.
  have hren := renames_nameType (Source.parse text) (Source.proper_of_clean hclean)
    (fun q => q.span = p.span) (fun _ => d.property? isReferenceKey = some "true")
  have hall : (Source.parse text).unit.allProperties.flatMap _ = fix.edits :=
    (flatMap_ite_eq (fun q => q.span = p.span) _ _).trans (by
      rw [Source.filter_span_eq hmem, List.flatMap_singleton, hedits])
  obtain ⟨text', happlied, hclean', htree⟩ := Source.exists_rewritten hclean hren
  have htext : fix.apply text = text' := by
    rw [CodeFix.apply, ← hall, happlied, String.ofList_toList]
  rw [htext]
  refine ⟨p, hp, hclean', ?_⟩
  simpa [SourceUnit.nameTypeAt] using htree

end

/-- The edits of a fix refine the change of the tree. In a text without errors the fix leaves none, so
    it is applied. What is read from the new text is the old tree with the type named in the binding
    attributes of the one property that the diagnostic is about, and nothing else is different but the
    places. -/
theorem CodeFix.parse_apply (text : String) (d : Diagnostic) (fix : CodeFix)
    (hclean : (Source.parse text).errors = []) (hfix : Fix.fix? (Source.parse text) d = some fix) :
    (Source.parse (fix.apply text)).errors = [] ∧
      Fix.synthesize (Source.parse text) d = Source.parse (fix.apply text) ∧
      ∃ p, (Source.parse text).unit.propertyAt? d.span.start = some p ∧
        (Source.parse text).unit.properties.filter (·.span = p.span) = [p] ∧
        erase (Source.parse (fix.apply text)).unit = erase ((Source.parse text).unit.nameTypeAt p.span
          (d.property? isReferenceKey = some "true")) := by
  obtain ⟨p, hp, hclean', htree⟩ := CodeFix.erase_parse_apply hclean hfix
  refine ⟨hclean', ?_, p, hp, ?_, htree⟩
  · have hkept : ¬ (Source.parse text).errors.length
        < (Source.parse (fix.apply (Source.parse text).text)).errors.length := by
      rw [show (Source.parse text).text = text from rfl, hclean']
      exact Nat.not_lt_zero _
    rw [Fix.synthesize, hfix]
    exact if_neg hkept
  · have hperm := (Source.parse text).unit.perm_allProperties.filter (·.span = p.span)
    rw [Source.filter_span_eq (List.mem_of_find?_eq_some hp)] at hperm
    exact List.perm_singleton.1 hperm

/-- A type without its question mark is named before an argument that is set, and in an attribute
    without arguments. -/
theorem CodeFix.parse_apply_nullable :
    let text := "class C \x7b [CommandOption(\"x\", Hidden = true), CommandArgument] Uri? P \x7b get; \x7d \x7d"
    let d : Diagnostic :=
      ⟨"Spectre1050", .warning, "", ⟨69, 70⟩, [], TextMap.empty.insert isReferenceKey "true", none⟩
    let fix : CodeFix :=
      ⟨TypeArgumentFix.title, TypeArgumentFix.key,
        [.insertion 30 "typeof(Uri), ", .insertion 61 "(typeof(Uri))"]⟩
    ((Source.parse text).errors = [] ∧ Fix.fix? (Source.parse text) d = some fix) ∧
      (Source.parse (fix.apply text)).errors = [] ∧
      ∃ p, (Source.parse text).unit.propertyAt? 69 = some p ∧
        erase (Source.parse (fix.apply text)).unit
          = erase ((Source.parse text).unit.nameTypeAt p.span true) := by
  intro text d fix
  have hclean : (Source.parse text).errors = [] := by decide +kernel
  have hfix : Fix.fix? (Source.parse text) d = some fix := by decide +kernel
  obtain ⟨hclean', -, p, hp, -, htree⟩ := CodeFix.parse_apply text d fix hclean hfix
  exact ⟨⟨hclean, hfix⟩, hclean', p, hp, htree⟩

end SettingsLint
