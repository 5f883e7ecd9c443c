import SettingsLint.Proofs.Fix.MemberPlans
import SettingsLint.Proofs.Reading.DeclarationParts

/-! # Naming the type in the text: types

The header of a type is kept, up to the brace that opens its body or the semicolon that
stands for one, and so is what closes it. In between its members are planned. Types may be
nested as deep as the limit allows, so the plans are made by induction on the levels that
are left.
-/

set_option synthInstance.maxSize 1024

namespace SettingsLint

open Read
open Owner (owned change)
open Placed (erase)

/-! ## Bodies -/

section

variable {nestedType : TypeReader}
  [∀ first attributes mods, Forward (nestedType first attributes mods)]
  {kind : DeclarationKind} {typeName : String} {E : Property → List TextEdit}
  {W : Property → Property} {text : String} {s : Cursor}

/-- A token that is read is kept. -/
theorem exists_keep_advance (σ : Sight) (hs : EndsInEof s.tokens) (hk : s.kind ≠ .eof)
    (hclean : s.errors = []) :
    (Plan.keep [s.current]).Rewrites σ advance s (advance s).2 [] s.span := by
  have hnext := tokens_advance hk hs
  obtain ⟨u, hu, hkeep⟩ := exists_keep σ (r := advance) hs ((errors_advance s).trans hclean)
  obtain rfl : u = [s.current] := by
    rw [hnext] at hu
    have hsame : [s.current] ++ s.ahead = u ++ s.ahead := hu
    exact (List.append_cancel_right hsame).symm
  exact hkeep advance fun v' s' _ _ => inferInstance

section

variable (hren : Renames text E W) (hnested : TypePlans text E W nestedType)
  (htakes : ∀ first attributes mods, Takes (nestedType first attributes mods))
  (hs : s.LexedFrom text)

include hren hnested htakes hs

theorem planned_typeItems : Planned .near E W (typeItems nestedType kind typeName) s := by
  unfold typeItems
  by_cases henum : kind = .enumDecl
  · simp only [if_pos henum]
    exact .keep hs.lexed.endsInEof (fun _ _ _ => inferInstance) rfl rfl
  · simp only [if_neg henum]
    exact planned_members hren hnested htakes hs

/-- Between its braces a type has its members, and the braces are kept. -/
theorem exists_plan_braces (hk : s.kind = .leftBrace)
    (hclean : (typeBody nestedType kind typeName s).2.errors = []) :
    ∃ ρ : Plan, (Plan.keep [s.current] ++ ρ).Names .near E W (typeBody nestedType kind typeName)
      (typeBody nestedType kind typeName) s := by
  unfold Plan.Names
  rw [typeBody_of_brace _ _ _ hk, bind_apply, bind_apply] at hclean ⊢
  set t := (advance s).2
  set items := (typeItems nestedType kind typeName t).1
  set t₁ := (typeItems nestedType kind typeName t).2
  have hopen : s.Reaches t := Cursor.Reaches.advance s
  have hinside : t.Reaches t₁ := Forward.reaches _
  have hclean₁ : t₁.errors = [] := (Forward.reaches _).clean hclean
  have hbrace : t₁.kind = .rightBrace := kind_of_closeBody_clean hclean
  rw [closeBody_of_brace hbrace]
  obtain ⟨π, hπ⟩ := planned_typeItems hren hnested htakes (hopen.lexedFrom hs) hclean₁
  have hfirst := exists_keep_advance .near hs.lexed.endsInEof (hk ▸ by decide)
    ((hopen.trans hinside).clean hclean₁)
  have hlast := exists_keep_advance .near ((hopen.trans hinside).lexed hs.lexed).endsInEof
    (hbrace ▸ by decide) hclean₁
  -- What closes the body gives the members back.
  have hplan := hfirst.bind fun opening _ => hπ.bind (f := closeBody opening)
    fun items' hitems =>
      (hlast.map fun _ _ => hitems).congr_meets fun s' _ hmeet =>
        closeBody_of_brace (hmeet.kind_eq.trans hbrace)
  rw [List.append_nil] at hplan
  exact ⟨_, hplan.congr_meets fun s' _ hmeet => typeBody_of_brace _ _ _ (hmeet.kind_eq.trans hk)⟩

/-- A body in braces, or none before a semicolon. -/
theorem exists_plan_typeBody
    (hclean : (typeBody nestedType kind typeName s).2.errors = []) :
    ∃ (u : List Token) (ρ : Plan), (u ≠ [] ∨ s.kind = .semicolon ∧ ρ = []) ∧
      (Plan.keep u ++ ρ).Names .near E W (typeBody nestedType kind typeName)
        (typeBody nestedType kind typeName) s := by
  rcases kind_of_typeBody_clean hclean with hk | hk
  · obtain ⟨ρ, hρ⟩ := exists_plan_braces hren hnested htakes hs hk hclean
    exact ⟨[s.current], ρ, .inl (by simp), hρ⟩
  · unfold Plan.Names
    rw [typeBody_of_semicolon _ _ _ hk]
    have hstill : Plan.Rewrites [] .near (pure [] : Read (List Member)) s s [] [] :=
      .still fun _ => .pure rfl
    exact ⟨[], [], .inr ⟨hk, rfl⟩, hstill.congr_meets fun s' _ hmeet =>
      typeBody_of_semicolon _ _ _ (hmeet.kind_eq.trans hk)⟩

end

/-! ## Plans for types -/

namespace DeclarationHeader

variable (header : DeclarationHeader)

theorem erase_withSpan (span : Span) : erase { header with span := span } = erase header := by
  cases header
  rfl

theorem kind_erase : (erase header).kind = header.kind := by
  cases header
  rfl

theorem name_erase : (erase header).name.name = header.name.name := by
  cases header
  rfl

end DeclarationHeader

/-- A type declaration after its header. -/
def Read.typeAfter (nestedType : TypeReader) (first : Span) (header : DeclarationHeader) :
    Read (Option TypeDeclaration) := do
  let items ← typeBody nestedType header.kind header.name.name
  let _ ← eat .semicolon
  return some (.mk { header with span := ← spanFrom first } items)

instance (first : Span) (header : DeclarationHeader) :
    Forward (typeAfter nestedType first header) := by
  unfold typeAfter
  infer_instance

omit [∀ first attributes mods, Forward (nestedType first attributes mods)] in
theorem Read.typeRest_eq (first : Span) (attributes : List AttributeList) (mods : List Ident) :
    typeRest nestedType first attributes mods = typeHeader first attributes mods >>= fun o =>
      o.elim (pure none) (typeAfter nestedType first) := by
  rw [typeRest]
  congr 1
  funext o
  cases o <;> rfl

/-- The semicolon that may stand after a type is kept. -/
theorem exists_keep_semicolon (hs : EndsInEof s.tokens) (hclean : s.errors = []) :
    ∃ u, (s.kind = .semicolon → u ≠ []) ∧ (Plan.keep u).Rewrites .near (eat .semicolon) s
      (eat .semicolon s).2 [] (eat .semicolon s).1 := by
  obtain ⟨u, hu, hkeep⟩ := exists_keep .near hs
    ((errors_eat _ s).trans hclean)
  refine ⟨u, fun hk hnil => ?_, hkeep _ fun v' s' _ _ => inferInstance⟩
  subst hnil
  have hlt := size_advance_lt (hk ▸ by decide) hs
  have hsame : s.tokens = (advance s).2.tokens := by
    rw [eat_of_eq hk] at hu
    exact hu
  have hlength := congrArg List.length hsame
  simp only [Cursor.tokens, List.length_cons, Cursor.size] at hlength hlt
  change _ = s.advance.ahead.length + 1 at hlength
  omega

section

variable (hren : Renames text E W) (hnested : TypePlans text E W nestedType)
  (htakes : ∀ first attributes mods, Takes (nestedType first attributes mods))
  (hs : s.LexedFrom text)

include hren hnested htakes hs

/-- A type after its header starts with a token that is kept. -/
theorem exists_plan_typeAfter {first : Span} {header : DeclarationHeader}
    (hclean : (typeAfter nestedType first header s).2.errors = []) :
    ∃ (u : List Token) (ρ : Plan), u ≠ [] ∧ ∀ first' header', erase header' = erase header →
      (Plan.keep u ++ ρ).Names .near E W (typeAfter nestedType first header)
        (typeAfter nestedType first' header') s := by
  set r := typeBody nestedType header.kind header.name.name with hr
  have hreach := Forward.reaches (r := r) s
  have hclean₁ : (r s).2.errors = [] :=
    (Forward.reaches (r := do
      let _ ← eat .semicolon
      return some (TypeDeclaration.mk { header with span := ← spanFrom first } (r s).1))
      (r s).2).clean hclean
  obtain ⟨u, ρ, hstart, hbody⟩ := exists_plan_typeBody hren hnested htakes hs hclean₁
  obtain ⟨w, hw, hend⟩ := exists_keep_semicolon (hreach.lexed hs.lexed).endsInEof hclean₁
  have howned : owned (typeAfter nestedType first header s).1 = owned (r s).1 :=
    (List.append_nil _).trans (Member.allPropertiesIn_eq _)
  have hplan (first' : Span) (header' : DeclarationHeader) (hheader : erase header' = erase header) :
      (Plan.keep u ++ ρ ++ Plan.keep w).Names .near E W (typeAfter nestedType first header)
        (typeAfter nestedType first' header') s := by
    -- The body hangs on the kind and the name of the type, which are the same without places.
    have hsame : typeBody nestedType header'.kind header'.name.name = r := by
      rw [← header'.kind_erase, ← header'.name_erase, hheader, header.kind_erase, header.name_erase]
    have hmake {items : List Member} (hitems : erase items = erase (change W (r s).1))
        (w : List TokenKind) :
        Reads (do return some (.mk { header' with span := ← spanFrom first' } items))
          (eat .semicolon (r s).2).2.depth w w
          (change W (typeAfter nestedType first header s).1) := by
      refine (Reads.spanFrom first' default).bind fun whole _ => .pure ?_
      have hchange : change W (typeAfter nestedType first header s).1 = some (.mk
          { header with span := (eat .semicolon (r s).2).2.spanFrom first } (change W (r s).1)) :=
        congrArg (some ∘ TypeDeclaration.mk _) (Member.mapPropertiesIn_eq W _)
      rw [hchange, erase_some, erase_some, erase_declaration, erase_declaration,
        header'.erase_withSpan, header.erase_withSpan, hheader, hitems]
    have hall := hbody.bind fun items hitems => hend.bind (ρ := []) fun _ _ => .still (hmake hitems)
    rw [List.append_nil, List.append_nil, List.append_nil, ← howned] at hall
    exact hall.congr fun _ s' _ _ => by rw [typeAfter, hsame]
  rcases hstart with hne | ⟨hk, rfl⟩
  · exact ⟨u, ρ ++ Plan.keep w, hne, fun first' header' h => List.append_assoc _ ρ _ ▸ hplan first' header' h⟩
  · -- Without a body the semicolon is the first token.
    have hstay : (r s).2 = s := by rw [hr, typeBody_of_semicolon _ _ _ hk]
    have hkept : Plan.keep (u ++ w) ++ [] = Plan.keep u ++ [] ++ Plan.keep w := by
      simp [Plan.keep_append]
    refine ⟨u ++ w, [], ?_, hkept ▸ hplan⟩
    exact List.append_ne_nil_of_right_ne_nil _ (hw (by rw [hstay]; exact hk))

/-- A type after its attributes and modifiers. -/
theorem exists_plan_typeRest {first : Span} {attributes : List AttributeList} {mods : List Ident}
    (hclean : (typeRest nestedType first attributes mods s).2.errors = []) :
    ∃ (u : List Token) (ρ : Plan), 3 ≤ u.length ∧ ∀ first' attributes' mods',
      erase attributes' = erase attributes → erase mods' = erase mods →
      (Plan.keep u ++ ρ).Names .near E W (typeRest nestedType first attributes mods)
        (typeRest nestedType first' attributes' mods') s := by
  set r := typeHeader first attributes mods
  have hreach := Forward.reaches (r := r) s
  have hclean₁ : (r s).2.errors = [] := by
    rw [typeRest_eq] at hclean
    exact clean_of_bind hclean
  obtain ⟨header, hheader, hsize⟩ := exists_typeHeader hs.lexed.endsInEof hclean₁
  have hsame : typeRest nestedType first attributes mods s =
      typeAfter nestedType first header (r s).2 := by
    rw [typeRest_eq, bind_apply, hheader, Option.elim_some]
  unfold Plan.Names
  rw [hsame] at hclean ⊢
  obtain ⟨u, hu, hkeep⟩ := exists_keep .near hs.lexed.endsInEof hclean₁
  obtain ⟨w, ρ, hw, hrest⟩ :=
    exists_plan_typeAfter hren hnested htakes (hreach.lexedFrom hs) hclean
  refine ⟨u ++ w, ρ, ?_, fun first' attributes' mods' hattributes hmods => ?_⟩
  · have hsize : (r s).2.size + 2 ≤ s.size := hsize
    have hlength := congrArg List.length hu
    have hpos := List.length_pos_of_ne_nil hw
    simp only [Cursor.tokens, List.length_cons, List.length_append, Cursor.size] at hlength hsize ⊢
    omega
  · have := Alike.of_erased hattributes
    have := Alike.of_erased hmods
    have hkept := hkeep (typeHeader first' attributes' mods') fun v' s' _ _ =>
      inferInstanceAs (Replays _ _ (typeHeader first attributes mods) _ _ _)
    rw [Plan.keep_append, List.append_assoc, ← List.nil_append (List.flatMap E _)]
    refine hkept.bind fun o ho => ?_
    rw [hheader] at ho
    obtain ⟨header', rfl, hheader'⟩ := erase_eq_some_iff.1 ho
    exact hrest first' header' hheader'

end

end

/-! ## All levels -/

/-- For types there are plans, however deep they are nested. -/
theorem typePlans_typeRestWithin {text : String} {E : Property → List TextEdit}
    {W : Property → Property} (hren : Renames text E W) (levels : Nat) :
    TypePlans text E W (typeRestWithin levels) := by
  induction levels with
  | zero =>
    intro first attributes mods s _ hclean
    exact absurd hclean (refuse_ne_clean skippedDeclaration s)
  | succ levels ih =>
    intro first attributes mods s hs hclean
    unfold Plan.Names
    rcases Nat.lt_or_ge s.depth maxNesting with shallow | deep
    · have hrun : nested (typeRest (typeRestWithin levels) first attributes mods)
          skippedDeclaration s = _ := nested_of_lt shallow
      rw [typeRestWithin, hrun] at hclean ⊢
      obtain ⟨u, ρ, hu, hplan⟩ := exists_plan_typeRest (s := { s with depth := s.depth + 1 }) hren ih
        (takes_typeRestWithin levels) hs hclean
      exact ⟨u, ρ, hu, fun first' attributes' mods' hattributes hmods =>
        (hplan first' attributes' mods' hattributes hmods).nested shallow⟩
    · rw [typeRestWithin, nested_of_le deep] at hclean
      exact absurd hclean (refuse_ne_clean skippedDeclaration s)

end SettingsLint
