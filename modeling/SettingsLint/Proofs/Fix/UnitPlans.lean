import SettingsLint.Proofs.Fix.TypePlans
import SettingsLint.Proofs.Reading.Balance

/-! # Naming the type in the text: units

All tokens of a unit are kept but for those in its types. Items are told apart by their first three
tokens, so three tokens after an item look the same (`Sight.far`). What tells a type declaration from
a statement stands after attributes and modifiers, which are kept as well. Namespaces may be nested as
deep as the limit allows, so the plans are made by induction on the levels that are left.
-/

set_option synthInstance.maxSize 1024

namespace SettingsLint

open Read
open Owner (owned change)
open Placed (erase)

section

variable {E : Property → List TextEdit} {W : Property → Property} {text : String} {s : Cursor}

/-! ## Items without types -/

/-- An item that is read again is kept. -/
theorem Planned.keep_item [Placed α] {q : Read α} [Forward q] (f : α → Option UnitItem)
    (hs : EndsInEof s.tokens)
    (hreplays : ∀ v' s', Agree (q s).2.tokens v' → Replays (q s).2.tokens v' q q s s')
    (hf : ∀ a', erase a' = erase (q s).1 → erase (f a') = erase (f (q s).1))
    (hnone : owned (f (q s).1) = []) (hsame : change W (f (q s).1) = f (q s).1) :
    Planned .far E W (f <$> q) s := by
  intro hclean
  obtain ⟨u, -, hkeep⟩ := exists_keep .far (r := q) hs hclean
  refine ⟨Plan.keep u, ?_⟩
  rw [Plan.Names, map_apply, hnone, hsame]
  exact (hkeep q fun v' s' hv _ => hreplays v' s' hv).map hf

/-! ## Namespaces -/

namespace Read

/-- The end of a namespace whose items end at `stop`. -/
def scopeClose (stop : Nat) (name : List Ident) (first : Span) (items : List UnitItem) :
    Read (Option UnitItem) := do
  if (← expect .rightBrace "`\x7d`").isNone then report (.unclosed '\x7b') first
  let _ ← eat .semicolon
  let whole ← spanFrom first
  return some (.member (.scope ⟨name, false, (UnitItem.assemble stop items).1, whole⟩
    (UnitItem.assemble stop items).2))

theorem scopeEnd_eq (name : List Ident) (first : Span) (items : List UnitItem) :
    scopeEnd name first items = (get >>= fun s => scopeClose s.previousStop name first items) := rfl

variable {stop : Nat} {name : List Ident} {first : Span} {items : List UnitItem}
  {block : Read (Option (List UnitItem))} {s : Cursor}

instance : Forward (scopeClose stop name first items) := by
  unfold scopeClose
  infer_instance

theorem scopeClose_of_brace (hk : s.kind = .rightBrace) :
    scopeClose stop name first items s = ((advance >>= fun _ => eat .semicolon) >>= fun _ => do
      return some (.member (.scope
        ⟨name, false, (UnitItem.assemble stop items).1, ← spanFrom first⟩
        (UnitItem.assemble stop items).2))) s := by
  rw [scopeClose, bind_apply, expect_of_eq hk]
  rfl

/-- What is expected is there if nothing is reported. -/
theorem kind_of_expect_clean {kind : TokenKind} {what : String} {f : Option Span → Read α}
    [∀ o, Forward (f o)] (hclean : ((expect kind what >>= f) s).2.errors = []) : s.kind = kind := by
  by_contra hk
  rw [bind_apply, expect_of_ne hk] at hclean
  exact errors_ne_nil_of_report _ _ hclean

theorem kind_of_scopeClose_clean (hclean : (scopeClose stop name first items s).2.errors = []) :
    s.kind = .rightBrace := by
  exact kind_of_expect_clean hclean

theorem scopeRest_of_semicolon (hk : s.kind = .semicolon) :
    scopeRest block name first s = ((fun _ => some (.fileScope name first)) <$> advance) s := by
  rw [scopeRest, bind_apply, eat_of_eq hk]
  rfl

/-- Without a semicolon a block is expected. -/
theorem scopeRest_of_ne (hk : s.kind ≠ .semicolon) :
    scopeRest block name first s = (expect .leftBrace "`\x7b` or `;`" >>= fun o =>
      if o.isNone then recoverMember >>= fun _ => pure none else scopeBlock block name first) s := by
  rw [scopeRest, bind_apply, eat_of_ne hk]
  rfl

theorem scopeRest_of_brace (hk : s.kind = .leftBrace) :
    scopeRest block name first s = (advance >>= fun _ => scopeBlock block name first) s := by
  rw [scopeRest_of_ne (by rw [hk]; decide), bind_apply, expect_of_eq hk]
  rfl

theorem kind_of_scopeRest_clean [Forward block]
    (hclean : (scopeRest block name first s).2.errors = []) :
    s.kind = .semicolon ∨ s.kind = .leftBrace := by
  by_cases hk : s.kind = .semicolon
  · exact .inl hk
  · rw [scopeRest_of_ne hk] at hclean
    exact .inr (kind_of_expect_clean hclean)

end Read

theorem owned_scopeClose {stop : Nat} {name : List Ident} {first : Span} {items : List UnitItem}
    (hk : s.kind = .rightBrace) : owned (scopeClose stop name first items s).1 = owned items := by
  rw [scopeClose_of_brace hk]
  exact (List.append_nil _).trans (UnitItem.allPropertiesIn_assemble stop items)

/-- A namespace of items that are alike is alike. -/
theorem UnitItem.erase_scope_assemble {name name' : List Ident} {items items' : List UnitItem}
    (hname : erase name' = erase name) (hitems : erase items' = erase (change W items))
    (stop stop' : Nat) (whole whole' : Span) :
    erase (UnitItem.member (.scope ⟨name', false, (assemble stop' items').1, whole'⟩
        (assemble stop' items').2)) =
      erase (change W (UnitItem.member (.scope ⟨name, false, (assemble stop items).1, whole⟩
        (assemble stop items).2))) := by
  have hassemble := (UnitItem.erase_assemble hitems stop' stop).trans
    (congrArg erase (UnitItem.assemble_map W stop items))
  have husings : erase (assemble stop' items').1 = erase (assemble stop items).1 :=
    congrArg Prod.fst hassemble
  have hmembers : erase (assemble stop' items').2 =
      erase (UnitMember.mapPropertiesIn W (assemble stop items).2) := congrArg Prod.snd hassemble
  have hscope : erase (UnitMember.scope ⟨name', false, (assemble stop' items').1, whole'⟩
      (assemble stop' items').2) = erase (UnitMember.scope ⟨name, false, (assemble stop items).1, whole⟩
        (UnitMember.mapPropertiesIn W (assemble stop items).2)) := by
    rw [erase_scope, erase_scope, erase_namespaceHeader, erase_namespaceHeader, hname, husings, hmembers]
  exact congrArg UnitItem.member hscope

/-- For what the reader of a block reads there is a plan that names the types of the properties
    in it. -/
def BlockPlans (text : String) (E : Property → List TextEdit) (W : Property → Property)
    (block : Read (Option (List UnitItem))) : Prop :=
  ∀ s : Cursor, s.LexedFrom text → (block s).2.errors = [] →
    ∃ (π : Plan) (items : List UnitItem), (block s).1 = some items ∧
      π.Rewrites .far block s (block s).2 ((owned items).flatMap E) (some (change W items))

section

variable {block : Read (Option (List UnitItem))} {name : List Ident} {first : Span}

/-- The brace that closes a namespace and the semicolon that may stand after it. -/
theorem exists_plan_scopeEnd {items : List UnitItem} (hs : EndsInEof s.tokens)
    (hclean : (scopeEnd name first items s).2.errors = []) :
    ∃ π : Plan, ∀ name' first' items', erase name' = erase name →
      erase items' = erase (change W items) →
      π.Rewrites .far (scopeEnd name' first' items') s (scopeEnd name first items s).2 []
        (change W (scopeEnd name first items s).1) := by
  have hrun : scopeEnd name first items s = scopeClose s.previousStop name first items s := rfl
  rw [hrun] at hclean ⊢
  have hk := kind_of_scopeClose_clean hclean
  rw [scopeClose_of_brace hk] at hclean ⊢
  obtain ⟨u, -, hkeep⟩ := exists_keep .far (r := advance >>= fun _ => eat .semicolon) hs hclean
  have hclose := hkeep (advance >>= fun _ => eat .semicolon) fun v' s' _ _ => inferInstance
  refine ⟨Plan.keep u ++ [], fun name' first' items' hname hitems => ?_⟩
  refine .get fun c => (hclose.bind fun _ _ => .still fun w => ?_).congr_meets fun s' _ hmeet =>
    scopeClose_of_brace (hmeet.kind_eq.trans hk)
  refine (Reads.spanFrom first' default).bind fun whole _ => .pure (congrArg some ?_)
  exact UnitItem.erase_scope_assemble hname hitems _ _ _ _

variable [Forward block] (hblock : BlockPlans text E W block) (hs : s.LexedFrom text)

include hblock hs

/-- A namespace with its items in braces, after the opening one. -/
theorem exists_plan_scopeBlock (hclean : (scopeBlock block name first s).2.errors = []) :
    ∃ π : Plan, ∀ name' first', erase name' = erase name → π.Names .far E W
      (scopeBlock block name first) (scopeBlock block name' first') s := by
  have hrun (name : List Ident) (first : Span) : scopeBlock block name first =
      block >>= fun o => o.elim (pure none) (scopeEnd name first) := by
    rw [scopeBlock]
    congr 1
    funext o
    cases o <;> rfl
  unfold Plan.Names
  simp only [hrun] at hclean ⊢
  have hclean₁ := clean_of_bind hclean
  obtain ⟨π, items, hitems, hπ⟩ := hblock s hs hclean₁
  rw [bind_apply, hitems, Option.elim_some] at hclean ⊢
  obtain ⟨ρ, hρ⟩ := exists_plan_scopeEnd ((Forward.reaches s).lexed hs.lexed).endsInEof
    hclean
  have hedits : (owned (scopeEnd name first items (block s).2).1).flatMap E =
      (owned items).flatMap E ++ [] := by
    rw [List.append_nil, ← owned_scopeClose (kind_of_scopeClose_clean hclean)]
    rfl
  rw [hedits]
  refine ⟨π ++ ρ, fun name' first' hname => hπ.bind fun o ho => ?_⟩
  obtain ⟨items', rfl, hitems'⟩ := erase_eq_some_iff.1 ho
  exact hρ name' first' items' hname hitems'

/-- A namespace after its name. -/
theorem exists_plan_scopeRest (hclean : (scopeRest block name first s).2.errors = []) :
    ∃ π : Plan, ∀ name' first', erase name' = erase name → π.Names .far E W
      (scopeRest block name first) (scopeRest block name' first') s := by
  unfold Plan.Names
  have hends := hs.lexed.endsInEof
  have hstart : s.errors = [] := (Forward.reaches _).clean hclean
  rcases kind_of_scopeRest_clean hclean with hk | hk
  · rw [scopeRest_of_semicolon hk]
    refine ⟨_, fun name' first' hname =>
      ((exists_keep_advance .far hends (hk ▸ by decide) hstart).map fun _ _ => ?_).congr_meets
        fun s' _ hmeet => scopeRest_of_semicolon (hmeet.kind_eq.trans hk)⟩
    exact congrArg (fun name => some (UnitItem.fileScope name default)) hname
  · have hopen := Cursor.Reaches.advance s
    rw [scopeRest_of_brace hk] at hclean ⊢
    obtain ⟨ρ, hρ⟩ := exists_plan_scopeBlock hblock (hopen.lexedFrom hs) hclean
    refine ⟨_, fun name' first' hname =>
      ((exists_keep_advance .far hends (hk ▸ by decide) hstart).bind fun _ _ =>
        hρ name' first' hname).congr_meets fun s' _ hmeet =>
          scopeRest_of_brace (hmeet.kind_eq.trans hk)⟩

/-- A namespace. -/
theorem planned_namespaceItem (hk : s.kind ≠ .eof) :
    Planned .far E W (namespaceItem block) s := by
  have hrun : namespaceItem block = advance >>= fun first => namespaceName >>= fun o =>
      o.elim (pure none) fun name => scopeRest block name first := by
    rw [namespaceItem_eq]
    unfold scopeAfter
    congr 1
    funext first
    congr 1
    funext o
    cases o <;> rfl
  rw [hrun]
  intro hclean
  unfold Plan.Names
  rw [bind_apply, bind_apply] at hclean ⊢
  set t := (advance s).2
  have hopen : s.Reaches t := Cursor.Reaches.advance s
  have hname := Forward.reaches (r := namespaceName) t
  have hclean₁ : (namespaceName t).2.errors = [] := (Forward.reaches _).clean hclean
  have hfirst := exists_keep_advance .far hs.lexed.endsInEof hk ((hopen.trans hname).clean hclean₁)
  obtain ⟨u, -, hkeep⟩ := exists_keep .far
    (hopen.lexed hs.lexed).endsInEof hclean₁
  have hnames := hkeep namespaceName fun v' s' _ _ => inferInstance
  cases hresult : (namespaceName t).1 with
  | none =>
    rw [hresult] at hnames
    refine ⟨_, hfirst.bind fun first _ => hnames.bind (ρ := []) fun o ho => ?_⟩
    obtain rfl : o = none := by
      cases o with
      | none => rfl
      | some name => cases ho
    exact .still fun _ => .pure rfl
  | some name =>
    rw [hresult] at hclean hnames
    obtain ⟨ρ, hρ⟩ := exists_plan_scopeRest hblock ((hopen.trans hname).lexedFrom hs) hclean
    refine ⟨_, hfirst.bind fun first _ => hnames.bind (ρ := ρ) fun o ho => ?_⟩
    obtain ⟨name', rfl, hname'⟩ := erase_eq_some_iff.1 ho
    exact hρ name' first hname'

end

/-! ## Types and statements -/

namespace Read

/-- What stands before a type is a part of the statement that is skipped. -/
theorem skipHead_reaches_skipStatement (hs : EndsInEof s.tokens) :
    (skipHead s).2.Reaches (skipStatement s).2 := by
  have hpart : (skipHead s).2.Reaches (statementPart s s).2 := by
    rw [statementPart]
    by_cases hk : s.kind = .leftBrace
    · have hlists : whileDo (·.kind = .leftBracket) skipGroupOrToken s = ((), s) := by
        rw [whileDo_eq, if_neg (by simp [hk])]
      have hhead : (skipHead s).2 = s := by
        rw [skipHead, bind_apply, hlists, whileDo_eq,
          if_neg (by simp [hk, TokenKind.isOneOf, TokenKind.name?])]
      rw [hhead]
      exact Forward.reaches s
    · rw [if_neg hk, ← skipThroughSemicolon_skipHead hs]
      exact Forward.reaches _
  rw [skipStatement_eq]
  split
  · exact hpart.trans (Cursor.Reaches.advance _)
  · exact hpart

/-- Attributes and modifiers, and what the reader reads after them. -/
def headed (rest : TypeReader) : Read (Option TypeDeclaration) :=
  memberHead >>= fun head => rest head.1 head.2.1 head.2.2

theorem typeDeclaration_eq : typeDeclaration = headed (typeRestWithin maxNesting) := rfl

theorem codeItem_of_type (h : s.atTypeDeclaration = true) :
    codeItem s = ((fun o => o.map fun d => .member (.type d)) <$> typeDeclaration) s := by
  rw [codeItem, get_bind, if_pos h]
  rfl

theorem codeItem_of_statement (h : s.atTypeDeclaration = false) :
    codeItem s = ((fun _ => none) <$> skipStatement) s := by
  rw [codeItem, get_bind, if_neg (by rw [h]; decide)]
  rfl

end Read

instance {v v' : List Token} [Agree v v'] {s' : Cursor} : Replays v v' skipHead skipHead s s' := by
  unfold skipHead
  infer_instance

section

variable (hs : s.LexedFrom text)
include hs

/-- A statement is kept, and does not turn into a type declaration. -/
theorem planned_statement (htype : s.atTypeDeclaration = false) : Planned .far E W codeItem s := by
  intro hclean
  have hlexed := hs.lexed
  unfold Plan.Names
  rw [codeItem_of_statement htype] at hclean ⊢
  have hrest := skipHead_reaches_skipStatement hlexed.endsInEof
  have hclean₁ := hrest.clean hclean
  obtain ⟨u, hu, hkeep⟩ := exists_keep .far (r := skipStatement) hlexed.endsInEof hclean
  obtain ⟨w, hw, hhead⟩ := exists_keep .far hlexed.endsInEof hclean₁
  have hplan := (hkeep skipStatement fun v' s' _ _ => inferInstance).map
    (f := fun _ => (none : Option UnitItem)) fun _ _ => rfl
  refine ⟨_, hplan.congr fun z s' hz hs' => codeItem_of_statement ?_⟩
  -- The attributes and modifiers in front of the statement are the same.
  obtain ⟨x, hx, -⟩ := hrest.read
  obtain rfl : u = w ++ x := by
    rw [hw, hx, ← List.append_assoc] at hu
    exact (List.append_cancel_right hu).symm
  have hz' : Meets .far (skipHead s).2.tokens (x.map (·.kind) ++ z) :=
    hx ▸ hz.append x (Cursor.tokens_ne_nil _)
  have hat := ((hhead skipHead fun v' s' _ _ => inferInstance).reads _ hz' s'
    (by simpa using hs')).1
  rw [atTypeDeclaration_skipHead hs'.lexed hat.clean,
    Meets.typeKeywordAt_eq (hat.kinds ▸ hz'),
    ← atTypeDeclaration_skipHead hlexed hclean₁, htype]

/-- After its attributes and modifiers a type declaration is planned, and it stays one. -/
theorem exists_plan_headed {rest : TypeReader}
    [∀ first attributes mods, Forward (rest first attributes mods)]
    (hplans : TypePlans text E W rest) (htype : s.atTypeDeclaration = true)
    (hclean : (headed rest s).2.errors = []) :
    ∃ π : Plan, π.Names .far E W (headed rest) (headed rest) s ∧
      ∀ w s', Meets .far (headed rest s).2.tokens w → At s.depth (π.kinds ++ w) s' →
        s'.atTypeDeclaration = true := by
  have hlexed := hs.lexed
  have hhead := Forward.reaches (r := memberHead) s
  set head := (memberHead s).1
  set t := (memberHead s).2
  have hclean₁ : t.errors = [] := (Forward.reaches t).clean hclean
  obtain ⟨u, -, hkeep⟩ := exists_keep .near hlexed.endsInEof hclean₁
  have hfirst := hkeep memberHead fun v' s' _ _ => inferInstance
  obtain ⟨w, ρ, hw, hrest⟩ := hplans head.1 head.2.1 head.2.2 t (hhead.lexedFrom hs) hclean
  have hplan := hfirst.bind fun head' hhead' =>
    hrest head'.1 head'.2.1 head'.2.2 (congrArg (·.2.1) hhead') (congrArg (·.2.2) hhead')
  have hkept : Plan.keep u ++ (Plan.keep w ++ ρ) = Plan.keep (u ++ w) ++ ρ := by
    rw [Plan.keep_append, List.append_assoc]
  rw [hkept] at hplan
  refine ⟨_, hplan.far (by simp only [List.length_append]; omega), fun z s' hz hs' => ?_⟩
  -- The keyword of the type stands after attributes and modifiers that are the same.
  have hz' := (hrest head.1 head.2.1 head.2.2 rfl rfl).leads z hz.near
  have hat := (hfirst.reads _ hz' s' (by simpa using hs')).1
  rw [atTypeDeclaration_memberHead hs'.lexed hat.clean,
    Meets.typeKeywordAt_eq (hat.kinds ▸ hz'),
    ← atTypeDeclaration_memberHead hlexed hclean₁, htype]

/-- A type declaration is planned, and stays one. -/
theorem planned_typeItem (hren : Renames text E W) (htype : s.atTypeDeclaration = true) :
    Planned .far E W codeItem s := by
  intro hclean
  unfold Plan.Names
  rw [codeItem_of_type htype, typeDeclaration_eq] at hclean ⊢
  obtain ⟨π, hπ, hstays⟩ := exists_plan_headed hs (typePlans_typeRestWithin hren maxNesting)
    htype hclean
  rw [map_apply]
  set o := (headed (typeRestWithin maxNesting) s).1
  have howned : owned (o.map fun d => UnitItem.member (.type d)) = owned o := by cases o <;> rfl
  rw [howned]
  refine ⟨π, (hπ.map fun o' ho' => ?_).congr
    fun w s' hw hs' => codeItem_of_type (hstays w s' hw hs')⟩
  have hcomm (o : Option TypeDeclaration) : change W (o.map fun d => UnitItem.member (.type d)) =
      (change W o).map fun d => UnitItem.member (.type d) := by cases o <;> rfl
  rw [hcomm]
  exact (Alike.of_erased ho').option rfl fun _ _ hd => congrArg (fun d => some (UnitItem.member (.type d))) hd.erased

/-! ## Items and blocks -/

omit hs in
/-- The first three tokens tell what an item is. -/
theorem Meets.unitForm_eq {s' : Cursor} (h : Meets .far s.tokens (s'.tokens.map (·.kind))) :
    s'.unitForm = s.unitForm := by
  have hkind := h.kind_eq
  have hone : s'.peek 1 = s.peek 1 := h.peek_eq (by simp [Sight.count])
  have htwo : s'.peek 2 = s.peek 2 := h.peek_eq (by simp [Sight.count])
  have hzero : s'.peek 0 = s.peek 0 := h.peek_eq (by simp [Sight.count])
  have husing : s'.atUsing = s.atUsing := by
    by_cases hglobal : s.kind.isWord "global" = true
    · simp [Cursor.atUsing, Cursor.atWord, hkind, hglobal, hone, htwo]
    · simp [Cursor.atUsing, Cursor.atWord, hkind, hglobal, hzero, hone]
  simp [Cursor.unitForm, Cursor.atWord, Cursor.atAssemblyAttribute, hkind, hone, htwo, husing]

section

variable {block : Read (Option (List UnitItem))} [Forward block] (hren : Renames text E W)
  (hblock : BlockPlans text E W block)

include hren hblock

/-- An item with the types of its properties named. -/
theorem planned_unitItem (hk : s.kind ≠ .eof) : Planned .far E W (unitItem block) s := by
  have hends := hs.lexed.endsInEof
  -- An item that has the form here has it among the new tokens.
  refine .congr ?_ hends fun s' _ hmeet =>
    (unitItem_eq block s').trans (by rw [hmeet.unitForm_eq])
  cases s.unitForm with
  | empty =>
    exact .keep_item (fun _ => none) hends (fun _ _ _ => inferInstance)
      (fun _ _ => rfl) rfl rfl
  | directive =>
    exact .keep_item (fun d => some (.using d)) hends
      (fun _ _ _ => inferInstance) (fun _ h => congrArg (some ∘ UnitItem.using) h) rfl rfl
  | «foreign» =>
    exact .keep_item (fun _ => none) hends
      (fun _ _ _ => inferInstance) (fun _ _ => rfl) rfl rfl
  | scope => exact planned_namespaceItem hblock hs hk
  | assembly =>
    exact .keep_item (fun _ => none) hends (fun _ _ _ => inferInstance)
      (fun _ _ => rfl) rfl rfl
  | code =>
    cases htype : s.atTypeDeclaration with
    | true => exact planned_typeItem hs hren htype
    | false => exact planned_statement hs htype

/-- The items are planned one after the other. -/
theorem planned_unitItems : Planned .far E W (unitItems block) s := by
  have hgoes {s : Cursor} (h : (!s.atEnd && s.kind ≠ .rightBrace) = true) : s.kind ≠ .eof := by
    intro heof
    simp [Cursor.atEnd, heof, TokenKind.isEof] at h
  refine planned_gatherWhile (fun s s' hmeet => ?_)
    (fun s hs hgo => size_unitItem_lt hs (hgoes hgo) block)
    (fun s hgo hs => planned_unitItem hs hren hblock (hgoes hgo)) hs
  rw [Cursor.atEnd, Cursor.atEnd, hmeet.kind_eq]

end

end

/-- For blocks there are plans, however deep they are nested. -/
theorem blockPlans_blockWithin (hren : Renames text E W) (levels : Nat) :
    BlockPlans text E W (blockWithin levels) := by
  induction levels with
  | zero =>
    intro s _ hclean
    exact absurd hclean (refuse_ne_clean skippedBlock s)
  | succ levels ih =>
    intro s hs hclean
    rcases Nat.lt_or_ge s.depth maxNesting with shallow | deep
    · have hrun : nested (some <$> unitItems (blockWithin levels)) skippedBlock s
          = _ := nested_of_lt shallow
      rw [blockWithin, hrun] at hclean ⊢
      obtain ⟨π, hπ⟩ := planned_unitItems (s := { s with depth := s.depth + 1 }) hs hren ih hclean
      exact ⟨π, _, rfl, (hπ.map fun _ => congrArg some).nested shallow⟩
    · rw [blockWithin, nested_of_le deep] at hclean
      exact absurd hclean (refuse_ne_clean skippedBlock s)

end

end SettingsLint
