import SettingsLint.Proofs.Fix.AttributePlans
import SettingsLint.Proofs.Fix.Rewriting
import SettingsLint.Proofs.Reading.MemberParts
import SettingsLint.Proofs.Reading.ReplayDeclarations
import SettingsLint.Proofs.Tree.Properties

/-! # Naming the type in the text: members

A property that is to be changed has new tokens in its attributes, and all others are
kept. All tokens of other members are kept, apart from those of nested types. So the plan
for a member is one for its attributes and modifiers, and one for what follows them.
-/

set_option synthInstance.maxSize 1024

namespace SettingsLint

open Read
open Owner (owned change)
open Placed (erase)
open TypeArgumentFix

/-! ## Members that are kept -/

theorem Meets.typeKeywordAt_eq {σ : Sight} {s s' : Cursor}
    (h : Meets σ s.tokens (s'.tokens.map (·.kind))) : s'.typeKeywordAt 0 = s.typeKeywordAt 0 := by
  simp only [Cursor.typeKeywordAt, Twin.peek_zero, h.kind_eq]
  by_cases hword : s.kind.isWord "record" = true
  · have hname : s.kind.name?.isSome = true := by
      rw [TokenKind.isWord, decide_eq_true_eq] at hword
      simp [hword]
    rw [h.peek_one hname]
  · simp [hword]

section

variable {v v' : List Token} {s s' : Cursor} [hv : Agree v v']

instance : Replays v v' memberHead memberHead s s' := by
  unfold memberHead
  infer_instance

include hv

theorem Replays.plainMember {typeName : String} {mods mods' : List Ident} [Alike mods mods']
    (ho : Ordered s.tokens) (ho' : Ordered s'.tokens) (first first' : Span) :
    Replays v v' (plainMember typeName first [] mods)
      (plainMember typeName first' [] mods') s s' := by
  refine .getAt fun twin => .ite ?_ inferInstance fun _ => .getAt fun _ => .ite ?_ inferInstance fun _ =>
    .bind inferInstance (typedMember ho ho') fun _ _ _ _ _ => inferInstance
  · simp only [Cursor.atWord, twin.kind]
  · simp only [Cursor.atWord, twin.kind, Bool.and_eq_true]
    refine and_congr_right fun hword => ?_
    rw [twin.peek_one_of_name (by rw [of_decide_eq_true hword]; rfl)]

end

/-! ## Properties that are changed -/

/-- The member with other attributes, if it is a property. -/
def Member.withAttributes (attributes : List AttributeList) : Member → Member
  | .property p => .property { p with attributes := attributes }
  | member => member

namespace Read

variable {first : Span} {attributes : List AttributeList} {mods : List Ident} {type : TypeExpr}
  {name : Ident} {s : Cursor}

theorem memberBody_eq : memberBody first attributes mods type name s =
    (Member.withAttributes attributes <$> memberBody first [] mods type name) s := by
  rw [map_apply, memberBody, memberBody, bind_apply, bind_apply]
  split <;> rfl

theorem namedMember_eq : namedMember first attributes mods type s =
    (Member.withAttributes attributes <$> namedMember first [] mods type) s := by
  rw [map_apply, namedMember, namedMember, bind_apply, bind_apply]
  cases (memberName s).1 with
  | none => rfl
  | some name => exact memberBody_eq

theorem memberRest_eq (attributes : List AttributeList) : memberRest first attributes mods type s =
    (Member.withAttributes attributes <$> memberRest first [] mods type) s := by
  rw [map_apply, memberRest, memberRest, bind_apply, bind_apply]
  split
  · rfl
  · split
    · rfl
    · split
      · rfl
      · exact namedMember_eq

/-- Whatever the attributes of a member are, the rest of it is read in the same way. -/
theorem plainMember_eq {typeName : String} : plainMember typeName first attributes mods s =
    (Option.map (Member.withAttributes attributes) <$> plainMember typeName first [] mods) s := by
  rw [map_apply, plainMember, plainMember, bind_apply, bind_apply]
  split
  · rfl
  · split
    · rfl
    · simp only [bind_apply, memberRest_eq attributes]
      rfl

end Read

/-- The changes `E` of the text and `W` of the tree belong together for the properties that are
    read from the tokens: a property without edits stays as it is, and in the attributes of the
    others the type is named. -/
def Renames (text : String) (E : Property → List TextEdit) (W : Property → Property) : Prop :=
  ∀ (s : Cursor) (p : Property), s.LexedFrom text → (typeExpr s).1 = p.type →
    (typeExpr s).2.errors = [] → (E p = [] → W p = p) ∧
      (E p ≠ [] → ∃ n : Naming, n.Valid s.depth ∧ E p = p.attributes.flatMap (listEdits n.text) ∧
        W p = { p with attributes := p.attributes.map (·.nameType n.type) })

/-- With attributes that are alike, members that are alike still are. -/
theorem Member.erase_withAttributes {m m' : Member} {attributes attributes' : List AttributeList}
    (h : erase m' = erase m) (ha : erase attributes' = erase attributes) :
    erase (m'.withAttributes attributes') = erase (m.withAttributes attributes) := by
  cases m with
  | property p =>
    cases m' with
    | property p' =>
      have hp : erase p' = erase p := Member.property.inj h
      cases p
      cases p'
      simp only [erase_property, Property.mk.injEq] at hp
      simp only [Member.withAttributes, erase_propertyMember, erase_property, ha, hp]
    | _ => cases h
  | _ =>
    cases m' with
    | property => cases h
    | _ => exact h

/-! ## Plans for the parts of a member -/

section

variable {typeName : String} {s : Cursor} {n : Naming}

/-- The attribute lists with the type named in them. -/
theorem exists_plan_lists (hs : s.Lexed) (hclean : (attributeLists s).2.errors = []) (hn : n.Valid s.depth)
    (hbracket : s.kind = .leftBracket) :
    ∃ π : Plan, π.Rewrites .near attributeLists s (attributeLists s).2
      ((attributeLists s).1.flatMap (listEdits n.text))
      ((attributeLists s).1.map (·.nameType n.type)) := by
  obtain ⟨π, hπ, hshape⟩ := exists_plan_attributeLists hs hclean hn .eof
  obtain ⟨hgreater, ρ, ks, rfl, hks⟩ := hshape hbracket
  refine ⟨_, hπ.old, (Forward.reaches s).depth, fun prev => ⟨trivial, hπ.fits.2⟩, hπ.edits,
    fun w _ => ?_, fun w hw => ?_⟩
  · -- The first two tokens are kept, and nobody looks further than that.
    have hnext := tokens_advance (hbracket ▸ by decide) hs.endsInEof
    obtain ⟨x, rest, hx⟩ :=
      List.exists_cons_of_ne_nil (hs.endsInEof.ahead_ne_nil (hbracket ▸ by decide))
    have hkind : (advance s).2.kind = x.kind := by
      rw [hx] at hnext
      exact congrArg Token.kind (List.cons.inj hnext).1
    have hlook : lookahead s.tokens = 2 := by
      rw [Cursor.tokens, hx, lookahead, if_neg (by rw [← Cursor.kind, hbracket]; decide)]
      simpa [hkind] using hgreater
    rw [Meets, Sight.count, hlook, Cursor.tokens, hx, Plan.kinds_cons, hks, hkind]
    rfl
  · obtain ⟨rest, rfl⟩ := hw.exists_cons
    exact hπ.reads _ rest (kind_attributeLists hs.endsInEof)

/-- The attributes with the type named in them, and the modifiers. -/
theorem exists_plan_memberHead (hs : s.Lexed) (hclean : (memberHead s).2.errors = [])
    (hn : n.Valid s.depth) :
    ∃ π : Plan, π.Rewrites .near memberHead s (memberHead s).2
      ((memberHead s).1.2.1.flatMap (listEdits n.text))
      ((memberHead s).1.1, (memberHead s).1.2.1.map (·.nameType n.type),
        (memberHead s).1.2.2) := by
  by_cases hbracket : s.kind = .leftBracket
  · have hlists := Forward.reaches (r := attributeLists) s
    have hclean₁ : (attributeLists s).2.errors = [] :=
      (Forward.reaches _).clean hclean
    obtain ⟨π, hπ⟩ := exists_plan_lists hs hclean₁ hn hbracket
    obtain ⟨u, -, hkeep⟩ := exists_keep .near (r := modifiers) (hlists.lexed hs).endsInEof hclean
    have hmods := hkeep modifiers fun v' s' _ _ => inferInstance
    have hspan : Plan.Rewrites [] .near span s s [] s.span := .still fun _ => .span _
    have hplan := hspan.bind fun first _ => hπ.bind fun attributes hattributes =>
      hmods.bind (ρ := []) fun mods hmods' => .still (r := pure (first, attributes, mods))
        (a := ((memberHead s).1.1, (memberHead s).1.2.1.map (·.nameType n.type),
          (memberHead s).1.2.2)) fun _ => .pure (by
            rw [erase_pair, erase_pair, hattributes, hmods']
            rfl)
    simp only [List.append_nil] at hplan
    exact ⟨_, hplan⟩
  · obtain ⟨u, -, hkeep⟩ := exists_keep .near hs.endsInEof hclean
    have hnone : (memberHead s).1.2.1 = [] :=
      congrArg Prod.fst (attributeLists_of_stop hbracket)
    have hsame : ((memberHead s).1.1, ([] : List AttributeList).map (·.nameType n.type),
        (memberHead s).1.2.2) = (memberHead s).1 := by rw [List.map_nil, ← hnone]
    rw [hnone, hsame]
    exact ⟨_, hkeep memberHead fun v' s' _ _ => inferInstance⟩

variable (typeName) in
/-- After its attributes and modifiers a member that is no type is kept, whatever the attributes
    are. -/
theorem exists_keep_plainMember {first : Span} {attributes : List AttributeList} {mods : List Ident}
    (hs : s.Lexed) (hclean : (plainMember typeName first attributes mods s).2.errors = []) :
    ∃ u, ∀ (lists : List AttributeList) (first' : Span) (lists' : List AttributeList)
      (mods' : List Ident), erase lists' = erase lists → erase mods' = erase mods →
      (Plan.keep u).Rewrites .near (plainMember typeName first' lists' mods') s
        (plainMember typeName first attributes mods s).2 []
        ((plainMember typeName first [] mods s).1.map (·.withAttributes lists)) := by
  rw [plainMember_eq] at hclean ⊢
  obtain ⟨u, -, hkeep⟩ := exists_keep .near (r := plainMember typeName first [] mods) hs.endsInEof
    hclean
  refine ⟨u, fun lists first' lists' mods' hlists hmods => ?_⟩
  have := Alike.of_erased hmods
  have hplan := hkeep (plainMember typeName first' [] mods') fun v' s' _ ho' =>
    Replays.plainMember hs.ordered ho' first first'
  refine (hplan.map fun o ho => ?_).congr fun _ s' _ _ =>
    plainMember_eq
  exact (Alike.of_erased ho).option rfl fun _ _ hm => congrArg some (Member.erase_withAttributes hm.erased hlists)

end

/-! ## Members -/

section

variable {nestedType : TypeReader}
  [∀ first attributes mods, Forward (nestedType first attributes mods)]
  {typeName : String} {W : Property → Property} {s : Cursor} {p : Property}

omit [∀ first attributes mods, Forward (nestedType first attributes mods)] in
/-- A member that is no type gets other attributes. -/
theorem Plan.Rewrites.givenAttributes {π : Plan} {es : List TextEdit} {lists : List AttributeList}
    (h : π.Rewrites .near memberHead s (memberHead s).2 es
      ((memberHead s).1.1, lists, (memberHead s).1.2.2))
    (hs : s.Lexed) (hclean : (member nestedType typeName s).2.errors = [])
    (htype : ¬ (memberHead s).2.typeKeywordAt 0 = true)
    (hW : ∀ p, (member nestedType typeName s).1 = some (.property p) →
      W p = { p with attributes := lists }) :
    ∃ π : Plan, π.Rewrites .near (member nestedType typeName) s
      (member nestedType typeName s).2 es (change W (member nestedType typeName s).1) := by
  have hrun : member nestedType typeName s = _ := member_of_plain htype
  have hhead := Forward.reaches (r := memberHead) s
  have hread {m : Member} (hm : (member nestedType typeName s).1 = some m) :=
    member_readAs htype hm
  rw [hrun, bind_apply] at hclean hW hread ⊢
  set head := (memberHead s).1
  set t := (memberHead s).2
  obtain ⟨u, hu⟩ := exists_keep_plainMember typeName (hhead.lexed hs) hclean
  have hplan := h.bind (f := memberAfter nestedType typeName) fun head' hhead' =>
    (hu lists head'.1 head'.2.1 head'.2.2 (congrArg (·.2.1) hhead')
      (congrArg (·.2.2) hhead')).congr_meets fun s' _ hmeet =>
        memberAfter_of_plain (hmeet.typeKeywordAt_eq ▸ htype)
  have hresult : (plainMember typeName head.1 [] head.2.2 t).1.map (·.withAttributes lists) =
      change W (plainMember typeName head.1 head.2.1 head.2.2 t).1 := by
    have hplain : plainMember typeName head.1 head.2.1 head.2.2 t = _ := plainMember_eq
    rw [hplain, map_apply] at hW hread ⊢
    cases hmember : (plainMember typeName head.1 [] head.2.2 t).1 with
    | none => rfl
    | some m =>
      rw [hmember] at hW hread
      cases m with
      | property q => exact congrArg (some ∘ Member.property) (hW _ rfl).symm
      | nested d => exact (hread rfl).elim
      | _ => rfl
  rw [List.append_nil, hresult] at hplan
  exact ⟨_, hplan.congr fun _ s' _ _ => member_eq⟩

/-- For what the reader of type declarations reads there is a plan that names the types of the
    properties in it. It starts with at least three tokens that are kept. -/
def TypePlans (text : String) (E : Property → List TextEdit) (W : Property → Property)
    (rest : TypeReader) : Prop :=
  ∀ (first : Span) (attributes : List AttributeList) (mods : List Ident) (s : Cursor),
    s.LexedFrom text → (rest first attributes mods s).2.errors = [] →
    ∃ (u : List Token) (ρ : Plan), 3 ≤ u.length ∧ ∀ first' attributes' mods',
      erase attributes' = erase attributes → erase mods' = erase mods →
      (Plan.keep u ++ ρ).Names .near E W (rest first attributes mods) (rest first' attributes' mods') s

variable {text : String} {E : Property → List TextEdit}

/-- A member that is a type. -/
theorem planned_nested (hnested : TypePlans text E W nestedType) (hs : s.LexedFrom text)
    (htype : (memberHead s).2.typeKeywordAt 0 = true) :
    Planned .near E W (member nestedType typeName) s := by
  intro hclean
  have hhead := Forward.reaches (r := memberHead) s
  unfold Plan.Names
  rw [member_of_type nestedType typeName htype, bind_apply, map_apply] at hclean ⊢
  set head := (memberHead s).1
  set t := (memberHead s).2
  have hclean₁ : t.errors = [] :=
    (Forward.reaches t).clean hclean
  obtain ⟨u, -, hkeep⟩ := exists_keep .near hs.lexed.endsInEof hclean₁
  obtain ⟨w, ρ, -, hrest⟩ := hnested head.1 head.2.1 head.2.2 t (hhead.lexedFrom hs) hclean
  have hplan := (hkeep memberHead fun v' s' _ _ => inferInstance).bind
    (f := memberAfter nestedType typeName) fun head' hhead' =>
      ((hrest head'.1 head'.2.1 head'.2.2 (congrArg (·.2.1) hhead') (congrArg (·.2.2) hhead')).map
       
        (b := change W ((nestedType head.1 head.2.1 head.2.2 t).1.map Member.nested))
        fun o ho => ?_).congr_meets fun s' _ hmeet =>
          memberAfter_of_type (hmeet.typeKeywordAt_eq.trans htype)
  · have hproperties : owned ((nestedType head.1 head.2.1 head.2.2 t).1.map Member.nested) =
        owned (nestedType head.1 head.2.1 head.2.2 t).1 := by
      cases (nestedType head.1 head.2.1 head.2.2 t).1 <;> rfl
    rw [hproperties]
    exact ⟨_, hplan.congr fun _ s' _ _ => member_eq⟩
  · have hcomm (o : Option TypeDeclaration) :
        change W (o.map Member.nested) = (change W o).map Member.nested := by cases o <;> rfl
    rw [hcomm]
    exact (Alike.of_erased ho).option rfl fun _ _ hd => congrArg (some ∘ Member.nested) hd.erased

variable (typeName) in
/-- A member with the types of its properties named. -/
theorem planned_member (hren : Renames text E W) (hnested : TypePlans text E W nestedType)
    (hs : s.LexedFrom text) : Planned .near E W (member nestedType typeName) s := by
  by_cases htype : (memberHead s).2.typeKeywordAt 0 = true
  · exact planned_nested hnested hs htype
  intro hclean
  unfold Plan.Names
  have hhead := Forward.reaches (r := memberHead) s
  have hclean₁ : (memberHead s).2.errors = [] := by
    rw [member_of_plain htype] at hclean
    exact (Forward.reaches (r := plainMember typeName _ _ _) _).clean hclean
  have hren' (p : Property) (hp : (member nestedType typeName s).1 = some (.property p)) :
      (E p = [] → W p = p) ∧ (E p ≠ [] → ∃ n : Naming, n.Valid s.depth ∧
        E p = p.attributes.flatMap (listEdits n.text) ∧
        W p = { p with attributes := p.attributes.map (·.nameType n.type) }) := by
    have hread := member_readAs htype hp
    rw [← hhead.depth]
    refine hren _ p (hhead.lexedFrom hs) hread.2.1.symm ?_
    rw [member_of_plain htype] at hp hclean
    exact (typeExpr_reaches hp).clean hclean
  have hlists (p : Property) (hp : (member nestedType typeName s).1 = some (.property p)) :
      p.attributes = (memberHead s).1.2.1 := (member_readAs htype hp).1
  by_cases hchange : ∃ p, (member nestedType typeName s).1 = some (.property p) ∧ E p ≠ []
  · obtain ⟨p, hp, hE⟩ := hchange
    obtain ⟨n, hn, hEn, hW⟩ := (hren' p hp).2 hE
    obtain ⟨π, hπ⟩ := exists_plan_memberHead hs.lexed hclean₁ hn
    have hedits : (owned (member nestedType typeName s).1).flatMap E =
        (memberHead s).1.2.1.flatMap (listEdits n.text) := by
      rw [hp, ← hlists p hp, ← hEn]
      exact List.append_nil _
    rw [hedits]
    refine hπ.givenAttributes hs.lexed hclean htype fun q hq => ?_
    obtain rfl : p = q := Member.property.inj (Option.some.inj (hp.symm.trans hq))
    rw [hW, hlists p hp]
  · have hkeep (p : Property) (hp : (member nestedType typeName s).1 = some (.property p)) :
        E p = [] := by
      by_contra hE
      exact hchange ⟨p, hp, hE⟩
    have hnone : (owned (member nestedType typeName s).1).flatMap E = [] := by
      cases hmember : (member nestedType typeName s).1 with
      | none => rfl
      | some m =>
        have hread := member_readAs htype hmember
        cases m with
        | property p => exact (List.append_nil _).trans (hkeep p hmember)
        | nested d => exact hread.elim
        | _ => rfl
    obtain ⟨u, -, hhead⟩ := exists_keep .near hs.lexed.endsInEof hclean₁
    have hplan : (Plan.keep u).Rewrites .near memberHead s (memberHead s).2 []
        ((memberHead s).1.1, (memberHead s).1.2.1, (memberHead s).1.2.2) :=
      hhead memberHead fun v' s' _ _ => inferInstance
    rw [hnone]
    refine hplan.givenAttributes hs.lexed hclean htype fun p hp => ?_
    rw [(hren' p hp).1 (hkeep p hp), ← hlists p hp]

end

/-! ## The members of a type -/

section

variable {nestedType : TypeReader}
  [∀ first attributes mods, Forward (nestedType first attributes mods)]
  {typeName : String} {E : Property → List TextEdit} {W : Property → Property} {text : String}
  {s : Cursor}
  (hren : Renames text E W) (hnested : TypePlans text E W nestedType)
  (htakes : ∀ first attributes mods, Takes (nestedType first attributes mods))
  (hs : s.LexedFrom text)

include hren hnested htakes hs

/-- One round: a semicolon or a member. -/
theorem planned_memberStep : Planned .near E W (memberStep nestedType typeName) s := by
  by_cases hk : s.kind = .semicolon
  · refine .congr (q := advance >>= fun _ => pure none)
      (.keep hs.lexed.endsInEof (fun _ _ _ => inferInstance) rfl rfl) hs.lexed.endsInEof fun s' _ hmeet => ?_
    exact memberStep_of_semicolon nestedType typeName (hmeet.kind_eq.trans hk)
  · intro hclean
    have hmember : (member nestedType typeName s).2.errors = [] := by
      rw [memberStep_of_ne hk] at hclean
      split at hclean
      · exact (Cursor.Reaches.advance _).clean hclean
      · exact hclean
    unfold Plan.Names
    rw [memberStep_eq_member typeName hs.lexed.ordered hk
      (takes_member htakes s hs.lexed.endsInEof hmember)]
    obtain ⟨π, hπ⟩ := planned_member typeName hren hnested hs hmember
    refine ⟨π, hπ.congr fun w s' hw hs' => ?_⟩
    have hkind : s'.kind = s.kind := Meets.kind_eq (hs'.kinds ▸ hπ.leads w hw)
    exact memberStep_eq_member _ hs'.lexed.ordered (by rwa [hkind])
      (takes_member htakes s' hs'.endsInEof (hπ.reads w hw s' hs').1.clean)

/-- The members are planned one after the other. -/
theorem planned_members : Planned .near E W (members nestedType typeName) s := by
  refine planned_gatherWhile (fun s s' hmeet => ?_) (fun s hs hgo => ?_)
    (fun s _ hs => planned_memberStep hren hnested htakes hs) hs
  · rw [Cursor.atEnd, Cursor.atEnd, hmeet.kind_eq]
  · refine size_memberStep_lt hs fun heof => ?_
    simp [Cursor.atEnd, heof, TokenKind.isEof] at hgo

end

end SettingsLint
