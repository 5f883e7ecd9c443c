import SettingsLint.Proofs.Reading.Progress

/-! # How deep declarations nest

Reading opens a level for each namespace in braces and for each type, and refuses to open more than
`maxNesting` of them. So a path down the tree that is read has at most so many of these, and in the
end all levels are closed. The bound is carried by `Read.Gives`: what a reader gives from a cursor at
some depth.

File-scoped namespaces open no level, though each of them holds all that comes after it. A source can
nest as many of them as it likes, without an error.
-/

set_option synthInstance.maxSize 1024

namespace SettingsLint

mutual

/-- The most types on a path down from the declaration, itself included. -/
def TypeDeclaration.levels : TypeDeclaration → Nat
  | .mk _ members => 1 + Member.levelsIn members

/-- The most types on a path down from one of the members. -/
def Member.levelsIn : List Member → Nat
  | [] => 0
  | .nested declaration :: members => max declaration.levels (Member.levelsIn members)
  | .property _ :: members => Member.levelsIn members
  | .constructor _ :: members => Member.levelsIn members
  | .other _ :: members => Member.levelsIn members

end

mutual

/-- The most types and namespaces on a path down from the member, itself included, where a
    namespace counts as `weight` says. -/
def UnitMember.levels (weight : NamespaceHeader → Nat) : UnitMember → Nat
  | .scope header members => weight header + UnitMember.levelsIn weight members
  | .type declaration => declaration.levels

/-- The most types and namespaces on a path down from one of the members. -/
def UnitMember.levelsIn (weight : NamespaceHeader → Nat) : List UnitMember → Nat
  | [] => 0
  | member :: members => max (member.levels weight) (UnitMember.levelsIn weight members)

end

/-- The most types and namespaces on a path down from the unit. -/
def SourceUnit.nesting (unit : SourceUnit) : Nat := UnitMember.levelsIn (fun _ => 1) unit.members

/-- The weight of a namespace if only those in braces count. -/
def NamespaceHeader.blockWeight (header : NamespaceHeader) : Nat := if header.fileScoped then 0 else 1

/-- The most types and namespaces in braces on a path down from the unit. -/
def SourceUnit.blockNesting (unit : SourceUnit) : Nat :=
  UnitMember.levelsIn NamespaceHeader.blockWeight unit.members

mutual

/-- The most file-scoped namespaces on a path down from the member, itself included. -/
def UnitMember.fileScopes : UnitMember → Nat
  | .scope header members => (if header.fileScoped then 1 else 0) + UnitMember.fileScopesIn members
  | .type _ => 0

/-- The most file-scoped namespaces on a path down from one of the members. -/
def UnitMember.fileScopesIn : List UnitMember → Nat
  | [] => 0
  | member :: members => max member.fileScopes (UnitMember.fileScopesIn members)

end

/-- The most file-scoped namespaces on a path down from the unit. -/
def SourceUnit.fileNesting (unit : SourceUnit) : Nat := UnitMember.fileScopesIn unit.members

mutual

theorem UnitMember.levels_le : (member : UnitMember) →
    member.levels (fun _ => 1) ≤ member.levels NamespaceHeader.blockWeight + member.fileScopes
  | .scope header members => by
    have hmembers := UnitMember.levelsIn_le members
    have hheader : 1 = header.blockWeight + if header.fileScoped then 1 else 0 := by
      rw [NamespaceHeader.blockWeight]
      split <;> rfl
    rw [levels, levels, fileScopes]
    omega
  | .type declaration => by rw [levels]; exact Nat.le_add_right _ _

/-- A path has no more levels than those that count and the file-scoped namespaces. -/
theorem UnitMember.levelsIn_le : (members : List UnitMember) →
    UnitMember.levelsIn (fun _ => 1) members
      ≤ UnitMember.levelsIn NamespaceHeader.blockWeight members + UnitMember.fileScopesIn members
  | [] => Nat.le_refl _
  | member :: members => by
    have hmember := member.levels_le
    have hmembers := UnitMember.levelsIn_le members
    rw [levelsIn, levelsIn, fileScopesIn]
    omega

end

/-! ## What fits at a depth -/

/-- The declaration and what is nested in it stay within the limit, `depth` levels down. -/
def TypeDeclaration.FitsAt (depth : Nat) (declaration : TypeDeclaration) : Prop :=
  declaration.levels + depth ≤ maxNesting

/-- The member stays within the limit, `depth` levels down. -/
def Member.FitsAt (depth : Nat) : Member → Prop
  | .nested declaration => declaration.FitsAt depth
  | _ => True

/-- The item stays within the limit, `depth` levels down. -/
def UnitItem.FitsAt (depth : Nat) : UnitItem → Prop
  | .member one => one.levels NamespaceHeader.blockWeight + depth ≤ maxNesting
  | .using _ | .fileScope _ _ => True

theorem Member.levelsIn_le {depth : Nat} (hdepth : depth ≤ maxNesting) {members : List Member}
    (h : ∀ m ∈ members, m.FitsAt depth) : Member.levelsIn members + depth ≤ maxNesting := by
  induction members with
  | nil => simpa [levelsIn] using hdepth
  | cons m members ih =>
    have hrest := ih fun m' hm' => h m' (List.mem_cons_of_mem _ hm')
    have hm := h m List.mem_cons_self
    cases m with
    | nested declaration =>
      have hfits : declaration.levels + depth ≤ maxNesting := hm
      rw [levelsIn]
      omega
    | _ => simpa [levelsIn] using hrest

theorem UnitItem.levelsIn_assemble_le {depth : Nat} (hdepth : depth ≤ maxNesting) (stop : Nat)
    {items : List UnitItem} (h : ∀ item ∈ items, item.FitsAt depth) :
    UnitMember.levelsIn NamespaceHeader.blockWeight (assemble stop items).2 + depth ≤ maxNesting := by
  induction items with
  | nil => simpa [assemble, UnitMember.levelsIn] using hdepth
  | cons item items ih =>
    have hrest := ih fun item' hitem' => h item' (List.mem_cons_of_mem _ hitem')
    have hitem := h item List.mem_cons_self
    cases item with
    | «using» directive => exact hrest
    | member one =>
      have hfits : one.levels NamespaceHeader.blockWeight + depth ≤ maxNesting := hitem
      rw [assemble, UnitMember.levelsIn]
      omega
    | fileScope name first =>
      -- The namespace itself weighs nothing.
      rw [assemble, UnitMember.levelsIn, UnitMember.levels, UnitMember.levelsIn]
      simpa [NamespaceHeader.blockWeight] using hrest

namespace Read

/-! ## What a reader gives -/

/-- From every cursor at the depth the reader gives a value with the property. -/
def Gives (depth : Nat) (P : α → Prop) (r : Read α) : Prop := ∀ s : Cursor, s.depth = depth → P (r s).1

namespace Gives

variable {depth : Nat} {P : α → Prop} {Q : β → Prop}

theorem pure {a : α} (h : P a) : Gives depth P (pure a : Read α) := fun _ _ => h

theorem bind {r : Read α} {f : α → Read β} [hr : Forward r] (h : Gives depth P r)
    (hf : ∀ a, P a → Gives depth Q (f a)) : Gives depth Q (r >>= f) :=
  fun s hs => hf _ (h s hs) _ ((hr.reaches s).depth.trans hs)

/-- A reader whose value does not matter comes first. -/
theorem after {r : Read α} {f : α → Read β} [Forward r] (hf : ∀ a, Gives depth Q (f a)) :
    Gives depth Q (r >>= f) :=
  bind (P := fun _ => True) (fun _ _ => trivial) fun a _ => hf a

theorem ite {c : Prop} [Decidable c] {r q : Read α} (hr : Gives depth P r) (hq : Gives depth P q) :
    Gives depth P (if c then r else q) := by
  split
  · exact hr
  · exact hq

theorem map {r : Read α} {f : α → β} (h : Gives depth P r) (hf : ∀ a, P a → Q (f a)) :
    Gives depth Q (f <$> r) := fun s hs => hf _ (h s hs)

theorem gatherWhile {goOn : Cursor → Bool} {step : Read (Option α)} [hstep : Forward step]
    (h : Gives depth (fun o => ∀ a ∈ o, P a) step) :
    Gives depth (fun as => ∀ a ∈ as, P a) (gatherWhile goOn step) := by
  intro s hs
  induction hn : s.size using Nat.strongRecOn generalizing s with
  | ind n ih =>
    have hfirst : ∀ a ∈ (step s).1.toList, P a := fun a ha => h s hs a (Option.mem_toList.mp ha)
    cases hgo : goOn s with
    | false =>
      rw [gatherWhile_of_stop hgo]
      exact fun _ ha => nomatch ha
    | true =>
      rw [gatherWhile_of_go hgo]
      split
      · next hlt =>
        have hrest := ih _ (hn ▸ hlt) _ ((hstep.reaches s).depth.trans hs) rfl
        intro a ha
        rcases List.mem_append.mp ha with ha | ha
        · exact hfirst a ha
        · exact hrest a ha
      · exact hfirst

/-- One level deeper there is still a level left. -/
theorem nested {body instead : Read α} (hbody : depth < maxNesting → Gives (depth + 1) P body)
    (hinstead : Gives depth P (refuse instead)) : Gives depth P (nested body instead) := by
  intro s hs
  rcases Nat.lt_or_ge s.depth maxNesting with shallow | deep
  · rw [nested_of_lt shallow]
    exact hbody (hs ▸ shallow) _ (congrArg (· + 1) hs)
  · rw [nested_of_le deep]
    exact hinstead s hs

end Gives

/-! ## Types -/

section

variable {depth : Nat} {nestedType : TypeReader}

theorem gives_otherMember (first : Span) :
    Gives depth (fun m => m.FitsAt depth) (otherMember first) := fun _ _ => trivial

theorem gives_memberRest (first : Span) (attributes : List AttributeList) (modifiers : List Ident)
    (type : TypeExpr) :
    Gives depth (fun m => m.FitsAt depth) (memberRest first attributes modifiers type) := by
  have hother : Gives depth (fun m => m.FitsAt depth) (otherMember first) := gives_otherMember first
  have hbody (name : Ident) :
      Gives depth (fun m => m.FitsAt depth) (memberBody first attributes modifiers type name) :=
    .after fun isProperty => .ite (.after fun _ => .pure trivial) hother
  have hnamed : Gives depth (fun m => m.FitsAt depth) (namedMember first attributes modifiers type) :=
    .after fun name => by
      cases name with
      | none => exact .after fun _ => hother
      | some name => exact hbody name
  exact .after fun s => .ite (.after fun _ => hother) (.ite (.after fun _ => hother)
    (.ite (.after fun _ => hother) hnamed))

theorem gives_member [∀ first attributes modifiers, Forward (nestedType first attributes modifiers)]
    (h : ∀ first attributes modifiers, Gives depth (fun o => ∀ d ∈ o, d.FitsAt depth)
      (nestedType first attributes modifiers)) (typeName : String) :
    Gives depth (fun o => ∀ m ∈ o, m.FitsAt depth) (member nestedType typeName) := by
  have hsome {r : Read Member} (h : Gives depth (fun m => m.FitsAt depth) r) :
      Gives depth (fun o => ∀ m ∈ o, m.FitsAt depth) (some <$> r) :=
    h.map fun m hm m' hm' => Option.some.inj hm' ▸ hm
  refine .after fun first => .after fun attributes => .after fun modifiers => .after fun s => ?_
  refine .ite ?_ (.ite ?_ (.ite ?_ ?_))
  · refine (h first attributes modifiers).bind fun o ho => .pure fun m hm => ?_
    obtain ⟨d, hd, rfl⟩ := Option.map_eq_some_iff.mp hm
    exact ho d hd
  · exact .after fun _ => hsome (gives_otherMember first)
  · exact .after fun _ => .pure fun m hm => by cases hm; trivial
  · exact hsome (.after fun type => gives_memberRest first attributes modifiers type)

theorem gives_typeBody [∀ first attributes modifiers, Forward (nestedType first attributes modifiers)]
    (h : ∀ first attributes modifiers, Gives depth (fun o => ∀ d ∈ o, d.FitsAt depth)
      (nestedType first attributes modifiers)) (kind : DeclarationKind) (typeName : String) :
    Gives depth (fun ms => ∀ m ∈ ms, m.FitsAt depth) (typeBody nestedType kind typeName) := by
  have hstep : Gives depth (fun o => ∀ m ∈ o, m.FitsAt depth) (memberStep nestedType typeName) :=
    .after fun _ => .ite (.pure fun _ hm => nomatch hm) (.after fun _ =>
      (gives_member h typeName).bind fun item hitem => .after fun _ =>
        .ite (.after fun _ => .pure hitem) (.pure hitem))
  have hmembers : Gives depth (fun ms => ∀ m ∈ ms, m.FitsAt depth) (members nestedType typeName) :=
    .gatherWhile hstep
  refine .after fun opening => ?_
  cases opening with
  | none =>
    have hnone : Gives depth (fun ms => ∀ m ∈ ms, m.FitsAt depth) (pure [] : Read (List Member)) :=
      .pure fun _ hm => nomatch hm
    exact .after fun _ => .ite (.after fun _ => .after fun _ => hnone) hnone
  | some opening =>
    have hclose {items : List Member} (hitems : ∀ m ∈ items, m.FitsAt depth) :
        Gives depth (fun ms => ∀ m ∈ ms, m.FitsAt depth) (do
          if (← eat .rightBrace).isNone then report (.unclosed '\x7b') opening
          return items) :=
      .after fun _ => .ite (.after fun _ => .pure hitems) (.pure hitems)
    dsimp only
    split
    · exact .after fun _ => hclose fun _ hm => nomatch hm
    · exact hmembers.bind fun items hitems => hclose hitems

end

/-- A type that is read, with the types nested in it, stays within the limit. -/
theorem gives_typeRestWithin (levels depth : Nat) (first : Span) (attributes : List AttributeList)
    (modifiers : List Ident) : Gives depth (fun o => ∀ d ∈ o, d.FitsAt depth)
      (typeRestWithin levels first attributes modifiers) := by
  induction levels generalizing depth first attributes modifiers with
  | zero => exact .after fun _ => .after fun _ => .after fun _ => .pure fun _ hd => nomatch hd
  | succ levels ih =>
    refine .nested (fun hdepth => .after fun header => ?_)
      (.after fun _ => .after fun _ => .after fun _ => .pure fun _ hd => nomatch hd)
    cases header with
    | none => exact .pure fun _ hd => nomatch hd
    | some header =>
      refine (gives_typeBody (ih (depth + 1)) header.kind header.name.name).bind fun items hitems => ?_
      refine .after fun _ => .after fun whole => .pure fun d hd => ?_
      cases hd
      have hlevels := Member.levelsIn_le hdepth hitems
      show 1 + Member.levelsIn items + depth ≤ maxNesting
      omega

theorem gives_typeDeclaration (depth : Nat) :
    Gives depth (fun o => ∀ d ∈ o, d.FitsAt depth) typeDeclaration :=
  .after fun first => .after fun attributes => .after fun modifiers =>
    gives_typeRestWithin maxNesting depth first attributes modifiers

/-! ## Namespaces -/

section

variable {depth : Nat} {block : Read (Option (List UnitItem))} [Forward block]

/-- The items of a block are one level deeper than the block, where there is a level left. -/
def FitBlock (depth : Nat) (items : Option (List UnitItem)) : Prop :=
  ∀ is ∈ items, depth < maxNesting ∧ ∀ i ∈ is, i.FitsAt (depth + 1)

theorem gives_namespaceItem (hblock : Gives depth (FitBlock depth) block) :
    Gives depth (fun o => ∀ i ∈ o, i.FitsAt depth) (namespaceItem block) := by
  have hnone : Gives depth (fun o => ∀ i ∈ o, i.FitsAt depth) (pure none : Read (Option UnitItem)) :=
    .pure fun _ hi => nomatch hi
  refine .after fun first => .after fun name => ?_
  cases name with
  | none => exact hnone
  | some name =>
    refine .after fun _ => .ite (.pure fun i hi => ?_) (.after fun _ => .ite (.after fun _ => hnone) ?_)
    · cases hi
      trivial
    · refine hblock.bind fun items hitems => ?_
      cases items with
      | none => exact hnone
      | some items =>
        obtain ⟨hdepth, hfits⟩ := hitems items rfl
        refine .after fun s => ?_
        have hlevels := UnitItem.levelsIn_assemble_le hdepth s.previousStop hfits
        have hscope (whole : Span) : (UnitItem.member (.scope
            ⟨name, false, (UnitItem.assemble s.previousStop items).1, whole⟩
            (UnitItem.assemble s.previousStop items).2)).FitsAt depth := by
          show NamespaceHeader.blockWeight _ + UnitMember.levelsIn _ _ + depth ≤ maxNesting
          have hweight : NamespaceHeader.blockWeight
              ⟨name, false, (UnitItem.assemble s.previousStop items).1, whole⟩ = 1 := rfl
          omega
        have hend : Gives depth (fun o => ∀ i ∈ o, UnitItem.FitsAt depth i) (do
            let _ ← eat .semicolon
            let whole ← spanFrom first
            return some (UnitItem.member (.scope
              ⟨name, false, (UnitItem.assemble s.previousStop items).1, whole⟩
              (UnitItem.assemble s.previousStop items).2))) :=
          .after fun _ => .after fun whole => .pure fun i hi => by
            cases hi
            exact hscope whole
        exact .after fun _ => .ite (.after fun _ => hend) hend

theorem gives_unitItem (hblock : Gives depth (FitBlock depth) block) :
    Gives depth (fun o => ∀ i ∈ o, i.FitsAt depth) (unitItem block) := by
  have hnone : Gives depth (fun o => ∀ i ∈ o, i.FitsAt depth) (pure none : Read (Option UnitItem)) :=
    .pure fun _ hi => nomatch hi
  refine .after fun s => .after fun _ => .ite hnone (.ite ?_ (.ite (.after fun _ => hnone) (.ite ?_
    (.ite (.after fun _ => hnone) (.ite ?_ (.after fun _ => hnone))))))
  · exact .after fun directive => .pure fun i hi => by cases hi; trivial
  · exact gives_namespaceItem hblock
  · refine (gives_typeDeclaration depth).bind fun o ho => .pure fun i hi => ?_
    obtain ⟨d, hd, rfl⟩ := Option.map_eq_some_iff.mp hi
    exact ho d hd

end

theorem gives_blockWithin (levels depth : Nat) : Gives depth (FitBlock depth) (blockWithin levels) := by
  induction levels generalizing depth with
  | zero => exact .after fun _ => .after fun _ => .after fun _ => .pure fun _ hi => nomatch hi
  | succ levels ih =>
    refine .nested (fun hdepth => ?_)
      (.after fun _ => .after fun _ => .after fun _ => .pure fun _ hi => nomatch hi)
    have hitems : Gives (depth + 1) (fun is => ∀ i ∈ is, i.FitsAt (depth + 1))
        (unitItems (blockWithin levels)) := .gatherWhile (gives_unitItem (ih (depth + 1)))
    exact hitems.map fun is his is' his' => Option.some.inj his' ▸ ⟨hdepth, his⟩

theorem gives_unitBody : Gives 0
    (fun body => UnitMember.levelsIn NamespaceHeader.blockWeight body.2 ≤ maxNesting) unitBody := by
  have hitems : Gives 0 (fun is => ∀ i ∈ is, i.FitsAt 0) (unitItems (blockWithin maxNesting)) :=
    .gatherWhile (gives_unitItem (gives_blockWithin maxNesting 0))
  exact hitems.bind fun items hfits => .after fun s => .pure
    (UnitItem.levelsIn_assemble_le (Nat.zero_le _) s.previousStop hfits)

end Read

/-! ## Whole units -/

theorem UnitMember.levelsIn_le_iff {weight : NamespaceHeader → Nat} {members : List UnitMember}
    {n : Nat} : UnitMember.levelsIn weight members ≤ n ↔ ∀ m ∈ members, m.levels weight ≤ n := by
  induction members with
  | nil => simp [levelsIn]
  | cons m members ih => rw [levelsIn, Nat.max_le, ih, List.forall_mem_cons]

theorem SourceUnit.blockNesting_read_le (tokens : List Token) :
    (SourceUnit.read tokens).1.blockNesting ≤ maxNesting := by
  have hmore : Read.Gives 0 (fun bodies => ∀ body ∈ bodies,
      UnitMember.levelsIn NamespaceHeader.blockWeight body.2 ≤ maxNesting)
      (Read.gatherWhile (!·.atEnd) Read.strayBody) :=
    .gatherWhile (.after fun _ => .after fun _ => Read.gives_unitBody.bind fun body hbody =>
      .pure fun body' hbody' => Option.some.inj hbody' ▸ hbody)
  have hunit : Read.Gives 0 (fun unit => unit.blockNesting ≤ maxNesting) Read.sourceUnit :=
    .after fun first => Read.gives_unitBody.bind fun body hbody => hmore.bind fun more hmore =>
      .after fun last => .pure <| UnitMember.levelsIn_le_iff.2 fun m hmem => by
        obtain ⟨part, hpart, hm⟩ := List.mem_flatMap.mp hmem
        rcases List.mem_cons.mp hpart with rfl | hpart
        · exact UnitMember.levelsIn_le_iff.1 hbody m hm
        · exact UnitMember.levelsIn_le_iff.1 (hmore part hpart) m hm
  exact hunit _ (Cursor.depth_ofTokens tokens)

/-- A path down a unit that is read has at most `maxNesting` types and namespaces in braces, and so
    is longer than `maxNesting` by no more than its file-scoped namespaces. In the end no level is
    open. -/
theorem SourceUnit.nesting_read_le (tokens : List Token) :
    (SourceUnit.read tokens).1.blockNesting ≤ maxNesting ∧
      (SourceUnit.read tokens).1.nesting ≤ maxNesting + (SourceUnit.read tokens).1.fileNesting ∧
      (SourceUnit.read tokens).2.depth = 0 := by
  have hblocks := blockNesting_read_le tokens
  refine ⟨hblocks, ?_, ?_⟩
  · calc (SourceUnit.read tokens).1.nesting
        ≤ (SourceUnit.read tokens).1.blockNesting + (SourceUnit.read tokens).1.fileNesting :=
          UnitMember.levelsIn_le _
      _ ≤ maxNesting + (SourceUnit.read tokens).1.fileNesting := Nat.add_le_add_right hblocks _
  · have hreach := Read.Forward.reaches (r := Read.sourceUnit) (Cursor.ofTokens tokens)
    exact hreach.depth.trans (Cursor.depth_ofTokens tokens)

/-- The tokens of `namespace A;` at a place. -/
def fileScope (start : Nat) : List Token :=
  [⟨.identifier "namespace", ⟨start, start + 9⟩, []⟩, ⟨.identifier "A", ⟨start + 10, start + 11⟩, []⟩,
    ⟨.semicolon, ⟨start + 11, start + 12⟩, []⟩]

/-- 65 file-scoped namespaces nest without an error, one more than the limit. -/
theorem SourceUnit.nesting_fileScope_65 :
    let tokens := (List.range 65).flatMap fun i => fileScope (12 * i)
    (SourceUnit.read tokens).2.errors.isEmpty = true ∧
      ¬ (SourceUnit.read tokens).1.nesting ≤ maxNesting := by
  decide +kernel

end SettingsLint
