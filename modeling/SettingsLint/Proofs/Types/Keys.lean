import SettingsLint.Proofs.Types.Declaring
import SettingsLint.Token.Lexeme

/-! # Keys of types

What tells the declared types of a source apart: the namespace or the type around a type, its
name and the number of its type parameters. In a table the key is written into one text, the
unique name. No two keys are written in the same way, since names have none of the marks that
the parts are put together with.
-/

namespace SettingsLint

variable {mark : Char}

/-- What tells a declared type from others. -/
inductive TypeKey where
  /-- A type in a namespace. -/
  | top (namespaceName name : String) (arity : Nat)
  /-- A type in another one. -/
  | nested (outer : TypeKey) (name : String) (arity : Nat)
  deriving DecidableEq, Repr

namespace TypeKey

/-- The key as one text. -/
def metadataName : TypeKey → String
  | top namespaceName name arity => SettingsLint.metadataName namespaceName name arity
  | nested outer name arity => nestedMetadataName outer.metadataName name arity

/-- How many types are around the type. -/
def depth : TypeKey → Nat
  | top .. => 0
  | nested outer _ _ => outer.depth + 1

end TypeKey

/-! ## Texts with marks -/

/-- The text has none of the marks that unique names are put together with. -/
def IsPlainName (name : String) : Prop := ∀ c ∈ name.toList, c ≠ '.' ∧ c ≠ '+' ∧ c ≠ '`'

theorem isPlainName_of_isNamePart {name : String}
    (h : ∀ c ∈ name.toList, Lexeme.isNamePart c = true) : IsPlainName name := by
  intro c hc
  refine ⟨?_, ?_, ?_⟩ <;>
  · rintro rfl
    exact absurd (h _ hc) (by decide)

theorem isPlainName_of_all {name : String}
    (h : name.toList.all (fun c => c != '.' && c != '+' && c != '`') = true) : IsPlainName name := by
  intro c hc
  simpa [and_assoc] using List.all_eq_true.1 h c hc

/-- What stands around the last mark is fixed by the whole. -/
theorem split_at_last {before before' after after' : List Char}
    (h : before ++ mark :: after = before' ++ mark :: after') (hafter : mark ∉ after)
    (hafter' : mark ∉ after') : before = before' ∧ after = after' := by
  rcases List.append_eq_append_iff.1 h with ⟨more, hmore, hrest⟩ | ⟨more, hmore, hrest⟩
  · cases more with
    | nil =>
      rw [List.nil_append, List.cons.injEq] at hrest
      exact ⟨by simpa using hmore.symm, hrest.2⟩
    | cons c more =>
      -- Otherwise the second mark would stand in what comes after the first one.
      rw [List.cons_append, List.cons.injEq] at hrest
      exact absurd (hrest.2 ▸ List.mem_append_right _ List.mem_cons_self) hafter
  · cases more with
    | nil =>
      rw [List.nil_append, List.cons.injEq] at hrest
      exact ⟨by simpa using hmore, hrest.2.symm⟩
    | cons c more =>
      rw [List.cons_append, List.cons.injEq] at hrest
      exact absurd (hrest.2 ▸ List.mem_append_right _ List.mem_cons_self) hafter'

/-- What stands around the first mark is fixed by the whole. -/
theorem split_at_first {before before' after after' : List Char}
    (h : before ++ mark :: after = before' ++ mark :: after') (hbefore : mark ∉ before)
    (hbefore' : mark ∉ before') : before = before' ∧ after = after' := by
  have hreverse := congrArg List.reverse h
  simp only [List.reverse_append, List.reverse_cons, List.append_assoc]
    at hreverse
  obtain ⟨hafter, hbefore⟩ := split_at_last hreverse (by simpa using hbefore) (by simpa using hbefore')
  exact ⟨List.reverse_inj.1 hbefore, List.reverse_inj.1 hafter⟩

theorem not_mem_toList_repr (h : mark.isDigit = false) (n : Nat) :
    mark ∉ n.repr.toList := by
  intro hmem
  rw [Nat.toList_repr] at hmem
  rw [Nat.isDigit_of_mem_toDigits (by decide) (by decide) hmem] at h
  cases h

theorem toDigits_injective {n m : Nat} (h : Nat.toDigits 10 n = Nat.toDigits 10 m) : n = m := by
  calc
    n = Nat.ofDigitChars 10 (Nat.toDigits 10 n) 0 := Nat.ofDigitChars_ten_toDigits.symm
    _ = Nat.ofDigitChars 10 (Nat.toDigits 10 m) 0 := by rw [h]
    _ = m := Nat.ofDigitChars_ten_toDigits

/-- The name with the mark for the number of type parameters has no other marks. -/
theorem not_mem_name_aritySuffix {name : String} (hname : mark ∉ name.toList)
    (hdigit : mark.isDigit = false) (hmark : mark ≠ '`') (arity : Nat) :
    mark ∉ (name ++ aritySuffix arity).toList := by
  rw [String.toList_append, List.mem_append, aritySuffix]
  rintro (hmem | hmem)
  · exact hname hmem
  · split at hmem
    next => simp at hmem
    next =>
      rw [String.toList_append, List.mem_append] at hmem
      rcases hmem with hmem | hmem
      · simp [hmark] at hmem
      · exact not_mem_toList_repr hdigit arity hmem

/-- Name and number of type parameters are fixed by what is written for them. -/
theorem name_aritySuffix_injective {name name' : String} {arity arity' : Nat}
    (hname : IsPlainName name) (hname' : IsPlainName name')
    (h : name ++ aritySuffix arity = name' ++ aritySuffix arity') :
    name = name' ∧ arity = arity' := by
  have hmark : '`' ∉ name.toList := fun hmem => (hname _ hmem).2.2 rfl
  have hmark' : '`' ∉ name'.toList := fun hmem => (hname' _ hmem).2.2 rfl
  have htexts := congrArg String.toList h
  simp only [aritySuffix] at htexts
  split at htexts
  next hzero =>
    split at htexts
    next hzero' => exact ⟨String.toList_injective (by simpa using htexts), hzero.trans hzero'.symm⟩
    next =>
      exact absurd (show '`' ∈ name.toList by
        rw [show name.toList = _ by simpa using htexts]; simp) hmark
  next =>
    split at htexts
    next =>
      exact absurd (show '`' ∈ name'.toList by
        rw [show name'.toList = _ by simpa using htexts.symm]; simp) hmark'
    next =>
      have hsplit : name.toList ++ '`' :: Nat.toDigits 10 arity
          = name'.toList ++ '`' :: Nat.toDigits 10 arity' := by simpa using htexts
      obtain ⟨hnames, harities⟩ := split_at_first hsplit hmark hmark'
      exact ⟨String.toList_injective hnames, toDigits_injective harities⟩

/-! ## Keys with plain names -/

namespace TypeKey

/-- The names in the key are names, and the namespace is made of names. -/
def Plain : TypeKey → Prop
  | top namespaceName name _ => '+' ∉ namespaceName.toList ∧ IsPlainName name
  | nested outer name _ => outer.Plain ∧ IsPlainName name

theorem toList_metadataName_top (namespaceName name : String) (arity : Nat) :
    (SettingsLint.metadataName namespaceName name arity).toList
      = (if namespaceName = "" then [] else namespaceName.toList ++ ['.'])
        ++ (name ++ aritySuffix arity).toList := by
  rw [SettingsLint.metadataName]
  split <;> simp

theorem not_mem_metadataName_top {namespaceName name : String} (hnamespace : '+' ∉ namespaceName.toList)
    (hname : IsPlainName name) (arity : Nat) :
    '+' ∉ (SettingsLint.metadataName namespaceName name arity).toList := by
  have hplus : '+' ∉ name.toList := fun hmem => (hname _ hmem).2.1 rfl
  have hrest := not_mem_name_aritySuffix hplus (by decide) (by decide) arity
  rw [toList_metadataName_top, List.mem_append]
  rintro (hmem | hmem)
  · split at hmem
    next => cases hmem
    next =>
      rcases List.mem_append.1 hmem with hmem | hmem
      · exact hnamespace hmem
      · simp at hmem
  · exact hrest hmem

theorem toList_nestedMetadataName (outer name : String) (arity : Nat) :
    (nestedMetadataName outer name arity).toList
      = outer.toList ++ '+' :: (name ++ aritySuffix arity).toList := by
  simp [nestedMetadataName]

/-- Keys with plain names are told apart by their texts. -/
theorem metadataName_injective {key key' : TypeKey} (hkey : key.Plain) (hkey' : key'.Plain)
    (h : key.metadataName = key'.metadataName) : key = key' := by
  induction key generalizing key' with
  | top ns name arity =>
    cases key' with
    | top ns' name' arity' =>
      have hdot : '.' ∉ (name ++ aritySuffix arity).toList :=
        not_mem_name_aritySuffix (fun hmem => (hkey.2 _ hmem).1 rfl) (by decide) (by decide) arity
      have hdot' : '.' ∉ (name' ++ aritySuffix arity').toList :=
        not_mem_name_aritySuffix (fun hmem => (hkey'.2 _ hmem).1 rfl) (by decide) (by decide) arity'
      have htexts := congrArg String.toList h
      simp only [metadataName, toList_metadataName_top] at htexts
      -- The last dot stands after the namespace, and there is none without a namespace.
      have hparts : ns = ns' ∧ name ++ aritySuffix arity = name' ++ aritySuffix arity' := by
        split at htexts
        next hns =>
          split at htexts
          next hns' => exact ⟨hns.trans hns'.symm, String.toList_injective htexts⟩
          next =>
            rw [List.nil_append] at htexts
            rw [htexts] at hdot
            simp at hdot
        next =>
          split at htexts
          next =>
            rw [List.nil_append] at htexts
            rw [← htexts] at hdot'
            simp at hdot'
          next =>
            rw [List.append_assoc, List.append_assoc] at htexts
            obtain ⟨hns, hrest⟩ := split_at_last htexts hdot hdot'
            exact ⟨String.toList_injective hns, String.toList_injective hrest⟩
      obtain ⟨rfl, rfl⟩ := name_aritySuffix_injective hkey.2 hkey'.2 hparts.2
      rw [hparts.1]
    | nested outer' name' arity' =>
      have hplus := not_mem_metadataName_top hkey.1 hkey.2 arity
      have htexts : (SettingsLint.metadataName ns name arity).toList = _ := congrArg String.toList h
      rw [metadataName, toList_nestedMetadataName] at htexts
      exact absurd (htexts ▸ List.mem_append_right _ List.mem_cons_self) hplus
  | nested outer name arity ih =>
    cases key' with
    | top ns' name' arity' =>
      have hplus := not_mem_metadataName_top hkey'.1 hkey'.2 arity'
      have htexts : _ = (SettingsLint.metadataName ns' name' arity').toList := congrArg String.toList h
      rw [metadataName, toList_nestedMetadataName] at htexts
      exact absurd (htexts ▸ List.mem_append_right _ List.mem_cons_self) hplus
    | nested outer' name' arity' =>
      have hplus : '+' ∉ (name ++ aritySuffix arity).toList :=
        not_mem_name_aritySuffix (fun hmem => (hkey.2 _ hmem).2.1 rfl) (by decide) (by decide) arity
      have hplus' : '+' ∉ (name' ++ aritySuffix arity').toList :=
        not_mem_name_aritySuffix (fun hmem => (hkey'.2 _ hmem).2.1 rfl) (by decide) (by decide) arity'
      have htexts := congrArg String.toList h
      rw [metadataName, metadataName, toList_nestedMetadataName, toList_nestedMetadataName] at htexts
      obtain ⟨houter, hrest⟩ := split_at_last htexts hplus hplus'
      have hsame := ih hkey.1 hkey'.1 (String.toList_injective houter)
      obtain ⟨rfl, rfl⟩ := name_aritySuffix_injective hkey.2 hkey'.2 (String.toList_injective hrest)
      rw [hsame]

end TypeKey

/-! ## Keys in a table -/

/-- The type has the key: namespace or type around it, name and number of type parameters. -/
inductive TypeTable.HasKey (t : TypeTable) : TypeKey → TypeId → Prop where
  | top {id : TypeId} {namespaceName name : String} {kind : TypeKind} {parameters : List TypeId}
    (h : t.shape id = .definition name namespaceName
      (metadataName namespaceName name parameters.length) none kind parameters) :
    HasKey t (.top namespaceName name parameters.length) id
  | nested {id outer : TypeId} {key : TypeKey} {namespaceName name : String} {kind : TypeKind}
    {parameters : List TypeId} (houter : HasKey t key outer)
    (h : t.shape id = .definition name namespaceName
      (nestedMetadataName key.metadataName name parameters.length) (some outer) kind parameters) :
    HasKey t (.nested key name parameters.length) id

namespace TypeTable.HasKey

variable {t t' : TypeTable} {key key' : TypeKey} {id : TypeId}

theorem metadataName?_eq (h : t.HasKey key id) : t.metadataName? id = some key.metadataName := by
  cases h with
  | top h => rw [metadataName?, h]; rfl
  | nested _ h => rw [metadataName?, h]; rfl

theorem mono (h : t.HasKey key id) (hkeeps : t.Keeps t') : t'.HasKey key id := by
  induction h with
  | top h => exact .top ((hkeeps.shape_eq (index_lt_of_shape h)).trans h)
  | nested _ h ih => exact .nested ih ((hkeeps.shape_eq (index_lt_of_shape h)).trans h)

/-- A type has one key. -/
theorem unique (h : t.HasKey key id) (h' : t.HasKey key' id) : key = key' := by
  induction h generalizing key' with
  | top h =>
    cases h' with
    | top h' =>
      rw [h, Shape.definition.injEq] at h'
      obtain ⟨rfl, rfl, -, -, -, rfl⟩ := h'
      rfl
    | nested _ h' =>
      rw [h] at h'
      simp at h'
  | nested _ h ih =>
    cases h' with
    | top h' =>
      rw [h] at h'
      simp at h'
    | nested houter' h' =>
      rw [h, Shape.definition.injEq, Option.some.injEq] at h'
      obtain ⟨rfl, -, -, rfl, -, rfl⟩ := h'
      rw [ih houter']

end TypeTable.HasKey

end SettingsLint
