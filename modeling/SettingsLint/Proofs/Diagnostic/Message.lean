import SettingsLint.Main

/-! # Filling the places of a message

A place of a format is a number in braces. Since a place holds no brace but its own two, places do not overlap,
and what a place is filled with does not depend on the text around it. So the message for a format that holds a
place with an argument falls into the messages before and after it, with the argument as it is between them.
-/

namespace SettingsLint

namespace Format

/-- The text between the braces of a place: digits, perhaps after a plus sign. -/
def IsIndex (text : List Char) (n : Nat) : Prop :=
  ∃ sign digits, text = sign ++ digits ∧ (sign = [] ∨ sign = ['+']) ∧ digits ≠ [] ∧
    (∀ c ∈ digits, c.isDigit = true) ∧ n = Nat.ofDigitChars 10 digits 0

/-- The text is a place, and there is an argument for it. -/
def IsPlaceOf (arguments : List String) (argument : String) (text : List Char) : Prop :=
  ∃ index n, text = '\x7b' :: (index ++ ['\x7d']) ∧ IsIndex index n ∧ n < UInt64.size ∧
    arguments[n]? = some argument

variable {arguments : List String} {argument : String}

/-! ## Places are recognised -/

theorem index?_eq_some_iff {text : List Char} {n : Nat} :
    index? text = some n ↔ IsIndex text n ∧ n < UInt64.size := by
  have hread : ∀ digits : List Char, (!digits.isEmpty && digits.all Char.isDigit &&
      Nat.ofDigitChars 10 digits 0 < UInt64.size) = true ↔
      (digits ≠ [] ∧ ∀ c ∈ digits, c.isDigit = true) ∧ Nat.ofDigitChars 10 digits 0 < UInt64.size := by
    intro digits
    simp
  simp only [index?, hread, Option.ite_none_right_eq_some, Option.some.injEq]
  constructor
  · rintro ⟨⟨⟨hne, hall⟩, hsmall⟩, rfl⟩
    by_cases hplus : text.head? = some '+'
    · obtain ⟨rest, rfl⟩ := List.head?_eq_some_iff.mp hplus
      exact ⟨⟨['+'], rest, rfl, .inr rfl, hne, hall, rfl⟩, hsmall⟩
    · rw [if_neg hplus] at hne hall hsmall ⊢
      exact ⟨⟨[], text, rfl, .inl rfl, hne, hall, rfl⟩, hsmall⟩
  · rintro ⟨⟨sign, digits, rfl, rfl | rfl, hne, hall, rfl⟩, hsmall⟩
    · have hplus : digits.head? ≠ some '+' := by
        intro h
        obtain ⟨rest, rfl⟩ := List.head?_eq_some_iff.mp h
        exact absurd (hall '+' List.mem_cons_self) (by decide)
      simp only [List.nil_append, if_neg hplus]
      exact ⟨⟨⟨hne, hall⟩, hsmall⟩, trivial⟩
    · exact ⟨⟨⟨hne, hall⟩, hsmall⟩, rfl⟩

theorem IsIndex.not_mem {text : List Char} {n : Nat} (h : IsIndex text n) {c : Char}
    (hdigit : c.isDigit = false) (hplus : c ≠ '+') : c ∉ text := by
  obtain ⟨sign, digits, rfl, hsign, -, hall, -⟩ := h
  intro hmem
  rcases List.mem_append.mp hmem with hmem | hmem
  · rcases hsign with rfl | rfl
    · cases hmem
    · exact hplus (List.mem_singleton.mp hmem)
  · rw [hall c hmem] at hdigit
    cases hdigit

theorem place?_eq_some_iff {text : List Char} {length : Nat} :
    place? arguments text = some (argument, length) ↔ ∃ index after n, text = index ++ '\x7d' :: after ∧
      IsIndex index n ∧ n < UInt64.size ∧ arguments[n]? = some argument ∧ length = index.length + 1 := by
  have hplace : place? arguments text = some (argument, length) ↔
      (text.takeWhile (· ≠ '\x7d')).length < text.length ∧ ∃ n, index? (text.takeWhile (· ≠ '\x7d')) = some n ∧
        arguments[n]? = some argument ∧ length = (text.takeWhile (· ≠ '\x7d')).length + 1 := by
    simp only [place?, Option.ite_none_right_eq_some, Option.bind_eq_bind, Option.bind_eq_some_iff]
    grind
  rw [hplace]
  constructor
  · rintro ⟨hshort, n, hindex, hargument, rfl⟩
    obtain ⟨hindex, hsmall⟩ := index?_eq_some_iff.1 hindex
    have hsplit := List.takeWhile_append_dropWhile (p := (· ≠ '\x7d')) (l := text)
    cases hafter : text.dropWhile (· ≠ '\x7d') with
    | nil =>
      rw [hafter, List.append_nil] at hsplit
      rw [hsplit] at hshort
      exact absurd hshort (Nat.lt_irrefl _)
    | cons c after =>
      have hhead := List.head_dropWhile_not (· ≠ '\x7d') (hafter ▸ List.cons_ne_nil c after)
      have hc : c = '\x7d' := by
        simp only [hafter, List.head_cons] at hhead
        simpa using hhead
      rw [hafter, hc] at hsplit
      exact ⟨_, after, n, hsplit.symm, hindex, hsmall, hargument, rfl⟩
  · rintro ⟨index, after, n, rfl, hindex, hsmall, hargument, rfl⟩
    have hbrace : ∀ c ∈ index, c ≠ '\x7d' := fun c hc h => hindex.not_mem (by decide) (by decide) (h ▸ hc)
    have hbody : (index ++ '\x7d' :: after).takeWhile (· ≠ '\x7d') = index := by
      rw [List.takeWhile_append_of_pos (by simpa using hbrace)]
      simp
    rw [hbody]
    refine ⟨by simp, n, index?_eq_some_iff.2 ⟨hindex, hsmall⟩, hargument, rfl⟩

/-! ## Places are filled -/

theorem fill_place {place : List Char} (h : IsPlaceOf arguments argument place) (after : List Char) :
    fill arguments (place ++ after) = argument.toList ++ fill arguments after := by
  obtain ⟨index, n, rfl, hindex, hsmall, hargument⟩ := h
  have hplace : place? arguments (index ++ '\x7d' :: after) = some (argument, index.length + 1) :=
    place?_eq_some_iff.2 ⟨index, after, n, rfl, hindex, hsmall, hargument, rfl⟩
  simp only [List.cons_append, List.append_assoc, List.nil_append]
  rw [fill, if_pos rfl, hplace]
  simp only [List.drop_length_add_append, List.drop_succ_cons, List.drop_zero]

/-- A character that starts no place stays. -/
theorem fill_cons {c : Char} {rest : List Char}
    (h : ∀ argument place after, IsPlaceOf arguments argument place → c :: rest ≠ place ++ after) :
    fill arguments (c :: rest) = c :: fill arguments rest := by
  have hnone : (if c = '\x7b' then place? arguments rest else none) = none := by
    split
    · subst ‹c = '\x7b'›
      rw [Option.eq_none_iff_forall_ne_some]
      rintro ⟨argument, length⟩ hplace
      obtain ⟨index, after, n, rfl, hindex, hsmall, hargument, -⟩ := place?_eq_some_iff.1 hplace
      exact h argument _ after ⟨index, n, rfl, hindex, hsmall, hargument⟩ (by simp)
    · rfl
  rw [fill, hnone]

/-- A place that starts before another one ends before it. -/
theorem IsPlaceOf.prefix_of_append {other : String} {place place' before after after' : List Char}
    (h : IsPlaceOf arguments argument place) (h' : IsPlaceOf arguments other place') (hne : before ≠ [])
    (heq : before ++ (place ++ after) = place' ++ after') : ∃ rest, before = place' ++ rest := by
  rcases List.append_eq_append_iff.mp heq with ⟨rest, hplace', hrest⟩ | ⟨rest, hbefore, -⟩
  · -- Otherwise the place would hold the brace that opens the later one.
    obtain ⟨index, n, rfl, -⟩ := h
    obtain ⟨index', n', rfl, hindex', -⟩ := h'
    cases rest with
    | nil => exact ⟨[], by rw [hplace', List.append_nil, List.append_nil]⟩
    | cons r rest =>
      obtain ⟨b, before, rfl⟩ := List.exists_cons_of_ne_nil hne
      have hr : r = '\x7b' := (List.cons.inj hrest).1.symm
      have hmem : '\x7b' ∈ index' ++ ['\x7d'] := by
        rw [(List.cons.inj hplace').2, hr]
        simp
      rcases List.mem_append.mp hmem with hmem | hmem
      · exact absurd hmem (hindex'.not_mem (by decide) (by decide))
      · exact absurd hmem (by decide)
  · exact ⟨rest, hbefore⟩

theorem fill_append_place {place : List Char} (h : IsPlaceOf arguments argument place)
    (before after : List Char) :
    fill arguments (before ++ (place ++ after)) =
      fill arguments before ++ (argument.toList ++ fill arguments after) := by
  -- The induction is on the length, since a place in the text before is filled as a whole.
  induction hlength : before.length using Nat.strongRecOn generalizing before with
  | _ length ih =>
    subst hlength
    cases before with
    | nil => rw [List.nil_append, fill_place h, fill, List.nil_append]
    | cons c before =>
      by_cases hstart : ∃ other place' rest, IsPlaceOf arguments other place' ∧ c :: before = place' ++ rest
      · obtain ⟨other, place', rest, hplace', hsplit⟩ := hstart
        have hshorter : rest.length < (c :: before).length := by
          obtain ⟨index, n, rfl, -⟩ := hplace'
          rw [hsplit]
          simp
          omega
        rw [hsplit, List.append_assoc, fill_place hplace', fill_place hplace', ih _ hshorter rest rfl,
          List.append_assoc]
      · have hnone : ∀ other place' rest, IsPlaceOf arguments other place' → c :: before ≠ place' ++ rest :=
          fun other place' rest hplace' heq => hstart ⟨other, place', rest, hplace', heq⟩
        rw [fill_cons hnone, List.cons_append, fill_cons, ih _ (Nat.lt_succ_self _) before rfl, List.cons_append]
        intro other place' rest hplace' heq
        obtain ⟨rest, hbefore⟩ := h.prefix_of_append hplace' (List.cons_ne_nil c before) heq
        exact hnone other place' rest hplace' hbefore

theorem fill_eq_self {text : List Char}
    (h : ∀ argument before place after, IsPlaceOf arguments argument place → text ≠ before ++ (place ++ after)) :
    fill arguments text = text := by
  induction text with
  | nil => rw [fill]
  | cons c rest ih =>
    rw [fill_cons fun argument place after hplace heq => h argument [] place after hplace heq, ih]
    intro argument before place after hplace heq
    exact h argument (c :: before) place after hplace (congrArg (c :: ·) heq)

end Format

namespace Descriptor

open Format

/-- A place for an argument is replaced by the argument as it is, whatever stands before and after it. Where there
    is none, the message is the format. -/
theorem message_exact (d : Descriptor) (arguments : List String) :
    (∀ before place after argument, d.format = before ++ place ++ after →
      IsPlaceOf arguments argument place.toList →
      d.message arguments = ( { d with format := before } : Descriptor).message arguments ++ argument ++
        ( { d with format := after } : Descriptor).message arguments) ∧
    ((¬ ∃ before place after argument, d.format = before ++ place ++ after ∧
      IsPlaceOf arguments argument place.toList) → d.message arguments = d.format) := by
  constructor
  · intro before place after argument hformat hplace
    apply String.toList_injective
    simp only [message, hformat, String.toList_append, String.toList_ofList, List.append_assoc]
    exact fill_append_place hplace before.toList after.toList
  · intro hnone
    apply String.toList_injective
    rw [message, String.toList_ofList]
    refine fill_eq_self fun argument before place after hplace hformat => hnone ?_
    refine ⟨.ofList before, .ofList place, .ofList after, argument, String.toList_injective ?_, ?_⟩
    · simp [hformat]
    · simpa using hplace

end Descriptor

end SettingsLint
