import SettingsLint.Proofs.Token.Tiling

/-! # Tokens before another text

Where a token ends shows by the few characters after it. So the token is read in the same way if
another text stands there that starts alike, or that starts with a character that ends every token,
or none at all (`Lexeme.Resumes`). Only malformed text may go on to the end of the source, and has to
stand there again.
-/

namespace SettingsLint

namespace Lexeme

variable {rest rest' cs : List Char} {p : Char → Bool} {c : Char} {f : List Char → Nat} {n : Nat}
  {e : Extent}

/-- Does the character end every token before it? -/
def isBreak (c : Char) : Bool := c = '(' || c = ',' || c = ')'

/-- Is it clear from the character alone whether a token ends before it? A number may go on after a
    point, or after the letter of an exponent and a sign. -/
def isClear (c : Char) : Bool := !(['.', 'e', 'E', '+', '-'].contains c)

/-- After a token the second text may stand in place of the first one. -/
inductive Resumes : List Char → List Char → Prop where
  | same (rest : List Char) : Resumes rest rest
  | ends {c : Char} (h : isBreak c = true) (rest rest' : List Char) : Resumes rest (c :: rest')
  | clear {c : Char} (h : isClear c = true) (rest rest' : List Char) : Resumes (c :: rest) (c :: rest')
  | cons (c : Char) {rest rest' : List Char} (h : Resumes rest rest') : Resumes (c :: rest) (c :: rest')
  | cut (rest : List Char) : Resumes rest []

theorem Resumes.append (w : List Char) (h : Resumes rest rest') :
    Resumes (w ++ rest) (w ++ rest') := by
  induction w with
  | nil => exact h
  | cons c w ih => exact .cons c ih

/-- The text does not start with such a character. -/
def Stops (p : Char → Bool) (cs : List Char) : Prop := ∀ c ∈ cs.head?, p c = false

/-- A character that ends a token is none of these. -/
def SkipsBreaks (p : Char → Bool) : Prop := ∀ c, isBreak c = true → p c = false

theorem skipsBreaks_of (h1 : p '(' = false) (h2 : p ',' = false)
    (h3 : p ')' = false) : SkipsBreaks p := by
  intro c hc
  simp only [isBreak, Bool.or_eq_true, decide_eq_true_eq] at hc
  rcases hc with (rfl | rfl) | rfl <;> assumption

theorem Resumes.stops (hp : SkipsBreaks p)
    (h : Resumes rest rest') (hs : Stops p rest) : Stops p rest' := by
  cases h with
  | same => exact hs
  | ends hc =>
    intro c hmem
    obtain rfl := Option.some.inj hmem
    exact hp _ hc
  | clear => exact hs
  | cons => exact hs
  | cut => exact fun _ hc => absurd hc (by simp)

theorem Resumes.head?_ne {d : Char} (hd : isBreak d = false)
    (h : Resumes rest rest') (hne : rest.head? ≠ some d) : rest'.head? ≠ some d := by
  intro hhead
  have hskips : SkipsBreaks (· = d) := fun c hc => decide_eq_false fun he => absurd hc (by simp [he, hd])
  have hstops : Stops (· = d) rest := fun c hc => decide_eq_false fun he => hne (he ▸ hc)
  exact absurd (h.stops hskips hstops d hhead) (by simp)

/-! ## Runs -/

section

theorem runLength_append {w rest : List Char} (hw : ∀ c ∈ w, p c = true) (hs : Stops p rest) :
    runLength p (w ++ rest) = w.length := by
  have hrest : rest.takeWhile p = [] := by
    cases rest with
    | nil => rfl
    | cons c cs => exact List.takeWhile_cons_of_neg (by simp [hs c rfl])
  rw [runLength, List.takeWhile_append_of_pos hw, hrest, List.append_nil]

/-- A run is a part of the text, and stops after it. -/
theorem runLength_spec {w r : List Char} (h : runLength p (w ++ r) = w.length) :
    (∀ c ∈ w, p c = true) ∧ Stops p r := by
  induction w with
  | nil =>
    refine ⟨fun c hc => absurd hc List.not_mem_nil, fun c hc => ?_⟩
    obtain ⟨cs, rfl⟩ := List.head?_eq_some_iff.mp hc
    refine Bool.eq_false_iff.mpr fun hpc => ?_
    simp [runLength, hpc] at h
  | cons c w ih =>
    by_cases hc : p c = true
    · have hrest : runLength p (w ++ r) = w.length := by
        simpa [runLength, hc] using h
      exact ⟨List.forall_mem_cons.mpr ⟨hc, (ih hrest).1⟩, (ih hrest).2⟩
    · simp [runLength, hc] at h

theorem runLength_eq_zero (h : Stops p cs) : runLength p cs = 0 :=
  runLength_append (fun _ hc => absurd hc List.not_mem_nil) h

theorem stops_iff_any : Stops p cs ↔ cs.head?.any p = false := by
  cases cs <;> simp [Stops]

theorem runLength_pos_of_any (h : cs.head?.any p = true) :
    0 < runLength p cs := by
  cases cs with
  | nil => exact absurd h (by simp)
  | cons c cs =>
    have hc : p c = true := h
    simp [runLength, hc]

end

/-- The blank characters, by their code points. -/
def blanks : List Nat :=
  [0x9, 0xa, 0xb, 0xc, 0xd, 0x20, 0x85, 0xa0, 0x1680, 0x2000, 0x2001, 0x2002, 0x2003, 0x2004, 0x2005,
    0x2006, 0x2007, 0x2008, 0x2009, 0x200a, 0x2028, 0x2029, 0x202f, 0x205f, 0x3000]

theorem mem_blanks_of_isBlank (h : Text.isBlank c = true) : c.toNat ∈ blanks := by
  simp only [Text.isBlank, Text.Ranges.holds, Text.blankRanges, Bool.or_eq_true, Bool.and_eq_true,
    decide_eq_true_eq, List.any_toArray, List.any_cons, List.any_nil, Bool.false_eq_true, or_false] at h
  simp only [blanks, List.mem_cons]
  rcases h with (rfl | h) | h
  · decide
  · omega
  · omega

/-- No blank character is one of these. -/
def SkipsBlanks (p : Char → Bool) : Prop := ∀ c, Text.isBlank c = true → p c = false

theorem skipsBlanks_of (h : ∀ n ∈ blanks, p (Char.ofNat n) = false) :
    SkipsBlanks p := fun c hc => by
  have := h _ (mem_blanks_of_isBlank hc)
  rwa [Char.ofNat_toNat] at this

theorem unclear_spec (h : isClear c = false) : isBreak c = false ∧ Text.isBlank c = false := by
  have hmem : c ∈ ['.', 'e', 'E', '+', '-'] := by
    simpa only [isClear, Bool.not_eq_false', List.contains_iff_mem] using h
  simp only [List.mem_cons, List.not_mem_nil, or_false] at hmem
  rcases hmem with rfl | rfl | rfl | rfl | rfl <;> decide

/-! ## Measures -/

/-- The measure covers a part of the text in which no character is blank. -/
def Covers (f : List Char → Nat) (cs : List Char) : Prop :=
  ∃ w rest, cs = w ++ rest ∧ f cs = w.length ∧ ∀ c ∈ w, Text.isBlank c = false

theorem covers_zero (h : f cs = 0) : Covers f cs :=
  ⟨[], cs, rfl, h, fun _ hc => absurd hc List.not_mem_nil⟩

/-- One more character is covered. -/
theorem Covers.cons {f g : List Char → Nat} {c : Char} {cs : List Char} (h : Covers g cs)
    (hc : Text.isBlank c = false) (hf : f (c :: cs) = 1 + g cs) : Covers f (c :: cs) := by
  obtain ⟨w, rest, rfl, hg, hw⟩ := h
  exact ⟨c :: w, rest, rfl, by rw [hf, hg, Nat.add_comm]; rfl, List.forall_mem_cons.mpr ⟨hc, hw⟩⟩

/-- What is covered after what is covered. -/
theorem Covers.append {g : List Char → Nat} (hf : Covers f cs)
    (hg : Covers g (cs.drop (f cs))) : Covers (fun cs => f cs + g (cs.drop (f cs))) cs := by
  obtain ⟨w, rest, rfl, hw, hall⟩ := hf
  rw [hw, List.drop_left] at hg
  obtain ⟨w', rest, rfl, hw', hall'⟩ := hg
  refine ⟨w ++ w', rest, by rw [List.append_assoc], ?_, List.forall_mem_append.mpr ⟨hall, hall'⟩⟩
  show f _ + g _ = _
  rw [hw, List.drop_left, hw', List.length_append]

/-- A measure of the start of a text is steady if it covers no blank character and is the same before
    another text. -/
structure Steady (f : List Char → Nat) : Prop where
  covers : ∀ cs, Covers f cs
  same : ∀ {w rest rest'}, f (w ++ rest) = w.length → Resumes rest rest' → f (w ++ rest') = w.length

theorem exists_split {w : List Char} (h : n ≤ w.length) :
    ∃ a b, w = a ++ b ∧ a.length = n :=
  ⟨w.take n, w.drop n, (List.take_append_drop n w).symm, List.length_take_of_le h⟩

/-- What a character leads to: one more than the measure of the text after it. -/
def ledBy (p : Char → Bool) (f : List Char → Nat) : List Char → Nat
  | [] => 0
  | c :: cs => if p c then 1 + f cs else 0

/-- What a character leads to if the measure of the text after it is not 0. -/
def ledTo (p : Char → Bool) (f : List Char → Nat) : List Char → Nat
  | [] => 0
  | c :: cs => if p c ∧ 0 < f cs then 1 + f cs else 0

/-- The second measure where the first one is 0. -/
def eitherOf (f g : List Char → Nat) (cs : List Char) : Nat := if f cs = 0 then g cs else f cs

namespace Steady

variable {g : List Char → Nat} {w : List Char}

/-- What ends within a token is the same before another text. -/
theorem eq (hf : Steady f) (h : f (w ++ rest) ≤ w.length) (hr : Resumes rest rest') :
    f (w ++ rest') = f (w ++ rest) := by
  obtain ⟨a, b, rfl, ha⟩ := exists_split h
  rw [List.append_assoc] at ha
  rw [List.append_assoc, List.append_assoc, ← ha]
  exact hf.same ha.symm (hr.append b)

theorem eq_zero (hf : Steady f) (h : f rest = 0) (hr : Resumes rest rest') : f rest' = 0 :=
  hf.same (w := []) h hr

theorem ofRun (hp : SkipsBreaks p) (hblank : SkipsBlanks p) :
    Steady (runLength p) where
  covers cs := by
    refine ⟨cs.takeWhile p, cs.dropWhile p, List.takeWhile_append_dropWhile.symm, rfl, fun c hc => ?_⟩
    have hpc : p c = true := List.all_eq_true.mp List.all_takeWhile c hc
    refine Bool.eq_false_iff.mpr fun hb => ?_
    rw [hblank c hb] at hpc
    exact Bool.false_ne_true hpc
  same h hr := runLength_append (runLength_spec h).1 (hr.stops hp (runLength_spec h).2)

/-- What is measured after what is measured. -/
theorem append (hf : Steady f) (hg : Steady g) : Steady fun cs => f cs + g (cs.drop (f cs)) where
  covers cs := (hf.covers cs).append (hg.covers _)
  same {w rest rest'} h hr := by
    obtain ⟨a, b, rfl, ha⟩ := exists_split (show f (w ++ rest) ≤ w.length by omega)
    rw [List.append_assoc] at ha h ⊢
    rw [← ha, List.drop_left, List.length_append] at h
    rw [hf.same ha.symm (hr.append b), List.drop_left, hg.same (Nat.add_left_cancel h) hr,
      List.length_append]

theorem lead (hp : SkipsBreaks p) (hblank : SkipsBlanks p) (hf : Steady f) :
    Steady (ledBy p f) where
  covers cs := by
    cases cs with
    | nil => exact covers_zero rfl
    | cons c cs =>
      by_cases hc : p c = true
      · refine (hf.covers cs).cons (Bool.eq_false_iff.mpr fun hb => ?_) (if_pos hc)
        rw [hblank c hb] at hc
        exact Bool.false_ne_true hc
      · exact covers_zero (if_neg hc)
  same {w rest rest'} h hr := by
    cases w with
    | nil =>
      have hstops : Stops p rest := by
        intro c hc
        obtain ⟨cs, rfl⟩ := List.head?_eq_some_iff.mp hc
        refine Bool.eq_false_iff.mpr fun hpc => ?_
        rw [List.nil_append, ledBy, if_pos hpc, List.length_nil] at h
        omega
      have hstops' := hr.stops hp hstops
      cases rest' with
      | nil => rfl
      | cons c cs => exact if_neg (by simp [hstops' c rfl])
    | cons c w =>
      rw [List.cons_append, ledBy, List.length_cons] at h ⊢
      split at h
      case isTrue hc => rw [if_pos hc, hf.same (by omega) hr, Nat.add_comm]
      case isFalse => omega

/-- A character that may lead to more is one after which it is not clear whether a token ends. -/
theorem leadTo (hp : ∀ c, p c = true → isClear c = false) (hf : Steady f) :
    Steady (ledTo p f) where
  covers cs := by
    cases cs with
    | nil => exact covers_zero rfl
    | cons c cs =>
      by_cases hc : p c = true ∧ 0 < f cs
      · exact (hf.covers cs).cons (unclear_spec (hp c hc.1)).2 (if_pos hc)
      · exact covers_zero (if_neg hc)
  same {w rest rest'} h hr := by
    cases w with
    | nil =>
      cases hr with
      | same => exact h
      | ends hc => exact if_neg fun hpc => absurd hc (by simp [(unclear_spec (hp _ hpc.1)).1])
      | clear hc => exact if_neg fun hpc => absurd hc (by simp [hp _ hpc.1])
      | @cons c rest rest' hr =>
        rw [List.nil_append, ledTo, List.length_nil] at h ⊢
        refine if_neg fun hpc => Nat.ne_of_gt hpc.2 (hf.eq_zero (Nat.eq_zero_of_not_pos fun hpos => ?_) hr)
        rw [if_pos ⟨hpc.1, hpos⟩] at h
        omega
      | cut => rfl
    | cons c w =>
      rw [List.cons_append, ledTo, List.length_cons] at h ⊢
      split at h
      case isTrue hc =>
        have hlength : f (w ++ rest) = w.length := by omega
        rw [hlength] at hc
        rw [hf.same hlength hr, if_pos hc, Nat.add_comm]
      case isFalse => omega

theorem either (hf : Steady f) (hg : Steady g) : Steady (eitherOf f g) where
  covers cs := by
    unfold Covers eitherOf
    split
    · exact hg.covers cs
    · exact hf.covers cs
  same {w rest rest'} h hr := by
    unfold eitherOf at h ⊢
    split at h
    case isTrue hzero => rw [if_pos ((hf.eq (by omega) hr).trans hzero), hg.same h hr]
    case isFalse hpos => rw [hf.same h hr, if_neg (h ▸ hpos)]

end Steady

/-! ## Numbers -/

theorem steady_isDigit : Steady (runLength Char.isDigit) :=
  .ofRun (skipsBreaks_of rfl rfl rfl) (skipsBlanks_of (by decide))

theorem steady_isDigitPart : Steady (runLength isDigitPart) :=
  .ofRun (skipsBreaks_of rfl rfl rfl) (skipsBlanks_of (by decide))

theorem steady_isNumberSuffix : Steady (runLength isNumberSuffix) :=
  .ofRun (skipsBreaks_of rfl rfl rfl) (skipsBlanks_of (by decide))

/-- A fraction is led to by the point, and starts with a digit. -/
theorem fractionLength_eq :
    fractionLength = ledTo (· = '.') (ledBy Char.isDigit (runLength isDigitPart)) := by
  funext cs
  unfold fractionLength
  split
  case h_1 d cs =>
    by_cases hd : d.isDigit = true
    · simp [ledTo, ledBy, hd, runLength, isDigitPart, Nat.add_comm]
    · simp [ledTo, ledBy, hd]
  case h_2 hne =>
    rcases cs with _ | ⟨c, _ | ⟨d, cs⟩⟩
    · rfl
    · simp [ledTo, ledBy]
    · exact (if_neg fun h => hne d cs (by rw [of_decide_eq_true h.1])).symm

theorem fractionLength_point (h : cs.head?.any Char.isDigit = true) :
    1 < fractionLength ('.' :: cs) := by
  cases cs with
  | nil => exact absurd h (by simp)
  | cons d cs =>
    have hd : d.isDigit = true := h
    simp [fractionLength, hd, runLength, isDigitPart]

/-- An exponent is led to by its letter: digits, perhaps after a sign. -/
theorem exponentLength_eq : exponentLength = ledTo (fun c => c = 'e' || c = 'E')
    (eitherOf (runLength Char.isDigit) (ledTo (fun c => c = '+' || c = '-') (runLength Char.isDigit))) := by
  funext cs
  match cs with
  | [] => rfl
  | [c] => simp [exponentLength, ledTo, eitherOf, runLength]
  | c :: d :: cs =>
    rw [exponentLength, ledTo, eitherOf]
    by_cases hc : (c = 'e' || c = 'E') = true
    · by_cases hd : d.isDigit = true
      · simp [hd, runLength]
      · have hzero : runLength Char.isDigit (d :: cs) = 0 := by simp [runLength, hd]
        rw [if_pos hc, if_neg hd, ledTo]
        simp only [Bool.and_eq_true, decide_eq_true_eq, hc, true_and]
        split
        · rw [if_pos (by omega)]
          omega
        · rfl
    · rw [if_neg hc, if_neg fun h => hc h.1]

theorem steady_fractionLength : Steady fractionLength := by
  rw [fractionLength_eq]
  exact ((steady_isDigitPart).lead (skipsBreaks_of rfl rfl rfl) (skipsBlanks_of (by decide))).leadTo
    (by simp [isClear])

theorem steady_exponentLength : Steady exponentLength := by
  rw [exponentLength_eq]
  exact ((steady_isDigit).either ((steady_isDigit).leadTo (by simp [isClear]))).leadTo (by simp [isClear])

/-- The length of a number without a radix and a suffix, and whether it has a fraction or an
    exponent. -/
def decimal (cs : List Char) : Nat × Bool :=
  let whole := runLength isDigitPart cs
  let fraction := fractionLength (cs.drop whole)
  let exponent := exponentLength (cs.drop (whole + fraction))
  (whole + fraction + exponent, 0 < fraction || 0 < exponent)

theorem steady_decimal : Steady fun cs => (decimal cs).1 :=
  ((steady_isDigitPart).append steady_fractionLength).append steady_exponentLength

/-- The length of what follows the `0` of a number with a radix. -/
def radixLength : List Char → Nat :=
  ledBy (fun x => x = 'x' || x = 'X' || x = 'b' || x = 'B') (runLength isHexDigitPart)

theorem steady_radixLength : Steady radixLength :=
  (Steady.ofRun (skipsBreaks_of rfl rfl rfl) (skipsBlanks_of (by decide))).lead
    (skipsBreaks_of rfl rfl rfl) (skipsBlanks_of (by decide))

theorem numberBody_cons (c : Char) (cs : List Char) : numberBody (c :: cs) =
    if c = '0' ∧ 0 < radixLength cs then (1 + radixLength cs, false) else decimal (c :: cs) := by
  by_cases hc : c = '0'
  · subst hc
    cases cs with
    | nil => rfl
    | cons x cs =>
      rw [numberBody, startsRadix, radixLength, ledBy]
      split
      · rw [if_pos ⟨rfl, by omega⟩]
        exact congrArg (·, false) (Nat.add_assoc 1 1 _)
      · rfl
  · have hradix : startsRadix (c :: cs) = false := by
      unfold startsRadix
      split
      case h_1 heq => exact absurd (List.cons.inj heq).1 hc
      case h_2 => rfl
    rw [numberBody, if_neg (by simp [hradix]), if_neg fun h => hc h.1]
    rfl

theorem covers_numberBody (c : Char) (cs : List Char) : Covers (fun cs => (numberBody cs).1) (c :: cs) := by
  unfold Covers
  dsimp only
  rw [numberBody_cons]
  split
  case isTrue h =>
    obtain ⟨rfl, -⟩ := h
    exact ((steady_radixLength).covers cs).cons (f := fun cs => 1 + radixLength (cs.drop 1)) rfl rfl
  case isFalse => exact (steady_decimal).covers (c :: cs)

theorem covers_number (c : Char) (cs : List Char) : Covers (fun cs => (number cs).length) (c :: cs) :=
  (covers_numberBody c cs).append ((steady_isNumberSuffix).covers _)

variable {w : List Char}

theorem decimal_eq (h : (decimal (w ++ rest)).1 ≤ w.length) (hr : Resumes rest rest') :
    decimal (w ++ rest') = decimal (w ++ rest) := by
  unfold decimal at h ⊢
  dsimp only at h ⊢
  have hwhole : runLength isDigitPart (w ++ rest') = runLength isDigitPart (w ++ rest) :=
    (steady_isDigitPart).eq (by omega) hr
  rw [hwhole]
  generalize runLength isDigitPart (w ++ rest) = whole at h ⊢
  have hfraction : fractionLength ((w ++ rest').drop whole) = fractionLength ((w ++ rest).drop whole) := by
    rw [List.drop_append_of_le_length (by omega)] at h ⊢
    rw [List.drop_append_of_le_length (by omega)]
    exact (steady_fractionLength).eq (by rw [List.length_drop]; omega) hr
  rw [hfraction]
  generalize whole + fractionLength ((w ++ rest).drop whole) = both at h ⊢
  have hexponent : exponentLength ((w ++ rest').drop both) = exponentLength ((w ++ rest).drop both) := by
    rw [List.drop_append_of_le_length (by omega)] at h ⊢
    rw [List.drop_append_of_le_length (by omega)]
    exact steady_exponentLength.eq (by rw [List.length_drop]; omega) hr
  rw [hexponent]

/-- A number without its suffix is the same before another text. -/
theorem numberBody_eq (h : (numberBody (c :: (w ++ rest))).1 ≤ w.length + 1)
    (hr : Resumes rest rest') : numberBody (c :: (w ++ rest')) = numberBody (c :: (w ++ rest)) := by
  rw [numberBody_cons, numberBody_cons] at *
  split at h
  case isTrue hradix =>
    have hsame := (steady_radixLength).eq (w := w) (by omega) hr
    rw [hsame, if_pos hradix, if_pos hradix]
  case isFalse hradix =>
    have hradix' : ¬(c = '0' ∧ 0 < radixLength (w ++ rest')) := by
      rintro ⟨rfl, hpos⟩
      have hzero : radixLength (w ++ rest) = 0 := Nat.eq_zero_of_not_pos fun hpos => hradix ⟨rfl, hpos⟩
      rw [(steady_radixLength).eq (by omega) hr, hzero] at hpos
      exact Nat.lt_irrefl 0 hpos
    rw [if_neg hradix, if_neg hradix']
    exact decimal_eq (w := c :: w) h hr

/-- A number is the same before another text. -/
theorem number_eq (h : (number (c :: (w ++ rest))).length = w.length + 1)
    (hr : Resumes rest rest') : number (c :: (w ++ rest')) = number (c :: (w ++ rest)) := by
  have hbody := numberBody_eq (c := c) (w := w) (h ▸ Nat.le_add_right _ _) hr
  rw [number, number, hbody]
  rw [number] at h
  generalize numberBody (c :: (w ++ rest)) = body at h ⊢
  obtain ⟨length, hasPoint⟩ := body
  dsimp only at h ⊢
  have hle : length ≤ (c :: w).length := by rw [List.length_cons]; omega
  have hdrop (cs : List Char) : (c :: (w ++ cs)).drop length = (c :: w).drop length ++ cs :=
    List.drop_append_of_le_length hle
  have hx : ((c :: w).drop length).length + length = w.length + 1 := by
    rw [List.length_drop]
    exact Nat.sub_add_cancel hle
  rw [hdrop] at h
  rw [hdrop, hdrop]
  generalize (c :: w).drop length = x at h hx ⊢
  have hrun : runLength isNumberSuffix (x ++ rest) = x.length := by omega
  have hrun' := (steady_isNumberSuffix).same hrun hr
  -- Without a suffix no letter follows that would be one.
  have hsuffix : (x ++ rest').head?.any isRealSuffix = (x ++ rest).head?.any isRealSuffix := by
    cases x with
    | cons c x => rfl
    | nil =>
      have hreal {cs : List Char} (hs : Stops isNumberSuffix cs) : cs.head?.any isRealSuffix = false := by
        refine stops_iff_any.1 fun c hc => ?_
        have := hs c hc
        simp only [isNumberSuffix, Bool.or_eq_false_iff] at this
        exact this.2
      rw [List.nil_append, List.nil_append, hreal (runLength_spec hrun).2, hreal (runLength_spec hrun').2]
  rw [hsuffix, hrun, hrun']

/-! ## Strings and characters -/

theorem Extent.after_eq {m : Nat} {closed : Bool} (h : e.after n = ⟨m, closed⟩) :
    e = ⟨m - n, closed⟩ ∧ n ≤ m := by
  simp only [Extent.after, Extent.mk.injEq] at h
  obtain ⟨hlength, rfl⟩ := h
  exact ⟨by rw [← hlength, Nat.add_sub_cancel_left], by omega⟩

theorem Extent.after_mk {m k : Nat} {closed : Bool} (h : n + m = k) :
    (Extent.mk m closed).after n = ⟨k, closed⟩ := by
  rw [Extent.after, h]

/-- The first `n` characters end with the character. -/
def EndsWith (c : Char) (n : Nat) (cs : List Char) : Prop := ∃ w rest, cs = w ++ c :: rest ∧ n = w.length + 1

theorem EndsWith.of_drop {k : Nat} (h : EndsWith c n (cs.drop k)) :
    EndsWith c (k + n) cs := by
  obtain ⟨w, rest, heq, rfl⟩ := h
  have hle : k ≤ cs.length := by
    refine Nat.le_of_lt (Nat.lt_of_not_le fun hle => ?_)
    rw [List.drop_eq_nil_of_le hle] at heq
    exact absurd heq.symm (by simp)
  refine ⟨cs.take k ++ w, rest, ?_, ?_⟩
  · rw [List.append_assoc, ← heq, List.take_append_drop]
  · rw [List.length_append, List.length_take_of_le hle]
    omega

/-- How the rest of a literal is read. -/
structure Scanner (σ : Type) where
  /-- How many characters are read next, from the character and the one after it, and the state after
      them. Nothing if the literal is closed or faulty there. -/
  step : σ → Char → Option Char → Option (Nat × σ)
  /-- The character that closes the literal. -/
  closing : Char
  pos : ∀ {q c next n q'}, step q c next = some (n, q') → 0 < n
  /-- The character after the closing one shows only that it is not another one. -/
  closed : ∀ {q next next'}, step q closing next = none →
    (next ≠ some closing → next' ≠ some closing) → step q closing next' = none
  /-- A fault inside the text does not lie in the character after it. -/
  faulty : ∀ {q c d next}, step q c (some d) = none → c ≠ closing → step q c next = none
  unbroken : isBreak closing = false

namespace Scanner

variable {σ : Type} {S : Scanner σ} {tail : σ → List Char → Extent} {q : σ}

/-- The function measures what the scanner reads. -/
def Measures (S : Scanner σ) (tail : σ → List Char → Extent) : Prop :=
  ∀ q cs, tail q cs = match cs with
    | [] => ⟨0, false⟩
    | c :: cs =>
      match S.step q c cs.head? with
      | some (n, q) => (tail q (cs.drop (n - 1))).after n
      | none => ⟨1, c = S.closing⟩

/-- A literal that is closed ends with the character that closes it. -/
theorem Measures.endsWith (hS : S.Measures tail) {n : Nat} {cs : List Char} (h : tail q cs = ⟨n, true⟩) :
    EndsWith S.closing n cs := by
  induction hn : cs.length using Nat.strongRecOn generalizing cs q n with
  | _ size ih =>
    rw [hS] at h
    split at h
    case h_1 => exact absurd h (by simp)
    case h_2 c cs =>
      split at h
      case h_1 k q' hstep =>
        have hpos := S.pos hstep
        obtain ⟨htail, hle⟩ := Extent.after_eq h
        have hend := ih _ (by rw [← hn, List.length_drop, List.length_cons]; omega) htail rfl
        have hdrop : (c :: cs).drop k = cs.drop (k - 1) := by
          obtain ⟨j, rfl⟩ : ∃ j, k = j + 1 := ⟨k - 1, by omega⟩
          rfl
        rw [← hdrop] at hend
        have := hend.of_drop
        rwa [Nat.add_sub_cancel' hle] at this
      case h_2 =>
        rw [Extent.mk.injEq, decide_eq_true_eq] at h
        obtain ⟨rfl, rfl⟩ := h
        exact ⟨[], cs, rfl, rfl⟩

variable {closed : Bool}

/-- Nothing is read only at the end of the text. -/
theorem Measures.of_zero (hS : S.Measures tail) (h : tail q cs = ⟨0, closed⟩) :
    cs = [] ∧ closed = false := by
  rw [hS] at h
  split at h
  case h_1 => exact ⟨rfl, (Extent.mk.inj h).2.symm⟩
  case h_2 =>
    split at h
    case h_1 hstep =>
      have := S.pos hstep
      have := (Extent.mk.inj h).1
      omega
    case h_2 => exact absurd h (by simp)

/-- A literal is the same before another text. An open one at the end has to stay there. -/
theorem Measures.eq (hS : S.Measures tail) (hr : Resumes rest rest')
    (hopen : closed = false → rest = [] → rest' = [])
    (h : tail q (w ++ rest) = ⟨w.length, closed⟩) : tail q (w ++ rest') = ⟨w.length, closed⟩ := by
  induction hn : w.length using Nat.strongRecOn generalizing w q with
  | _ n ih =>
    subst hn
    cases w with
    | nil =>
      obtain ⟨rfl, hclosed⟩ := hS.of_zero h
      rwa [hopen hclosed rfl]
    | cons c w =>
      rw [hS, List.cons_append] at h ⊢
      dsimp only at h ⊢
      cases hstep : S.step q c (w ++ rest).head? with
      | none =>
        rw [hstep, Extent.mk.injEq] at h
        obtain ⟨hlength, rfl⟩ := h
        obtain rfl : w = [] := List.eq_nil_of_length_eq_zero (by simpa using hlength.symm)
        have hstep' : S.step q c rest'.head? = none := by
          by_cases hc : c = S.closing
          · subst hc
            exact S.closed hstep (hr.head?_ne S.unbroken)
          · cases rest with
            | nil => rwa [hopen (decide_eq_false hc) rfl]
            | cons d rest => exact S.faulty hstep hc
        rw [List.nil_append, hstep']
        rfl
      | some step =>
        obtain ⟨k, q'⟩ := step
        rw [hstep] at h
        obtain ⟨htail, hk⟩ := Extent.after_eq h
        have hkpos := S.pos hstep
        rw [List.length_cons] at htail hk
        have hhead : (w ++ rest').head? = (w ++ rest).head? := by
          cases w with
          | nil =>
            obtain rfl : k = 1 := by simpa using Nat.le_antisymm hk hkpos
            obtain ⟨rfl, hclosed⟩ := hS.of_zero htail
            rw [hopen hclosed rfl]
          | cons x w => rfl
        have hdrop (cs : List Char) : (w ++ cs).drop (k - 1) = w.drop (k - 1) ++ cs :=
          List.drop_append_of_le_length (by omega)
        have hlength : (w.drop (k - 1)).length = w.length + 1 - k := by
          rw [List.length_drop]
          omega
        rw [hdrop, ← hlength] at htail
        rw [hhead, hstep]
        dsimp only
        rw [hdrop, ih _ (by rw [hlength, List.length_cons]; omega) htail rfl]
        exact Extent.after_mk (by rw [List.length_cons]; omega)

end Scanner

/-- How many characters of a string are read next, and how deep the text after them stands in holes;
    `next` is the character after the first one. Nothing if the string is closed or faulty there. -/
def stringStep (style : StringStyle) (depth : Nat) (c : Char) (next : Option Char) :
    Option (Nat × Nat) :=
  if c = '\n' && !style.verbatim && depth = 0 then none
  else if c = '\\' && !style.verbatim then next.map fun _ => (2, depth)
  else if c = '\x7b' && style.interpolated then
    next.map fun d => if depth = 0 && d = '\x7b' then (2, depth) else (1, depth + 1)
  else if c = '\x7d' && style.interpolated && 0 < depth then some (1, depth - 1)
  else if c = '"' && depth = 0 then
    if style.verbatim && next = some '"' then some (2, depth) else none
  else some (1, depth)

/-- The scanner of a string; its state is how deep the text stands in holes. -/
def stringScanner (style : StringStyle) : Scanner Nat where
  step := stringStep style
  closing := '"'
  pos {depth c next n d} h := by
    unfold stringStep at h
    cases next <;> grind
  closed h hnext := by
    simp [stringStep] at h ⊢
    grind
  faulty h hc := by
    simp [stringStep] at h ⊢
    grind
  unbroken := rfl

theorem measures_stringTail (style : StringStyle) : (stringScanner style).Measures (stringTail style) := by
  intro depth cs
  cases cs with
  | nil => rfl
  | cons c cs =>
    dsimp only [stringScanner]
    rw [stringTail.eq_def, stringStep.eq_def]
    dsimp only
    split
    case isTrue h =>
      have hc : c ≠ '"' := by rintro rfl; simp at h
      simp [hc]
    split
    case isTrue h =>
      have hc : c ≠ '"' := by rintro rfl; simp at h
      cases cs <;> simp [hc]
    split
    case isTrue h =>
      have hc : c ≠ '"' := by rintro rfl; simp at h
      cases cs with
      | nil => simp [hc]
      | cons d ds =>
        dsimp only [List.head?_cons, Option.map_some]
        split <;> rfl
    split
    case isTrue => rfl
    split
    case isTrue h =>
      have hc : c = '"' := by simp_all
      cases cs with
      | nil => simp [hc]
      | cons d ds =>
        simp only [List.head?_cons, Option.some.injEq]
        split <;> simp [hc]
    case isFalse => rfl

/-- The scanner of a raw string; its state is the number of quotes just before the text. -/
def rawStringScanner (quotes : Nat) : Scanner Nat where
  step seen c _ :=
    if c = '"' then if seen + 1 = quotes then none else some (1, seen + 1) else some (1, 0)
  closing := '"'
  pos h := by grind
  closed h _ := h
  faulty h _ := h
  unbroken := rfl

theorem measures_rawStringTail (quotes : Nat) :
    (rawStringScanner quotes).Measures (rawStringTail quotes) := by
  intro seen cs
  cases cs with
  | nil => rfl
  | cons c cs =>
    by_cases hc : c = '"' <;> by_cases hclosed : seen + 1 = quotes <;>
      simp [rawStringTail, rawStringScanner, hc, hclosed]

/-- The scanner of a character literal. -/
def charScanner : Scanner Unit where
  step _ c next :=
    if c = '\n' then none
    else if c = '\\' then next.map fun _ => (2, ())
    else if c = '\x27' then none
    else some (1, ())
  closing := '\x27'
  pos {_ _ next _ _} h := by cases next <;> grind
  closed h _ := h
  faulty h _ := by grind
  unbroken := rfl

theorem measures_charTail : charScanner.Measures fun _ => charTail := by
  intro q cs
  cases cs with
  | nil => rfl
  | cons c cs =>
    dsimp only [charScanner]
    rw [charTail.eq_def]
    by_cases h1 : c = '\n'
    · simp [h1]
    by_cases h2 : c = '\\'
    · cases cs <;> simp [h2]
    by_cases h3 : c = '\x27' <;> simp [h1, h2, h3]

theorem steady_quotes : Steady (runLength (· = '"')) :=
  .ofRun (skipsBreaks_of rfl rfl rfl) (skipsBlanks_of (by decide))

/-- A string from its opening quote on is the same before another text. -/
theorem quoted_eq {style : StringStyle} {closed : Bool} (hr : Resumes rest rest')
    (hopen : closed = false → rest = [] → rest' = [])
    (h : quoted style (w ++ rest) = ⟨w.length, closed⟩) :
    quoted style (w ++ rest') = ⟨w.length, closed⟩ := by
  rw [quoted] at h ⊢
  split at h
  case isTrue hraw =>
    obtain ⟨htail, hle⟩ := Extent.after_eq h
    have hrun := (steady_quotes).eq hle hr
    obtain ⟨q, x, rfl, hq⟩ := exists_split hle
    rw [← hq, List.append_assoc, List.drop_left, List.length_append, Nat.add_sub_cancel_left] at htail
    rw [hrun, if_pos hraw, ← hq, List.append_assoc, List.drop_left, (measures_rawStringTail _).eq hr hopen htail,
      List.length_append]
    rfl
  case isFalse hfew =>
    obtain ⟨htail, hle⟩ := Extent.after_eq h
    obtain ⟨c, w, rfl⟩ := List.exists_cons_of_ne_nil (List.ne_nil_of_length_pos hle)
    have hle : runLength (· = '"') (c :: w ++ rest) ≤ (c :: w).length := by
      cases w with
      | nil =>
        obtain ⟨rfl, -⟩ := (measures_stringTail style).of_zero htail
        exact (List.takeWhile_sublist _).length_le
      | cons d w =>
        simp only [List.length_cons]
        omega
    rw [(steady_quotes).eq hle hr, if_neg hfew, List.cons_append, List.drop_succ_cons, List.drop_zero,
      (measures_stringTail style).eq hr hopen htail]
    exact Extent.after_mk (Nat.add_comm ..)

theorem endsWith_quoted {style : StringStyle}
    (h : quoted style cs = ⟨n, true⟩) : EndsWith '"' n cs := by
  rw [quoted] at h
  split at h
  · obtain ⟨htail, hle⟩ := Extent.after_eq h
    have := ((measures_rawStringTail _).endsWith htail).of_drop
    rwa [Nat.add_sub_cancel' hle] at this
  · obtain ⟨htail, hle⟩ := Extent.after_eq h
    have := ((measures_stringTail style).endsWith htail).of_drop
    rwa [Nat.add_sub_cancel' hle] at this

theorem takeWhile_eq {a : List Char} (ha : ∀ c ∈ a, p c = true) (hs : Stops p cs) :
    (a ++ cs).takeWhile p = a := by
  have hcs : cs.takeWhile p = [] := List.eq_nil_of_length_eq_zero (runLength_eq_zero hs)
  rw [List.takeWhile_append_of_pos ha, hcs, List.append_nil]

theorem markedString_append {a : List Char} (ha : ∀ c ∈ a, isStringMark c = true)
    (hs : Stops isStringMark cs) : markedString (a ++ cs) =
      if cs.head? = some '"' then
        ((quoted ⟨a.contains '@', a.contains '$'⟩ cs).after a.length).lexeme .string
      else ⟨.malformed, a.length⟩ := by
  rw [markedString, takeWhile_eq ha hs, List.drop_left]

theorem Extent.eq_closed (hlength : e.length = n) (hclosed : e.closed = true) :
    e = ⟨n, true⟩ := by
  rw [← hlength, ← hclosed]

/-- A closed literal is one of its class. -/
theorem Extent.closed_of_lexeme {cls : LexemeClass}
    (h : (e.lexeme cls).cls ≠ .malformed) : e.closed = true := by
  refine Decidable.byContradiction fun hopen => h ?_
  rw [Extent.lexeme, if_neg hopen]

theorem quoted_pos (style : StringStyle) (cs : List Char) : 0 < (quoted style cs).length := by
  rw [quoted]
  split
  · exact Nat.lt_of_lt_of_le (by omega) (Nat.le_add_right _ _)
  · exact Nat.lt_of_lt_of_le Nat.one_pos (Nat.le_add_right _ _)

/-- A literal is the same before another text if its extent is. -/
theorem Extent.lexeme_eq {e' : Extent} {cls : LexemeClass} {P : Prop}
    (hopen : (e.lexeme cls).cls = .malformed → P) (hlength : (e.lexeme cls).length = n)
    (h : ∀ {closed}, (closed = false → P) → e = ⟨n, closed⟩ → e' = ⟨n, closed⟩) :
    e'.lexeme cls = e.lexeme cls := by
  have he : e = ⟨n, e.closed⟩ := hlength ▸ rfl
  rw [h (fun hc => hopen (by rw [Extent.lexeme, hc]; rfl)) he, ← he]

/-- A string after its marks is the same before another text. -/
theorem markedString_eq (hr : Resumes rest rest')
    (hopen : (markedString (w ++ rest)).cls = .malformed → rest = [] → rest' = [])
    (h : (markedString (w ++ rest)).length = w.length) :
    markedString (w ++ rest') = markedString (w ++ rest) := by
  -- The marks, and the text from the quote on.
  obtain ⟨a, cs, heq, ha⟩ := exists_split (List.takeWhile_sublist (l := w ++ rest) isStringMark).length_le
  have hspec := runLength_spec (by rw [← heq, ha, runLength])
  rw [heq, markedString_append hspec.1 hspec.2] at h hopen
  split at h
  case isFalse hquote =>
    -- Marks without a string are a token, too.
    obtain ⟨rfl, rfl⟩ := List.append_inj heq h.symm
    have hstops := hr.stops (skipsBreaks_of rfl rfl rfl) hspec.2
    rw [markedString_append hspec.1 hspec.2, markedString_append hspec.1 hstops, if_neg hquote,
      if_neg (hr.head?_ne rfl hquote)]
  case isTrue hquote =>
    rw [if_pos hquote] at hopen
    have hpos := quoted_pos ⟨a.contains '@', a.contains '$'⟩ cs
    change a.length + (quoted _ cs).length = w.length at h
    -- The quote is a part of the token.
    obtain ⟨b, rfl, rfl⟩ : ∃ b, w = a ++ b ∧ cs = b ++ rest := by
      rcases List.append_eq_append_iff.mp heq with ⟨b, rfl, rfl⟩ | ⟨b, rfl, rfl⟩
      · rw [List.length_append] at h
        omega
      · exact ⟨b, rfl, rfl⟩
    have hb : b ≠ [] := by
      rintro rfl
      rw [List.append_nil] at h
      omega
    have hhead : (b ++ rest').head? = (b ++ rest).head? := by
      obtain ⟨c, b, rfl⟩ := List.exists_cons_of_ne_nil hb
      rfl
    have hstops : Stops isStringMark (b ++ rest') := by
      rw [Stops, hhead]
      exact hspec.2
    rw [heq, List.append_assoc, markedString_append hspec.1 hspec.2, markedString_append hspec.1 hstops,
      hhead, if_pos hquote, if_pos hquote]
    refine Extent.lexeme_eq hopen h fun hopen he => ?_
    obtain ⟨hquoted, -⟩ := Extent.after_eq he
    rw [List.length_append, Nat.add_sub_cancel_left] at hquoted
    rw [quoted_eq hr hopen hquoted, List.length_append]
    rfl

/-! ## Tokens -/

theorem punctuation_of_ne (h1 : c ≠ ':') (h2 : c ≠ '=') (cs cs' : List Char) :
    punctuation c cs = punctuation c cs' := by
  unfold punctuation
  split <;> first | rfl | contradiction

/-- A mark is the same before another text. -/
theorem punctuation_eq (hr : Resumes rest rest')
    (h : (punctuation c (w ++ rest)).length = w.length + 1) :
    punctuation c (w ++ rest') = punctuation c (w ++ rest) := by
  have hyes {d : Char} (hw : w ≠ []) (heq : (w ++ rest).head? = some d) :
      (w ++ rest').head? = some d := by
    obtain ⟨x, w, rfl⟩ := List.exists_cons_of_ne_nil hw
    exact heq
  have hlong (hw : 2 = w.length + 1) : w ≠ [] := by
    rintro rfl
    exact absurd hw (by simp)
  by_cases h1 : c = ':'
  · subst h1
    simp only [punctuation] at h ⊢
    split at h
    case isTrue hhead => rw [if_pos hhead, if_pos (hyes (hlong h) hhead)]
    case isFalse hhead => rw [if_neg hhead, if_neg ((hr.append w).head?_ne rfl hhead)]
  by_cases h2 : c = '='
  · subst h2
    simp only [punctuation] at h ⊢
    split at h
    case isTrue hhead => rw [if_pos hhead, if_pos (hyes (hlong h) hhead)]
    case isFalse hhead => rw [if_neg hhead, if_neg ((hr.append w).head?_ne rfl hhead)]
  exact punctuation_of_ne h1 h2 _ _

/-- Ranges that miss all blank characters hold none of them. -/
theorem skipsBlanks_holds (ranges : Text.Ranges) (h : (ranges.toList.all fun range =>
    blanks.all fun n => Nat.blt n range.1 || Nat.blt range.2 n) = true) : SkipsBlanks ranges.holds := by
  intro c hc
  refine Bool.eq_false_iff.mpr fun hholds => ?_
  rw [Text.Ranges.holds, ← Array.any_toList, Bool.and_eq_true, List.any_eq_true] at hholds
  obtain ⟨-, range, hrange, hin⟩ := hholds
  have hmiss := List.all_eq_true.mp (List.all_eq_true.mp h range hrange) _ (mem_blanks_of_isBlank hc)
  simp only [Bool.or_eq_true, Bool.and_eq_true, Nat.blt_eq, decide_eq_true_eq] at hmiss hin
  omega

theorem skipsBlanks_isNamePart : SkipsBlanks isNamePart := by
  intro c hc
  have hascii : c ≠ '_' ∧ c.isAlpha = false ∧ c.isDigit = false := by
    have h : SkipsBlanks (fun c => c = '_' || c.isAlpha || c.isDigit) :=
      skipsBlanks_of (by decide)
    have := h c hc
    simp only [Bool.or_eq_false_iff, decide_eq_false_iff_not] at this
    exact ⟨this.1.1, this.1.2, this.2⟩
  have hletter := skipsBlanks_holds Text.alphabeticRanges (by decide +kernel) c hc
  have hnumber := skipsBlanks_holds Text.numericRanges (by decide +kernel) c hc
  simp [isNamePart, Text.isAlphabetic, Text.isNumeric, hascii, hletter, hnumber]

theorem steady_isNamePart : Steady (runLength isNamePart) :=
  .ofRun (skipsBreaks_of (by decide) (by decide) (by decide)) skipsBlanks_isNamePart

theorem skipsBreaks_isNameStart : SkipsBreaks isNameStart :=
  skipsBreaks_of (by decide) (by decide) (by decide)

theorem any_isNamePart (h : cs.head?.any isNameStart = true) :
    cs.head?.any isNamePart = true := by
  cases cs with
  | nil => exact h
  | cons c cs =>
    have hc : isNameStart c = true := h
    simp only [isNameStart, Bool.or_eq_true] at hc
    rcases hc with hc | hc <;> simp [isNamePart, hc]

/-- A number that starts with a point has a digit after it. -/
theorem number_point_length (h : cs.head?.any Char.isDigit = true) :
    1 < (number ('.' :: cs)).length := by
  have hfraction := fractionLength_point h
  have hbody : 1 < (numberBody ('.' :: cs)).1 := by
    show 1 < 0 + fractionLength ('.' :: cs) + exponentLength _
    omega
  exact Nat.lt_of_lt_of_le hbody (Nat.le_add_right _ _)

/-- What is asked of the character after the first one is the same before another text. -/
theorem head?_any_eq (hp : SkipsBreaks p)
    (hr : Resumes rest rest') (hw : (w ++ rest).head?.any p = true → w ≠ []) :
    (w ++ rest').head?.any p = (w ++ rest).head?.any p := by
  cases hany : (w ++ rest).head?.any p with
  | true =>
    obtain ⟨x, w, rfl⟩ := List.exists_cons_of_ne_nil (hw hany)
    exact hany
  | false => exact stops_iff_any.1 ((hr.append w).stops hp (stops_iff_any.2 hany))

/-- A token is the same before another text. -/
theorem ofText_eq (hr : Resumes rest rest')
    (hopen : (ofText c (w ++ rest)).cls = .malformed → rest = [] → rest' = [])
    (h : (ofText c (w ++ rest)).length = w.length + 1) :
    ofText c (w ++ rest') = ofText c (w ++ rest) := by
  have hname (hrun : 1 + runLength isNamePart (w ++ rest) = w.length + 1) :
      runLength isNamePart (w ++ rest') = runLength isNamePart (w ++ rest) :=
    (steady_isNamePart).eq (by omega) hr
  unfold ofText at h hopen ⊢
  by_cases h1 : isNameStart c = true
  · rw [if_pos h1] at h
    rw [if_pos h1, if_pos h1, hname h]
  rw [if_neg h1] at h hopen
  rw [if_neg h1, if_neg h1]
  have hsame2 : c = '@' → (w ++ rest').head?.any isNameStart = (w ++ rest).head?.any isNameStart := by
    intro hc
    refine head?_any_eq skipsBreaks_isNameStart hr fun hany => ?_
    rw [if_pos (by rw [hany, decide_eq_true hc]; rfl)] at h
    have hpos := runLength_pos_of_any (any_isNamePart hany)
    rintro rfl
    rw [List.length_nil] at h
    dsimp only at h
    omega
  by_cases h2 : (c = '@' && (w ++ rest).head?.any isNameStart) = true
  · have hc : c = '@' := by simp_all
    rw [if_pos h2] at h
    rw [if_pos h2, hsame2 hc, if_pos h2, hname h]
  have h2' : ¬(c = '@' && (w ++ rest').head?.any isNameStart) = true := by
    intro hgo
    have hc : c = '@' := by simp_all
    exact h2 (hsame2 hc ▸ hgo)
  rw [if_neg h2] at h hopen
  rw [if_neg h2, if_neg h2']
  by_cases h3 : isStringMark c = true
  · rw [if_pos h3] at h hopen
    rw [if_pos h3, if_pos h3]
    exact markedString_eq (w := c :: w) hr hopen h
  rw [if_neg h3] at h hopen
  rw [if_neg h3, if_neg h3]
  by_cases h4 : c = '"'
  · rw [if_pos h4] at h hopen
    rw [if_pos h4, if_pos h4]
    exact Extent.lexeme_eq hopen h fun hopen he => quoted_eq (w := c :: w) hr hopen he
  rw [if_neg h4] at h hopen
  rw [if_neg h4, if_neg h4]
  by_cases h5 : c = '\x27'
  · rw [if_pos h5] at h hopen
    rw [if_pos h5, if_pos h5]
    refine Extent.lexeme_eq hopen h fun hopen he => ?_
    rw [(measures_charTail).eq (q := ()) hr hopen (Extent.after_eq he).1]
    exact Extent.after_mk (Nat.add_comm ..)
  rw [if_neg h5] at h hopen
  rw [if_neg h5, if_neg h5]
  have hsame6 : (c = '.' && (w ++ rest').head?.any Char.isDigit)
      = (c = '.' && (w ++ rest).head?.any Char.isDigit) := by
    by_cases hc : c = '.'
    · subst hc
      refine congrArg _ (head?_any_eq (skipsBreaks_of rfl rfl rfl) hr fun hany => ?_)
      rw [if_pos (by rw [hany]; rfl)] at h
      rintro rfl
      have hfraction := number_point_length hany
      rw [List.length_nil] at h
      omega
    · simp [hc]
  rw [hsame6]
  by_cases h6 : (c.isDigit || (c = '.' && (w ++ rest).head?.any Char.isDigit)) = true
  · rw [if_pos h6] at h hopen
    rw [if_pos h6, if_pos h6]
    exact number_eq h hr
  rw [if_neg h6] at h hopen
  rw [if_neg h6, if_neg h6]
  exact punctuation_eq hr h

/-! ## How tokens end -/

theorem numberBody_pos
    (h : (c.isDigit || (c = '.' && cs.head?.any Char.isDigit)) = true) :
    0 < (numberBody (c :: cs)).1 := by
  rw [numberBody_cons]
  split
  case isTrue => exact Nat.lt_of_lt_of_le Nat.one_pos (Nat.le_add_right _ _)
  case isFalse =>
    show 0 < runLength isDigitPart (c :: cs) + fractionLength _ + exponentLength _
    by_cases hc : c.isDigit = true
    · have hpos : 0 < runLength isDigitPart (c :: cs) := runLength_pos_of_any (by simp [isDigitPart, hc])
      omega
    · have hpoint : c = '.' ∧ cs.head?.any Char.isDigit = true := by simpa [hc] using h
      obtain ⟨rfl, hdigit⟩ := hpoint
      have := fractionLength_point hdigit
      have hzero : runLength isDigitPart ('.' :: cs) = 0 := rfl
      rw [hzero, List.drop_zero]
      omega

/-- The first `n` characters end with one that is not blank. -/
def EndsText (n : Nat) (cs : List Char) : Prop := ∃ c, Text.isBlank c = false ∧ EndsWith c n cs

theorem Covers.endsText (h : Covers f cs) (hpos : 0 < f cs) :
    EndsText (f cs) cs := by
  obtain ⟨w, rest, rfl, hw, hall⟩ := h
  have hne : w ≠ [] := List.ne_nil_of_length_pos (hw ▸ hpos)
  refine ⟨w.getLast hne, hall _ (List.getLast_mem hne), w.dropLast, rest, ?_, ?_⟩
  · rw [List.append_cons, List.dropLast_concat_getLast]
  · rw [List.length_dropLast]
    omega

theorem EndsText.of_closed {cls : LexemeClass}
    (hcls : (e.lexeme cls).cls ≠ .malformed) (hc : Text.isBlank c = false)
    (h : ∀ {n}, e = ⟨n, true⟩ → EndsWith c n cs) : EndsText (e.lexeme cls).length cs :=
  ⟨c, hc, h (Extent.eq_closed rfl (Extent.closed_of_lexeme hcls))⟩

theorem endsText_punctuation (hc : Text.isBlank c = false) (cs : List Char) :
    EndsText (punctuation c cs).length (c :: cs) := by
  have hone : EndsText 1 (c :: cs) := ⟨c, hc, [], cs, rfl, rfl⟩
  have htwo {d : Char} (hd : Text.isBlank d = false) (hhead : cs.head? = some d) : EndsText 2 (c :: cs) := by
    obtain ⟨cs, rfl⟩ := List.head?_eq_some_iff.mp hhead
    exact ⟨d, hd, [c], cs, rfl, rfl⟩
  unfold punctuation
  repeat' split
  all_goals first
    | exact hone
    | exact htwo (by decide : Text.isBlank ':' = false) ‹_›
    | exact htwo (by decide : Text.isBlank '>' = false) ‹_›

/-- A token that is no malformed text ends with a character that is not blank, if it does not start
    with a blank one. -/
theorem endsText_ofText (hc : Text.isBlank c = false)
    (hcls : (ofText c cs).cls ≠ .malformed) : EndsText (ofText c cs).length (c :: cs) := by
  have hname : EndsText (1 + runLength isNamePart cs) (c :: cs) := by
    have hcovers : Covers (fun cs => 1 + runLength isNamePart (cs.drop 1)) (c :: cs) :=
      ((steady_isNamePart).covers cs).cons hc rfl
    exact hcovers.endsText (Nat.lt_of_lt_of_le Nat.one_pos (Nat.le_add_right _ _))
  unfold ofText at hcls ⊢
  by_cases h1 : isNameStart c = true
  · rw [if_pos h1]
    exact hname
  rw [if_neg h1] at hcls ⊢
  by_cases h2 : (c = '@' && cs.head?.any isNameStart) = true
  · rw [if_pos h2]
    exact hname
  rw [if_neg h2] at hcls ⊢
  by_cases h3 : isStringMark c = true
  · rw [if_pos h3] at hcls ⊢
    obtain ⟨a, cs', heq, ha⟩ := exists_split (List.takeWhile_sublist (l := c :: cs) isStringMark).length_le
    have hspec := runLength_spec (by rw [← heq, ha, runLength])
    rw [heq, markedString_append hspec.1 hspec.2] at hcls ⊢
    split at hcls
    case isTrue hquote =>
      rw [if_pos hquote]
      refine .of_closed hcls (by decide : Text.isBlank '"' = false) fun h => ?_
      obtain ⟨htail, hle⟩ := Extent.after_eq h
      have hend := endsWith_quoted htail
      rw [← show (a ++ cs').drop a.length = cs' from List.drop_left] at hend
      have := hend.of_drop
      rwa [Nat.add_sub_cancel' hle] at this
    case isFalse => exact absurd rfl hcls
  rw [if_neg h3] at hcls ⊢
  by_cases h4 : c = '"'
  · rw [if_pos h4] at hcls ⊢
    exact .of_closed hcls (by decide : Text.isBlank '"' = false) endsWith_quoted
  rw [if_neg h4] at hcls ⊢
  by_cases h5 : c = '\x27'
  · rw [if_pos h5] at hcls ⊢
    refine .of_closed hcls (by decide : Text.isBlank '\x27' = false) fun h => ?_
    obtain ⟨htail, hle⟩ := Extent.after_eq h
    have : EndsWith _ _ ((c :: cs).drop 1) := (measures_charTail).endsWith (q := ()) htail
    have := this.of_drop
    rwa [Nat.add_sub_cancel' hle] at this
  rw [if_neg h5] at hcls ⊢
  by_cases h6 : (c.isDigit || (c = '.' && cs.head?.any Char.isDigit)) = true
  · rw [if_pos h6]
    refine (covers_number c cs).endsText ?_
    exact Nat.lt_of_lt_of_le (numberBody_pos h6) (Nat.le_add_right _ _)
  rw [if_neg h6]
  exact endsText_punctuation hc cs

end Lexeme

end SettingsLint
