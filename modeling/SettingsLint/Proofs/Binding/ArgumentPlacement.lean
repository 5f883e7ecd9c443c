import Mathlib.Data.List.Perm.Basic
import Mathlib.Data.List.Perm.Subperm
import SettingsLint.Main

/-! # Where attribute arguments are placed

Every argument is for one parameter. Where the arguments are as many as the parameters and no two are
for the same one, every parameter gets one, so that the values are only put into another order. In all
other cases they stay as they are written.
-/

namespace SettingsLint

variable {α : Type} {parameters : List ParameterSymbol} {arguments : List (PlacedArgument α)}
  {values : List α}

/-- The index of the parameter that the argument at the index `i` is for: of the first one that has the
    name, or else of the one at its own index. -/
def PlacedArgument.target? (parameters : List ParameterSymbol) (argument : PlacedArgument α) (i : Nat) :
    Option Nat :=
  match argument.parameter with
  | some name => parameters.findIdx? (·.name = name)
  | none => some i

/-- There are as many parameters as arguments, every argument is for one, and no two for the same. -/
structure ParametersFit (parameters : List ParameterSymbol) (arguments : List (PlacedArgument α)) :
    Prop where
  length : parameters.length = arguments.length
  found : ∀ (i : Nat) (a : PlacedArgument α), arguments[i]? = some a →
    ∃ j, a.target? parameters i = some j
  apart : ∀ (i i' : Nat) (a a' : PlacedArgument α), arguments[i]? = some a → arguments[i']? = some a' →
    a.target? parameters i = a'.target? parameters i' → i = i'

/-- The value of every argument stands where its parameter does. -/
structure PlacedAt (parameters : List ParameterSymbol) (arguments : List (PlacedArgument α))
    (values : List α) : Prop where
  length : values.length = arguments.length
  value : ∀ (i j : Nat) (a : PlacedArgument α), arguments[i]? = some a →
    a.target? parameters i = some j → values[j]? = some a.value

/-- Only an index of the list is meant. -/
theorem PlacedArgument.target?_lt (hlength : parameters.length = arguments.length)
    {i j : Nat} {a : PlacedArgument α} (ha : arguments[i]? = some a)
    (h : a.target? parameters i = some j) : j < arguments.length := by
  rw [target?] at h
  split at h
  · obtain ⟨hj, -⟩ := List.findIdx?_eq_some_iff_getElem.1 h
    exact hlength ▸ hj
  · obtain ⟨hi, -⟩ := List.getElem?_eq_some_iff.1 ha
    exact Option.some.inj h ▸ hi

theorem mapM_eq_some_iff {β γ : Type} {g : β → Option γ} {bs : List β} {cs : List γ} :
    bs.mapM g = some cs ↔ bs.map g = cs.map some := by
  induction bs generalizing cs with
  | nil => cases cs <;> simp
  | cons b bs ih =>
    rw [List.mapM_cons, List.map_cons]
    cases hb : g b with
    | none => cases cs <;> simp
    | some c =>
      cases cs with
      | nil => cases hbs : bs.mapM g <;> simp
      | cons c' cs =>
        rw [List.map_cons, List.cons.injEq, ← ih]
        cases hbs : bs.mapM g <;> simp

theorem exists_map_eq_map_some {β γ : Type} {g : β → Option γ} {bs : List β}
    (h : ∀ b ∈ bs, ∃ c, g b = some c) : ∃ cs : List γ, bs.map g = cs.map some := by
  induction bs with
  | nil => exact ⟨[], rfl⟩
  | cons b bs ih =>
    obtain ⟨c, hc⟩ := h b List.mem_cons_self
    obtain ⟨cs, hcs⟩ := ih fun b hb => h b (List.mem_cons_of_mem _ hb)
    exact ⟨c :: cs, by rw [List.map_cons, List.map_cons, hc, hcs]⟩

/-- The values in the order of the parameters, given the parameter of every argument. -/
def placed (arguments : List (PlacedArgument α)) (targets : List Nat) (i : Nat) : Option α :=
  (targets.idxOf? i).bind fun source => arguments[source]?.bind fun a => some a.value

theorem placeArguments_eq_some_iff : placeArguments parameters arguments = some values ↔
    parameters.length = arguments.length ∧ ∃ targets : List Nat,
      arguments.zipIdx.map (fun p => p.1.target? parameters p.2) = targets.map some ∧ targets.Nodup ∧
        (List.range arguments.length).map (placed arguments targets) = values.map some := by
  have htargets (targets : List Nat) : argumentTargets parameters arguments = some targets ↔
      arguments.zipIdx.map (fun p => p.1.target? parameters p.2) = targets.map some := mapM_eq_some_iff
  rw [placeArguments]
  simp only [← htargets, Option.bind_eq_bind]
  by_cases hlength : parameters.length = arguments.length
  · cases argumentTargets parameters arguments with
    | none => simp [hlength]
    | some targets =>
      by_cases hnodup : targets.Nodup
      · simp only [hlength, hnodup, ne_eq, not_true_eq_false, ↓reduceIte, Option.bind_some,
          mapM_eq_some_iff, Option.some.injEq, exists_eq_left', true_and]
        rfl
      · simp [hnodup]
  · simp [hlength]

/-! ## A constructor that fits -/

section

variable {targets : List Nat} (hlength : parameters.length = arguments.length)
  (htargets : arguments.zipIdx.map (fun p => p.1.target? parameters p.2) = targets.map some)

include htargets

theorem length_targets : targets.length = arguments.length := by
  simpa using (congrArg List.length htargets).symm

theorem getElem?_targets {i : Nat} {a : PlacedArgument α} (ha : arguments[i]? = some a) :
    targets[i]? = a.target? parameters i := by
  have h := congrArg (·[i]?) htargets
  simp only [List.getElem?_map, List.getElem?_zipIdx, ha] at h
  cases htarget : targets[i]? with
  | none => simp [htarget] at h
  | some j => simpa [htarget] using h.symm

variable (hnodup : targets.Nodup)

include hnodup

/-- The argument is found again by its parameter. -/
theorem placed_target {i j : Nat} {a : PlacedArgument α} (ha : arguments[i]? = some a)
    (hj : a.target? parameters i = some j) : placed arguments targets j = some a.value := by
  have htarget : targets[i]? = some j := (getElem?_targets htargets ha).trans hj
  obtain ⟨hi, hget⟩ := List.getElem?_eq_some_iff.1 htarget
  have hindex : targets.idxOf? j = some i := by
    refine List.idxOf?_eq_some_iff.2 ⟨hi, hget, fun k hk heq => ?_⟩
    exact (List.pairwise_iff_getElem.1 hnodup) k i (Nat.lt_trans hk hi) hi hk (heq.trans hget.symm)
  rw [placed, hindex, Option.bind_some, ha, Option.bind_some]

include hlength

/-- By counting, every parameter gets an argument. -/
theorem targets_perm : targets.Perm (List.range arguments.length) := by
  have hsubset : targets ⊆ List.range arguments.length := fun j hj => by
    obtain ⟨i, hi⟩ := List.mem_iff_getElem?.1 hj
    obtain ⟨hlt, -⟩ := List.getElem?_eq_some_iff.1 hi
    obtain ⟨a, ha⟩ : ∃ a, arguments[i]? = some a :=
      ⟨_, List.getElem?_eq_getElem (length_targets htargets ▸ hlt)⟩
    exact List.mem_range.2 (PlacedArgument.target?_lt hlength ha (getElem?_targets htargets ha ▸ hi))
  refine (List.subperm_of_subset hnodup hsubset).perm_of_length_le ?_
  exact Nat.le_of_eq (by rw [List.length_range, length_targets htargets])

end

/-- Where the parameters fit, every one of them gets a value. -/
theorem exists_placeArguments (hfit : ParametersFit parameters arguments) :
    ∃ values, placeArguments parameters arguments = some values := by
  obtain ⟨targets, htargets⟩ := exists_map_eq_map_some fun p hp =>
    hfit.found p.2 p.1 (List.mem_zipIdx_iff_getElem?.1 hp)
  have hget {i : Nat} (hi : i < targets.length) : ∃ a, arguments[i]? = some a :=
    ⟨_, List.getElem?_eq_getElem (length_targets htargets ▸ hi)⟩
  have hnodup : targets.Nodup := by
    refine List.pairwise_iff_getElem.2 fun i i' hi hi' hlt heq => ?_
    obtain ⟨a, ha⟩ := hget hi
    obtain ⟨a', ha'⟩ := hget hi'
    refine Nat.ne_of_lt hlt (hfit.apart i i' a a' ha ha' ?_)
    rw [← getElem?_targets htargets ha, ← getElem?_targets htargets ha', List.getElem?_eq_getElem hi,
      List.getElem?_eq_getElem hi', heq]
  have hfound : ∀ j ∈ List.range arguments.length, ∃ b, placed arguments targets j = some b := by
    intro j hj
    obtain ⟨i, hi⟩ := List.mem_iff_getElem?.1
      ((targets_perm hfit.length htargets hnodup).mem_iff.2 hj)
    obtain ⟨a, ha⟩ := hget (List.getElem?_eq_some_iff.1 hi).1
    exact ⟨a.value, placed_target htargets hnodup ha (getElem?_targets htargets ha ▸ hi)⟩
  obtain ⟨values, hvalues⟩ := exists_map_eq_map_some hfound
  exact ⟨values, placeArguments_eq_some_iff.2 ⟨hfit.length, targets, htargets, hnodup, hvalues⟩⟩

/-- Values are placed only if the parameters fit, and then at the parameters; none is lost or doubled. -/
theorem fit_of_placeArguments (h : placeArguments parameters arguments = some values) :
    ParametersFit parameters arguments ∧ PlacedAt parameters arguments values ∧
      values.Perm (arguments.map (·.value)) := by
  obtain ⟨hlength, targets, htargets, hnodup, hvalues⟩ := placeArguments_eq_some_iff.1 h
  have htarget {i : Nat} {a : PlacedArgument α} (ha : arguments[i]? = some a) :
      ∃ j, a.target? parameters i = some j ∧ targets[i]? = some j := by
    have hi := (List.getElem?_eq_some_iff.1 ha).1
    rw [← length_targets htargets] at hi
    exact ⟨targets[i], getElem?_targets htargets ha ▸ List.getElem?_eq_getElem hi,
      List.getElem?_eq_getElem hi⟩
  refine ⟨⟨hlength, fun i a ha => ?_, fun i i' a a' ha ha' heq => ?_⟩, ⟨?_, fun i j a ha hj => ?_⟩, ?_⟩
  · obtain ⟨j, hj, -⟩ := htarget ha
    exact ⟨j, hj⟩
  · obtain ⟨j, hj, hij⟩ := htarget ha
    obtain ⟨j', hj', hij'⟩ := htarget ha'
    rw [hj, hj'] at heq
    exact (List.getElem?_inj (List.getElem?_eq_some_iff.1 hij).1 hnodup).mp (by rw [hij, hij', heq])
  · simpa using (congrArg List.length hvalues).symm
  · have hget := congrArg (·[j]?) hvalues
    simp only [List.getElem?_map, List.getElem?_range (PlacedArgument.target?_lt hlength ha hj),
      Option.map_some, placed_target htargets hnodup ha hj] at hget
    cases hplaced : values[j]? with
    | none => simp [hplaced] at hget
    | some value => simpa [hplaced] using hget.symm
  · -- The values by parameter are those by argument in another order.
    have hwritten : targets.map (placed arguments targets) = (arguments.map (·.value)).map some := by
      refine List.ext_getElem? fun i => ?_
      rw [List.getElem?_map, List.getElem?_map, List.getElem?_map]
      cases ha : arguments[i]? with
      | none =>
        have hi : targets[i]? = none := by
          rw [List.getElem?_eq_none_iff, length_targets htargets]
          exact List.getElem?_eq_none_iff.1 ha
        rw [hi]
        rfl
      | some a =>
        obtain ⟨j, hj, hij⟩ := htarget ha
        rw [hij, Option.map_some, placed_target htargets hnodup ha hj]
        rfl
    have hperm := (targets_perm hlength htargets hnodup).map (placed arguments targets)
    rw [hwritten, hvalues] at hperm
    exact ((List.map_perm_map_iff fun _ _ => Option.some.inj).mp hperm).symm

/-! ## The order of all arguments -/

/-- The list has the values of the arguments, each once: in the order of the parameters of the first
    constructor that fits, or as they are written if none does. No argument is for a parameter beyond
    the end of a constructor. -/
structure IsArgumentOrder (constructors : List Signature) (arguments : List (PlacedArgument α))
    (values : List α) : Prop where
  perm : values.Perm (arguments.map (·.value))
  placed : ∀ before constructor after, constructors = before ++ constructor :: after →
    (∀ c ∈ before, ¬ ParametersFit c.parameters arguments) →
    ParametersFit constructor.parameters arguments →
    ∀ other, PlacedAt constructor.parameters arguments other ↔ other = values
  written : (∀ c ∈ constructors, ¬ ParametersFit c.parameters arguments) →
    values = arguments.map (·.value)
  inRange : ∀ c ∈ constructors, c.parameters.length = arguments.length →
    ∀ (i j : Nat) (a : PlacedArgument α), arguments[i]? = some a →
      a.target? c.parameters i = some j → j < arguments.length

/-- Where the parameters fit, the places of all values are told. -/
theorem PlacedAt.unique (hfit : ParametersFit parameters arguments) {other : List α}
    (h : PlacedAt parameters arguments values) (h' : PlacedAt parameters arguments other) :
    other = values := by
  obtain ⟨placed, hplaced⟩ := exists_placeArguments hfit
  obtain ⟨-, targets, htargets, hnodup, -⟩ := placeArguments_eq_some_iff.1 hplaced
  refine List.ext_getElem? fun j => ?_
  by_cases hj : j < arguments.length
  · obtain ⟨i, hi⟩ := List.mem_iff_getElem?.1
      ((targets_perm hfit.length htargets hnodup).mem_iff.2 (List.mem_range.2 hj))
    have hlt := (List.getElem?_eq_some_iff.1 hi).1
    rw [length_targets htargets] at hlt
    have ha : arguments[i]? = some arguments[i] := List.getElem?_eq_getElem hlt
    rw [getElem?_targets htargets ha] at hi
    rw [h.value i j _ ha hi, h'.value i j _ ha hi]
  · rw [List.getElem?_eq_none (h'.length ▸ Nat.not_lt.1 hj),
      List.getElem?_eq_none (h.length ▸ Nat.not_lt.1 hj)]

/-- Arguments without names are placed as they are written. -/
theorem placedAt_written (hnames : ∀ a ∈ arguments, a.parameter = none) :
    PlacedAt parameters arguments (arguments.map (·.value)) where
  length := List.length_map _
  value i j a ha hj := by
    rw [PlacedArgument.target?, hnames a (List.mem_of_getElem? ha)] at hj
    rw [← Option.some.inj hj, List.getElem?_map, ha, Option.map_some]

/-- Placing loses and doubles no argument, and it places them by the first constructor that fits. -/
theorem isArgumentOrder_orderArguments (constructors : List Signature)
    (arguments : List (PlacedArgument α)) :
    IsArgumentOrder constructors arguments (orderArguments constructors arguments) := by
  have hrange : ∀ c ∈ constructors, c.parameters.length = arguments.length →
      ∀ (i j : Nat) (a : PlacedArgument α), arguments[i]? = some a →
        a.target? c.parameters i = some j → j < arguments.length :=
    fun c _ hlength i j a ha hj => PlacedArgument.target?_lt hlength ha hj
  have hnone {c : Signature} (h : ¬ ParametersFit c.parameters arguments) :
      placeArguments c.parameters arguments = none :=
    Option.eq_none_iff_forall_ne_some.2 fun values hvalues => h (fit_of_placeArguments hvalues).1
  rw [orderArguments]
  split
  case isTrue hall =>
    have hnames : ∀ a ∈ arguments, a.parameter = none := by simpa using hall
    refine ⟨.refl _, fun _ c _ _ _ hfit other => ⟨fun h => ?_, fun h => h ▸ placedAt_written hnames⟩,
      fun _ => rfl, hrange⟩
    exact (placedAt_written hnames).unique hfit h
  case isFalse =>
    refine ⟨?_, fun before c after hsplit hbefore hfit other => ?_, fun hwritten => ?_, hrange⟩
    · cases hfound : constructors.findSome? (placeArguments ·.parameters arguments) with
      | none => exact .refl _
      | some values =>
        obtain ⟨c, -, hc⟩ := List.exists_of_findSome?_eq_some hfound
        exact (fit_of_placeArguments hc).2.2
    · obtain ⟨values, hvalues⟩ := exists_placeArguments hfit
      have hfound : constructors.findSome? (placeArguments ·.parameters arguments) = some values :=
        List.findSome?_eq_some_iff.2 ⟨before, c, after, hsplit, hvalues, fun b hb => hnone (hbefore b hb)⟩
      rw [hfound]
      have hplaced := (fit_of_placeArguments hvalues).2.1
      exact ⟨fun h => hplaced.unique hfit h, fun h => h ▸ hplaced⟩
    · rw [List.findSome?_eq_none_iff.2 fun c hc => hnone (hwritten c hc), Option.getD_none]

end SettingsLint
