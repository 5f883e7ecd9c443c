import SettingsLint.Proofs.Binding.ArgumentPlacement

/-! # The order of attribute arguments

Putting constructor arguments into the order of the parameters does not look at their values. So
the order can be told before the values are known: `Attribute.order` gives it as the indices of
the written arguments, and the values of the symbol stand in this order.
-/

namespace SettingsLint

/-! ## Values are only moved -/

/-- The argument with another value. -/
def PlacedArgument.map (f : α → β) (argument : PlacedArgument α) : PlacedArgument β :=
  ⟨argument.parameter, f argument.value⟩

section

variable (f : α → β) (parameters : List ParameterSymbol) (arguments : List (PlacedArgument α))

theorem argumentTargets_map :
    argumentTargets parameters (arguments.map (·.map f)) = argumentTargets parameters arguments := by
  rw [argumentTargets, List.zipIdx_map, List.mapM_map]
  rfl

theorem map_mapM_option {g : γ → Option α} (cs : List γ) :
    (cs.mapM g).map (List.map f) = cs.mapM fun c => (g c).map f := by
  induction cs with
  | nil => rfl
  | cons c cs ih =>
    rw [List.mapM_cons, List.mapM_cons, ← ih]
    cases g c with
    | none => rfl
    | some a => cases cs.mapM g <;> rfl

theorem placeArguments_map :
    placeArguments parameters (arguments.map (·.map f))
      = (placeArguments parameters arguments).map (List.map f) := by
  rw [placeArguments, placeArguments, List.length_map, argumentTargets_map]
  split
  · rfl
  · cases argumentTargets parameters arguments with
    | none => rfl
    | some targets =>
      simp only [Option.bind_eq_bind, Option.bind_some]
      split
      · rw [map_mapM_option]
        congr 1
        funext i
        cases targets.idxOf? i with
        | none => rfl
        | some source =>
          simp only [Option.bind_some, List.getElem?_map]
          cases arguments[source]? <;> rfl
      · rfl

/-- The values of arguments do not decide their order. -/
theorem orderArguments_map (constructors : List Signature) :
    orderArguments constructors (arguments.map (·.map f))
      = (orderArguments constructors arguments).map f := by
  have hnone : (arguments.map (·.map f)).all (·.parameter.isNone)
      = arguments.all (·.parameter.isNone) := List.all_map
  have hwritten : (arguments.map (·.map f)).map (·.value) = (arguments.map (·.value)).map f := by
    rw [List.map_map, List.map_map]
    rfl
  simp only [orderArguments, hnone, hwritten]
  split
  · rfl
  · have hplace (signature : Signature) := placeArguments_map f signature.parameters arguments
    have hfound : constructors.findSome? (placeArguments ·.parameters (arguments.map (·.map f)))
        = (constructors.findSome? (placeArguments ·.parameters arguments)).map (List.map f) := by
      rw [List.map_findSome?]
      exact congrArg (List.findSome? · constructors) (funext hplace)
    rw [hfound]
    cases constructors.findSome? (placeArguments ·.parameters arguments) <;> rfl

/-- No argument is lost. -/
theorem length_orderArguments (constructors : List Signature) :
    (orderArguments constructors arguments).length = arguments.length := by
  simp only [orderArguments]
  split
  · exact List.length_map _
  · cases hfound : constructors.findSome? (placeArguments ·.parameters arguments) with
    | none => exact List.length_map _
    | some values =>
      obtain ⟨signature, -, hplaced⟩ := List.exists_of_findSome?_eq_some hfound
      exact (fit_of_placeArguments hplaced).2.2.length_eq.trans (List.length_map _)

end

/-! ## Written arguments -/

theorem Argument.placed?_map (argument : Argument) (f : α → β) (value : α) :
    argument.placed? (f value) = (argument.placed? value).map (·.map f) := by
  rw [placed?, placed?]
  split
  · rfl
  · split <;> rfl

/-- Pairs of two lists of one length are found by index. -/
theorem zip_eq_map_zipIdx {as : List α} {bs : List β} (h : bs.length = as.length) (b : β) :
    as.zip bs = as.zipIdx.map fun p => (p.1, bs.getD p.2 b) := by
  refine List.ext_getElem (by simp [h]) fun i hi _ => ?_
  simp only [List.length_zip, h, Nat.min_self] at hi
  simp [h, hi]

namespace Attribute

variable (a : Attribute) (constructors : List Signature)

/-- The constructor arguments in the order of the parameters, each by its index as written. -/
def order : List Nat :=
  orderArguments constructors
    (a.writtenArguments.zipIdx.filterMap fun (argument, i) => argument.placed? i)

variable {values : List Constant} (h : values.length = a.writtenArguments.length)

include h in
/-- The constructor arguments of the symbol are the values in this order. -/
theorem arguments_applied (cls : Option TypeId) :
    (a.applied cls constructors values).arguments
      = (a.order constructors).map (values.getD · .unknown) := by
  show orderArguments constructors _ = (orderArguments constructors _).map _
  rw [← orderArguments_map, zip_eq_map_zipIdx h .unknown, List.filterMap_map, List.map_filterMap]
  refine congrArg _ (congrArg (List.filterMap · _) (funext fun p => ?_))
  exact p.1.placed?_map (values.getD · .unknown) p.2

/-- Without constructor arguments every argument is set. -/
theorem order_eq_nil_iff :
    a.order constructors = [] ↔ ∀ argument ∈ a.writtenArguments, argument.placed? () = none := by
  have hlength := length_orderArguments
    (a.writtenArguments.zipIdx.filterMap fun (argument, i) => argument.placed? i) constructors
  have hplaced (argument : Argument) (i : Nat) :
      argument.placed? i = none ↔ argument.placed? () = none := by
    rw [argument.placed?_map (fun _ : Unit => i) (), Option.map_eq_none_iff]
  rw [← List.length_eq_zero_iff, order, hlength, List.length_eq_zero_iff, List.filterMap_eq_nil_iff]
  refine ⟨fun h argument hmem => ?_, fun h p hp => ?_⟩
  · obtain ⟨i, hi⟩ := List.mem_iff_getElem?.1 hmem
    exact (hplaced argument i).mp (h (argument, i) (List.mem_zipIdx_iff_getElem?.2 hi))
  · exact (hplaced p.1 p.2).mpr (h _ (List.fst_mem_of_mem_zipIdx hp))

/-- Without names, arguments stay in the order in which they are written. -/
theorem order_of_positional {a : Attribute}
    (h : ∀ argument ∈ a.writtenArguments, argument.name = none)
    (constructors : List Signature) : a.order constructors = List.range a.writtenArguments.length := by
  have hplaced : (a.writtenArguments.zipIdx.filterMap fun (argument, i) => argument.placed? i)
      = (List.range a.writtenArguments.length).map (PlacedArgument.mk none) := by
    have hsome : ∀ p ∈ a.writtenArguments.zipIdx,
        p.1.placed? p.2 = some (PlacedArgument.mk none p.2) := fun p hp => by
      rw [Argument.placed?, h p.1 (List.fst_mem_of_mem_zipIdx hp)]
    rw [List.filterMap_congr hsome, List.filterMap_eq_map', List.range_eq_range',
      ← List.zipIdx_map_snd 0 a.writtenArguments, List.map_map]
    rfl
  have hnone : ((List.range a.writtenArguments.length).map (PlacedArgument.mk none)).all
      (·.parameter.isNone) = true := by
    rw [List.all_map]
    exact List.all_eq_true.2 fun _ _ => rfl
  rw [order, hplaced, orderArguments, if_pos hnone, List.map_map]
  exact List.map_id _

end Attribute

end SettingsLint
