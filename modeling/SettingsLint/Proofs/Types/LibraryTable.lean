import SettingsLint.Proofs.Types.Inheritance

/-! # The table of the library

The types of the library are put into an empty table, one after the other, and are completed then. So
what holds of tables that are made in this way holds of the table of the library.
-/

namespace SettingsLint

namespace LibraryType

variable {directory : Directory} {t u : TypeTable} {owner : TypeId}

/-- Library types are in the table, those of the directory among them, and completion has not been
    anywhere. -/
structure Stocked (directory : Directory) (t : TypeTable) : Prop extends TypeTable.empty.Beyond t where
  listed : ∀ e ∈ directory, t.isDefinition e.2 = true

theorem has_of_isDefinition {id : TypeId} (h : t.isDefinition id = true) : t.Has id :=
  ((TypeTable.Keeps.refl t).isDefinition h).1

theorem Stocked.of_extends (h : Stocked directory t) (hbeyond : TypeTable.empty.Beyond u)
    (hextends : t.Extends u) : Stocked directory u where
  toBeyond := hbeyond
  listed e he := ((TypeTable.Keeps.of_extends hextends).isDefinition (h.listed e he)).2

theorem gives_intern (h : Stocked directory t) (shape : Shape) (hbuilt : shape.isBuilt = true)
    (hproper : shape.isProper = true) (hparts : ∀ p ∈ shape.parts, t.Has p)
    (hgeneric : ∀ {generic arguments}, shape = .constructed generic arguments →
      t.isDefinition generic = true) :
    Gives (fun t => t) (Stocked directory) TypeTable.Has (modifyGet (·.intern shape)) t := by
  have hinterned := h.toSound.interned hparts hproper hbuilt 0
  exact ⟨h.of_extends (h.toBeyond.intern hbuilt hproper hparts hgeneric) hinterned.growth,
    hinterned.growth, hinterned.index_lt⟩

theorem gives_construct (h : Stocked directory t) {definition : TypeId} {arguments : List TypeId}
    (hdefinition : t.isDefinition definition = true) (harguments : ∀ a ∈ arguments, t.Has a) :
    Gives (fun t => t) (Stocked directory) TypeTable.Has (modifyGet (·.construct definition arguments)) t := by
  cases arguments with
  | nil => exact .pure h (has_of_isDefinition hdefinition)
  | cons a as =>
    refine gives_intern h (.constructed definition (a :: as)) rfl rfl (fun p hp => ?_)
      fun heq => by cases heq; exact hdefinition
    rcases List.mem_cons.1 hp with rfl | hp
    · exact has_of_isDefinition hdefinition
    · exact harguments p hp

theorem mem_of_lookup [BEq α] [LawfulBEq α] {entries : List (α × β)} {a : α} {b : β}
    (h : entries.lookup a = some b) : (a, b) ∈ entries := by
  obtain ⟨_, _, rfl, -⟩ := List.lookup_eq_some_iff.1 h
  exact List.mem_append_right _ List.mem_cons_self

theorem gives_resolveName (h : Stocked directory t) (owner : TypeId) (name : String)
    {arguments : List TypeId} (harguments : ∀ a ∈ arguments, t.Has a) :
    Gives (fun t => t) (Stocked directory) TypeTable.Has (modifyGet (resolveName directory owner name arguments)) t := by
  have hkeyword {id : TypeId} (hid : (SpecialType.ofKeyword? name).bind t.special? = some id) :
      t.Has id := by
    obtain ⟨special, -, hid⟩ := Option.bind_eq_some_iff.1 hid
    exact h.special _ (mem_of_lookup hid)
  have hparameter {id : TypeId} (hid : (t.typeParameters owner).find? (t.name · = name) = some id) :
      t.Has id :=
    h.toSound.part_lt (TypeTable.mem_parts_of_typeParameters (List.mem_of_find?_eq_some hid))
  generalize hresult : resolveName directory owner name arguments t = result
  have hrun := hresult
  unfold resolveName at hrun
  dsimp only at hrun
  split at hrun
  · next id hid =>
    refine .congr (hresult.trans hrun.symm) (Gives.pure h ?_)
    split at hid
    · cases hword : (SpecialType.ofKeyword? name).bind t.special? with
      | some other =>
        rw [hword] at hid
        obtain rfl := Option.some.inj hid
        exact hkeyword hword
      | none =>
        rw [hword] at hid
        exact hparameter hid
    · cases hid
  · split at hrun
    · next definition hdefinition =>
      exact .congr (hresult.trans hrun.symm)
        (gives_construct h (h.listed _ (mem_of_lookup hdefinition)) harguments)
    · exact .congr (hresult.trans hrun.symm)
        (gives_intern h (.error name) rfl rfl (List.forall_mem_nil _) (by rintro _ _ ⟨⟩))

mutual

theorem gives_resolve (owner : TypeId) : (e : LibraryTypeExpr) → {t : TypeTable} → Stocked directory t →
    Gives (fun t => t) (Stocked directory) TypeTable.Has (modifyGet (resolve directory owner e)) t
  | .named name arguments, t, h => by
    have harguments := gives_resolveAll owner arguments h
    have hbind : Gives (fun t => t) (Stocked directory) TypeTable.Has (do
        let ids ← modifyGet (resolveAll directory owner arguments)
        modifyGet (resolveName directory owner name ids)) t :=
      harguments.bind fun ids u hu _ hids => gives_resolveName hu owner name hids
    refine .congr ?_ hbind
    rfl
  | .array element, t, h => by
    have helement := gives_resolve owner element h
    have hbind : Gives (fun t => t) (Stocked directory) TypeTable.Has (do
        let id ← modifyGet (resolve directory owner element)
        modifyGet (·.array id 1)) t :=
      helement.bind fun id u hu _ hid => gives_intern hu (.array id 1) rfl rfl
        (fun p hp => by rwa [List.mem_singleton.1 hp]) nofun
    refine .congr ?_ hbind
    rfl

theorem gives_resolveAll (owner : TypeId) : (es : List LibraryTypeExpr) → {t : TypeTable} →
    Stocked directory t → Gives (fun t => t) (Stocked directory) (fun u ids => ∀ id ∈ ids, u.Has id)
      (modifyGet (resolveAll directory owner es)) t
  | [], t, h => by
    refine .congr ?_ (.pure h (List.forall_mem_nil _))
    rfl
  | e :: es, t, h => by
    have hfirst := gives_resolve owner e h
    have hbind : Gives (fun t => t) (Stocked directory) (fun u ids => ∀ id ∈ ids, u.Has id) (do
        let id ← modifyGet (resolve directory owner e)
        let ids ← modifyGet (resolveAll directory owner es)
        return id :: ids) t :=
      hfirst.bind fun id u hu _ hid => (gives_resolveAll owner es hu).bind fun ids v hv hpersists hids =>
        .pure hv (List.forall_mem_cons.2 ⟨hid.mono hpersists, hids⟩)
    refine .congr ?_ hbind
    rfl

end

/-- A stocked table that has grown from `t`. -/
structure Fills (directory : Directory) (t u : TypeTable) : Prop where
  stocked : Stocked directory u
  growth : t.Extends u

namespace Fills

variable {id : TypeId}

theorem of_extends {v : TypeTable} (h : Fills directory t u) (hbeyond : TypeTable.empty.Beyond v)
    (hextends : u.Extends v) : Fills directory t v :=
  ⟨h.stocked.of_extends hbeyond hextends, TypeTable.Growth.trans h.growth hextends⟩

theorem isDefinition (h : Fills directory t u) (hid : t.isDefinition id = true) :
    u.isDefinition id = true :=
  ((TypeTable.Keeps.of_extends h.growth).isDefinition hid).2

theorem setBase {base : TypeId} (h : Fills directory t u) (hid : t.isDefinition id = true) (hbase : t.Has base) :
    Fills directory t (u.setBase id base) :=
  h.of_extends (h.stocked.toBeyond.setBase (Nat.zero_le _) (h.isDefinition hid) (hbase.mono h.growth))
    (.update id (fun _ => rfl) fun _ => rfl)

theorem addInterface {interface : TypeId} (h : Fills directory t u) (hid : t.isDefinition id = true)
    (hinterface : t.Has interface) :
    Fills directory t (u.addInterface id interface) :=
  h.of_extends (h.stocked.toBeyond.addInterface (Nat.zero_le _) (h.isDefinition hid)
    (hinterface.mono h.growth))
    (.update id (fun _ => by split <;> rfl) fun _ => by split <;> rfl)

theorem addConstructor {parameters : List ParameterSymbol} (h : Fills directory t u)
    (hid : t.isDefinition id = true) (hparameters : ∀ p ∈ parameters, t.Has p.type) :
    Fills directory t (u.addConstructor id parameters) :=
  h.of_extends (h.stocked.toBeyond.addConstructor (Nat.zero_le _) (h.isDefinition hid) fun p hp =>
    (hparameters p hp).mono h.growth) (.update id (fun _ => rfl) fun _ => rfl)

end Fills

theorem gives_addMembers (type : LibraryType) {id : TypeId} (hid : t.isDefinition id = true)
    (h : Stocked directory t) : Gives (fun t => t) (Stocked directory) (fun _ _ => True) (addMembers directory type id) t := by
  refine (Gives.option_mapM
    (fun e _ => gives_resolve id e h) h).bind fun base u hu hgrown hbase => ?_
  refine (Gives.mapM (fun hkeeps hid => hid.mono hkeeps)
    (fun e _ v hv _ => gives_resolve id e hv) hu).bind fun interfaces v hv huv hinterfaces => ?_
  refine (Gives.mapM (R := fun u _ (ps : List ParameterSymbol) => ∀ p ∈ ps, u.Has p.type)
    (fun hkeeps hps p hp => (hps p hp).mono hkeeps) (fun list _ w hw _ => ?_) hv).bind
    fun constructors w hw hvw hconstructors => ?_
  · refine (Gives.mapM (R := fun u _ (p : ParameterSymbol) => u.Has p.type)
      (fun hkeeps hp => hp.mono hkeeps) (fun pair _ x hx _ => ?_) hw).imp fun x ps hps p hp => ?_
    · exact (gives_resolve id pair.2 hx).bind fun other y hy _ hother => .pure hy hother
    · obtain ⟨pair, -, hinside⟩ := exists_of_forall₂ hps hp
      exact hinside
  · have hid : w.isDefinition id = true := ((TypeTable.Keeps.of_extends
      (TypeTable.Growth.trans hgrown (TypeTable.Growth.trans huv hvw))).isDefinition hid).2
    have hbase : Fills directory w (base.elim w (w.setBase id ·)) := by
      have hstart : Fills directory w w := ⟨hw, .refl w⟩
      cases base with
      | none => exact hstart
      | some base =>
        obtain ⟨e, -, hinside⟩ := exists_of_optionRel hbase rfl
        exact hstart.setBase hid (hinside.mono (TypeTable.Growth.trans huv hvw))
    have hinterfaces : Fills directory w
        (interfaces.foldl (·.addInterface id ·) (base.elim w (w.setBase id ·))) := by
      refine List.foldlRecOn interfaces _ hbase fun x hx other hother => hx.addInterface hid ?_
      obtain ⟨e, -, hinside⟩ := exists_of_forall₂ hinterfaces hother
      exact hinside.mono hvw
    have hconstructors : Fills directory w (constructors.foldl (·.addConstructor id ·)
        (interfaces.foldl (·.addInterface id ·) (base.elim w (w.setBase id ·)))) := by
      refine List.foldlRecOn constructors _ hinterfaces fun x hx ps hps => hx.addConstructor hid ?_
      obtain ⟨list, -, hinside⟩ := exists_of_forall₂ hconstructors hps
      exact hinside
    exact ⟨hconstructors.stocked, hconstructors.growth, trivial⟩

/-- A library type is declared and may be marked as special. -/
theorem declareIn_cases (type : LibraryType) (t : TypeTable) :
    let made := t.declare type.namespaceName type.name type.kind type.typeParameters none
    (type.declareIn t).1 = made.1 ∧ ((type.declareIn t).2 = made.2 ∨
      ∃ special, (type.declareIn t).2 = made.2.setSpecial made.1 special) := by
  refine ⟨rfl, ?_⟩
  rw [declareIn]
  cases type.special with
  | none => exact .inl rfl
  | some special => exact .inr ⟨special, rfl⟩

theorem beyond_setSpecial (h : TypeTable.empty.Beyond t) (id : TypeId) (special : SpecialType) :
    TypeTable.empty.Beyond (t.setSpecial id special) := by
  rw [TypeTable.setSpecial]
  split
  · next hid =>
    have hmarked := h.update (Nat.zero_le id.index) hid (f := ({ · with special := some special }))
      (fun _ => rfl) (fun _ => rfl) (fun _ => rfl) fun _ hother => h.named hother
    have hspecial : ∀ p ∈ (special, id) :: t.specials, p.2.index < _ :=
      List.forall_mem_cons.2 ⟨Nat.lt_of_lt_of_eq (has_of_isDefinition hid)
        (TypeTable.Sound.size_update t id _).symm, hmarked.special⟩
    exact ⟨⟨{ hmarked.toSound with }, hmarked.generic, hmarked.parameter, hspecial⟩, hmarked.size_le,
      hmarked.entry_eq, hmarked.fresh, hmarked.bare⟩
  · exact h

/-- Declaring a library type stocks a table with it. -/
theorem stocked_declareIn (type : LibraryType) (h : Stocked [] t) :
    Stocked [] (type.declareIn t).2 ∧ t.Keeps (type.declareIn t).2 ∧
      (type.declareIn t).2.isDefinition (type.declareIn t).1 = true := by
  have hdeclares := TypeTable.declares_declare t type.namespaceName type.name type.kind
    type.typeParameters none
  have hbeyond := h.toBeyond.declare type.namespaceName type.name type.kind type.typeParameters
    none nofun
  obtain ⟨hid, hcases⟩ := declareIn_cases type t
  generalize t.declare type.namespaceName type.name type.kind type.typeParameters none = new
    at hdeclares hbeyond hid hcases
  have hdefinition : new.2.isDefinition new.1 = true := by
    obtain ⟨_, _, _, -, -, hshape⟩ := hdeclares.shape
    exact TypeTable.isDefinition_of_shape hshape
  rw [hid]
  rcases hcases with heq | ⟨special, heq⟩ <;> rw [heq]
  · exact ⟨⟨hbeyond, List.forall_mem_nil _⟩, hdeclares.keeps, hdefinition⟩
  · have hkeeps : new.2.Keeps (new.2.setSpecial new.1 special) :=
      TypeTable.keeps_run (.setSpecial new.1 special) new.2
    exact ⟨⟨beyond_setSpecial hbeyond _ special, List.forall_mem_nil _⟩,
      hdeclares.keeps.trans hkeeps, (hkeeps.isDefinition hdefinition).2⟩

theorem stocked_declareAll (types : List LibraryType) (h : Stocked [] t) :
    Stocked (declareAll types t).1 (declareAll types t).2 ∧ t.Keeps (declareAll types t).2 := by
  induction types generalizing t with
  | nil => exact ⟨h, .refl t⟩
  | cons type types ih =>
    obtain ⟨hstocked, hkeeps, hdefinition⟩ := stocked_declareIn type h
    obtain ⟨hall, hkeeps'⟩ := ih hstocked
    refine ⟨{ hall with listed := ?_ }, hkeeps.trans hkeeps'⟩
    exact List.forall_mem_cons.2 ⟨(hkeeps'.isDefinition hdefinition).2, hall.listed⟩

/-- The library is put behind the types of the empty table. -/
theorem beyond_install : TypeTable.empty.Beyond (install .empty) := by
  have hempty : Stocked [] .empty := ⟨.refl TypeTable.regular_empty, List.forall_mem_nil _⟩
  obtain ⟨hstocked, -⟩ := stocked_declareAll all hempty
  rw [install]
  generalize declareAll all .empty = made at hstocked
  have hinstalled := List.foldlRecOn (all.zip made.1)
    (fun t (entry : LibraryType × _) => (addMembers made.1 entry.1 entry.2.2 t).2)
    hstocked fun t ht entry hentry =>
    (gives_addMembers entry.1 (ht.listed _ (List.of_mem_zip hentry).2) ht).inv
  exact hinstalled.toBeyond

end LibraryType

namespace TypeTable

/-- The types of the library derive from their definitions. -/
theorem derived_withLibrary : withLibrary.Derived :=
  (LibraryType.beyond_install.derived derived_empty).complete

theorem rested_withLibrary : withLibrary.Rested :=
  (LibraryType.beyond_install.rested .empty).run .complete

/-- Completion comes to an end on every table that is made by steps, from nothing or from the table
    of the library, and completing a second time changes nothing. -/
theorem completes_of_reaches {t : TypeTable}
    (h : TypeTable.empty.Reaches t ∨ TypeTable.withLibrary.Reaches t) : t.Completes := by
  rcases h with h | h
  · exact (h.rested .empty).completes (h.sound .empty)
  · exact (h.rested rested_withLibrary).completes (h.sound derived_withLibrary.toSound)

/-- An interface that extends itself with a wrapped argument, so that completion goes on to its limit,
    and a class that is its own base. -/
def unending : TypeTable :=
  [TableStep.declare "" "W" .classType ["T"] none, .declare "" "I" .interfaceType ["T"] none,
    .construct ⟨1⟩ [⟨2⟩], .construct ⟨3⟩ [⟨4⟩], .addInterface ⟨3⟩ ⟨5⟩,
    .setBase ⟨1⟩ ⟨1⟩].foldl (fun t step => step.run t) .empty

theorem completes_unending :
    TypeTable.empty.Reaches unending ∧ unending.Completes ∧ unending.complete.size = 22 := by
  have hclass : TypeTable.empty.Reaches (TableStep.run (.declare "" "W" .classType ["T"] none) .empty) :=
    .single ⟨_, by decide, rfl⟩
  have hinterface := hclass.tail ⟨.declare "" "I" .interfaceType ["T"] none, by decide, rfl⟩
  have hwrapped := hinterface.tail ⟨.construct ⟨1⟩ [⟨2⟩], by decide, rfl⟩
  have hextended := hwrapped.tail ⟨.construct ⟨3⟩ [⟨4⟩], by decide, rfl⟩
  have hextends := hextended.tail ⟨.addInterface ⟨3⟩ ⟨5⟩, by decide, rfl⟩
  have hunending : TypeTable.empty.Reaches unending :=
    hextends.tail ⟨.setBase ⟨1⟩ ⟨1⟩, by decide, rfl⟩
  exact ⟨hunending, completes_of_reaches (.inl hunending), by decide +kernel⟩

end TypeTable

end SettingsLint
