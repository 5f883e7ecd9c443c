import SettingsLint.Proofs.Tree.Places
import SettingsLint.Reading.Unit

/-! # Values that correspond

Tokens that are read twice give the same values at other places. A `Correspondence` says how the
places of the two are compared, and `Relates` says of two values that they are the same up to that.
It is a class: values that are put together from values that correspond do so, too, and readers ask
the same questions about them (`Keeps`).
-/

namespace SettingsLint

open Placed (relocate places erase)

/-- What becomes of the places of two values so that they are the same, and what the places of the
first one are. -/
structure Correspondence where
  left : Span → Span
  right : Span → Span
  counts : Place → Prop
  gap : ∀ {span}, counts (.node span) → counts (.gap span)
  property : ∀ {name span}, counts (.name name span) → counts (.property name span)

/-- No place makes a difference. -/
def Correspondence.erasing : Correspondence := ⟨fun _ => default, fun _ => default, fun _ => True, id, id⟩

namespace Correspondence

/-- The values are the same at places that correspond. -/
class Relates [Placed α] (c : Correspondence) (a a' : α) : Prop where
  same : relocate (fun p => c.right p.span) a' = relocate (fun p => c.left p.span) a
  counted : ∀ p ∈ places a, c.counts p

/-- Two values that correspond. -/
structure Pair (c : Correspondence) (α : Type) [Placed α] where
  left : α
  right : α
  relates : c.Relates left right

/-- Both questions have the same answer. -/
class Keeps (c : Correspondence) (p p' : Prop) : Prop where
  iff : p' ↔ p

variable {c : Correspondence}

instance [Placed α] (x : c.Pair α) : c.Relates x.left x.right := x.relates

section

variable [Placed α] [Placed β] {a a' : α} {b b' : β} {as as' bs bs' : List α} {o o' : Option α}

theorem counted_append {ps qs : List Place} (hps : ∀ p ∈ ps, c.counts p) (hqs : ∀ p ∈ qs, c.counts p) :
    ∀ p ∈ ps ++ qs, c.counts p := List.forall_mem_append.mpr ⟨hps, hqs⟩

instance : c.Relates (none : Option α) none := ⟨rfl, List.forall_mem_nil _⟩
instance : c.Relates ([] : List α) [] := ⟨rfl, List.forall_mem_nil _⟩

instance [h : c.Relates a a'] : c.Relates (id a) (id a') := h

instance [h : c.Relates a a'] : c.Relates (some a) (some a') :=
  ⟨congrArg some h.same, by simpa only [places_some] using h.counted⟩

instance [h : c.Relates a a'] [hs : c.Relates as as'] : c.Relates (a :: as) (a' :: as') :=
  ⟨(congr (congrArg List.cons h.same) hs.same :), by rw [places_cons]; exact counted_append h.counted hs.counted⟩

instance [h : c.Relates a a'] [h' : c.Relates b b'] : c.Relates (a, b) (a', b') :=
  ⟨(congr (congrArg Prod.mk h.same) h'.same :), counted_append h.counted h'.counted⟩

theorem Relates.pair {x y : α × β} (h : c.Relates x y) : c.Relates x.1 y.1 ∧ c.Relates x.2 y.2 := by
  obtain ⟨hl, hr⟩ := List.forall_mem_append.mp h.counted
  exact ⟨⟨congrArg Prod.fst h.same, hl⟩, ⟨congrArg Prod.snd h.same, hr⟩⟩

theorem Relates.of_some (h : c.Relates (some a) (some a')) : c.Relates a a' :=
  ⟨Option.some.inj h.same, by simpa only [places_some] using h.counted⟩

/-- A value that may be missing is there in both or in none. -/
@[elab_as_elim]
theorem Relates.option {motive : Option α → Option α → Prop} (h : c.Relates o o')
    (none : motive none none) (some : ∀ a a', c.Relates a a' → motive (some a) (some a')) : motive o o' := by
  cases o with
  | none =>
    cases o' with
    | none => exact none
    | some a' => cases h.same
  | some a =>
    cases o' with
    | none => cases h.same
    | some a' => exact some a a' h.of_some

/-- Lists that correspond do so item by item. -/
theorem Relates.list {motive : List α → List α → Prop} (h : c.Relates as as') (nil : motive [] [])
    (cons : ∀ a a' as as', c.Relates a a' → c.Relates as as' → motive as as' → motive (a :: as) (a' :: as')) :
    motive as as' := by
  induction as generalizing as' with
  | nil =>
    cases as' with
    | nil => exact nil
    | cons a' as' => cases h.same
  | cons a as ih =>
    cases as' with
    | nil => cases h.same
    | cons a' as' =>
      obtain ⟨hcounted, hrest⟩ := List.forall_mem_append.mp (places_cons a as ▸ h.counted)
      have hs : c.Relates as as' := ⟨(List.cons.inj h.same).2, hrest⟩
      exact cons a a' as as' ⟨(List.cons.inj h.same).1, hcounted⟩ hs (ih hs)

theorem Relates.append (h : c.Relates as as') (h' : c.Relates bs bs') : c.Relates (as ++ bs) (as' ++ bs') :=
  h.list (motive := fun as as' => c.Relates (as ++ bs) (as' ++ bs')) h' fun a a' as as' _ _ _ =>
    inferInstanceAs (c.Relates (a :: (as ++ bs)) (a' :: (as' ++ bs')))

theorem Relates.flatMap {f : α → List β} (h : c.Relates as as')
    (hf : ∀ a a', c.Relates a a' → c.Relates (f a) (f a')) : c.Relates (as.flatMap f) (as'.flatMap f) :=
  h.list (motive := fun as as' => c.Relates (as.flatMap f) (as'.flatMap f))
    (inferInstanceAs (c.Relates [] [])) fun a a' _ _ h _ ih => (hf a a' h).append ih

theorem Relates.toList (h : c.Relates o o') : c.Relates o.toList o'.toList :=
  h.option (inferInstanceAs (c.Relates [] [])) fun a a' _ => inferInstanceAs (c.Relates [a] [a'])

theorem Relates.length_eq (h : c.Relates as as') : as'.length = as.length :=
  h.list (motive := fun as as' => as'.length = as.length) rfl fun _ _ _ _ _ _ ih => congrArg (· + 1) ih

theorem Relates.getLastD (h : c.Relates as as') : ∀ a a', c.Relates a a' →
    c.Relates (as.getLastD a) (as'.getLastD a') :=
  h.list (motive := fun as as' => ∀ a a', c.Relates a a' → c.Relates (as.getLastD a) (as'.getLastD a'))
    (fun _ _ => id) fun a a' as as' h _ ih _ _ _ => by simpa only [List.getLastD_cons] using ih a a' h

instance [hs : c.Relates as as'] [ha : c.Relates a a'] : c.Relates (as.getLastD a) (as'.getLastD a') :=
  hs.getLastD a a' ha

instance {f f' : α → β} [h : c.Relates o o'] [hf : ∀ x : c.Pair α, c.Relates (f x.left) (f' x.right)] :
    c.Relates (o.map f) (o'.map f') :=
  h.option (inferInstanceAs (c.Relates none none)) fun a a' h =>
    have := hf ⟨a, a', h⟩
    inferInstanceAs (c.Relates (some (f a)) (some (f' a')))

instance {parts parts' : List (Option α)} [h : c.Relates parts parts'] :
    c.Relates (parts.filterMap id) (parts'.filterMap id) :=
  h.list (motive := fun as as' => c.Relates (as.filterMap id) (as'.filterMap id))
    (inferInstanceAs (c.Relates [] [])) fun _ _ as as' h _ ih => h.option
      (motive := fun o o' => c.Relates ((o :: as).filterMap id) ((o' :: as').filterMap id)) ih fun a a' _ =>
        inferInstanceAs (c.Relates (a :: as.filterMap id) (a' :: as'.filterMap id))

end

/-! ## What readers ask -/

section

variable {x x' y y' : Bool} {k k' : TokenKind} {p p' : Prop}

theorem Relates.plain {b b' : Bool} (h : b' = b) : c.Relates b b' := ⟨h, List.forall_mem_nil _⟩

instance (b : Bool) : c.Relates b b := .plain rfl
instance (u u' : Unit) : c.Relates u u' := ⟨rfl, List.forall_mem_nil _⟩
instance (k : TokenKind) : c.Relates k k := ⟨rfl, List.forall_mem_nil _⟩
instance (k : DeclarationKind) : c.Relates k k := ⟨rfl, List.forall_mem_nil _⟩

instance [hx : c.Relates x x'] [hy : c.Relates y y'] : c.Relates (x && y) (x' && y') :=
  .plain (congr (congrArg Bool.and hx.same) hy.same :)
instance [hx : c.Relates x x'] [hy : c.Relates y y'] : c.Relates (x || y) (x' || y') :=
  .plain (congr (congrArg Bool.or hx.same) hy.same :)
instance [h : c.Relates x x'] : c.Relates (!x) (!x') := .plain (congrArg Bool.not h.same)
instance [h : c.Relates k k'] : c.Relates k.isEof k'.isEof := .plain (congrArg TokenKind.isEof h.same)
instance [h : c.Relates k k'] : c.Relates k.isOpener k'.isOpener := .plain (congrArg TokenKind.isOpener h.same)
instance [h : c.Relates k k'] : c.Relates k.name?.isSome k'.name?.isSome :=
  .plain (congrArg (·.name?.isSome) h.same)
instance [h : c.Relates k k'] (word : String) : c.Relates (k.isWord word) (k'.isWord word) :=
  .plain (congrArg (·.isWord word) h.same)
instance [h : c.Relates k k'] (words : List String) : c.Relates (k.isOneOf words) (k'.isOneOf words) :=
  .plain (congrArg (·.isOneOf words) h.same)

instance [Placed α] {o o' : Option α} [h : c.Relates o o'] : c.Relates o.isSome o'.isSome :=
  h.option (.plain rfl) fun _ _ _ => .plain rfl
instance [Placed α] {o o' : Option α} [h : c.Relates o o'] : c.Relates o.isNone o'.isNone :=
  h.option (.plain rfl) fun _ _ _ => .plain rfl
instance [Placed α] {parts parts' : List (Option α)} [h : c.Relates parts parts'] :
    c.Relates (parts.all (·.isSome)) (parts'.all (·.isSome)) :=
  h.list (motive := fun as as' => c.Relates (as.all (·.isSome)) (as'.all (·.isSome))) (.plain rfl)
    fun o o' as as' _ _ _ =>
      inferInstanceAs (c.Relates (o.isSome && as.all (·.isSome)) (o'.isSome && as'.all (·.isSome)))

instance (p : Prop) : c.Keeps p p := ⟨Iff.rfl⟩
instance [h : c.Relates x x'] : c.Keeps (x = true) (x' = true) := ⟨by rw [show x' = x from h.same]⟩
instance [h : c.Relates k k'] (kind : TokenKind) : c.Keeps (k = kind) (k' = kind) :=
  ⟨by rw [show k' = k from h.same]⟩
instance [h : c.Relates k k'] (kind : TokenKind) : c.Keeps (k ≠ kind) (k' ≠ kind) :=
  ⟨by rw [show k' = k from h.same]⟩
instance {k k' : DeclarationKind} [h : c.Relates k k'] (kind : DeclarationKind) :
    c.Keeps (k = kind) (k' = kind) := ⟨by rw [show k' = k from h.same]⟩
instance [Decidable p] [Decidable p'] [h : c.Keeps p p'] : c.Relates (decide p) (decide p') :=
  .plain (decide_eq_decide.mpr h.iff)

end

/-! ## Trees -/

theorem Relates.counts_gap {span span' : Span} (h : c.Relates span span') : c.counts (.gap span) :=
  c.gap (h.counted _ List.mem_cons_self)

section

variable {span span' : Span} {name name' : Ident} {type type' : TypeExpr} {modifiers modifiers' : List Ident}
  {attributes attributes' : List AttributeList} {parameters parameters' : List Parameter}
  [hspan : c.Relates span span'] [hname : c.Relates name name'] [htype : c.Relates type type']
  [hmodifiers : c.Relates modifiers modifiers'] [hattributes : c.Relates attributes attributes']
  [hparameters : c.Relates parameters parameters']

instance : c.Relates (TypeExpr.unsupported span) (.unsupported span') :=
  ⟨congrArg TypeExpr.unsupported hspan.same, List.forall_mem_singleton.mpr hspan.counts_gap⟩

instance {arguments arguments' : List TypeExpr} [h : c.Relates arguments arguments'] :
    c.Relates (NameSegment.mk name arguments) (.mk name' arguments') :=
  ⟨by rw [relocate_segment, relocate_segment, hname.same, h.same], by
    rw [places_segment]; exact counted_append hname.counted h.counted⟩

instance {isGlobal isGlobal' : Bool} {segments segments' : List NameSegment}
    [hglobal : c.Relates isGlobal isGlobal'] [h : c.Relates segments segments'] :
    c.Relates (TypeExpr.named isGlobal segments span) (.named isGlobal' segments' span') :=
  ⟨by rw [relocate_named, relocate_named, h.same, show isGlobal' = isGlobal from hglobal.same]
      exact congrArg _ hspan.same, by
    rw [places_named]; exact counted_append h.counted hspan.counted⟩

instance : c.Relates (TypeExpr.nullable type span) (.nullable type' span') :=
  ⟨(congr (congrArg TypeExpr.nullable htype.same) hspan.same :), counted_append htype.counted hspan.counted⟩

instance [Placed α] {as as' : List α} [h : c.Relates as as'] : c.Relates
    (TypeExpr.array type (min 255 (1 + as.length)) span) (.array type' (min 255 (1 + as'.length)) span') :=
  ⟨by rw [h.length_eq]; exact (congr (congrArg (TypeExpr.array · _) htype.same) hspan.same :),
    counted_append htype.counted hspan.counted⟩

instance (name : Option String) : c.Keeps (type.simpleName? = name) (type'.simpleName? = name) :=
  ⟨by rw [← simpleName?_relocate _ type, ← htype.same, simpleName?_relocate]⟩

instance : c.Relates (Expr.typeOf type span) (.typeOf type' span') :=
  ⟨(congr (congrArg Expr.typeOf htype.same) hspan.same :), counted_append htype.counted hspan.counted⟩

instance (kind : LiteralKind) (text : String) :
    c.Relates (Expr.literal kind text span) (.literal kind text span') :=
  ⟨congrArg (Expr.literal kind text) hspan.same, hspan.counted⟩

instance : c.Relates (Expr.other span) (.other span') := ⟨congrArg Expr.other hspan.same, hspan.counted⟩

instance (mark : ArgumentMark) : c.Relates (ArgumentName.mk name mark) ⟨name', mark⟩ :=
  ⟨congrArg (ArgumentName.mk · mark) hname.same, hname.counted⟩

instance {name name' : Option ArgumentName} {value value' : Expr} [hname : c.Relates name name']
    [hvalue : c.Relates value value'] : c.Relates (Argument.mk name value span) ⟨name', value', span'⟩ :=
  ⟨(congr (congr (congrArg Argument.mk hname.same) hvalue.same) hspan.same :),
    counted_append (counted_append hname.counted hvalue.counted) hspan.counted⟩

instance {opening opening' : Span} {arguments arguments' : List Argument}
    [hopening : c.Relates opening opening'] [h : c.Relates arguments arguments'] :
    c.Relates (ArgumentList.mk opening span arguments) ⟨opening', span', arguments'⟩ :=
  ⟨(congr (congr (congrArg ArgumentList.mk hopening.same) hspan.same) h.same :),
    counted_append (counted_append h.counted hopening.counted) (List.forall_mem_singleton.mpr hspan.counts_gap)⟩

/-- The name of an attribute is put at its own place. -/
theorem withSpan_relocate (f : Span → Span) (type : TypeExpr) :
    (relocate (fun p => f p.span) type).withSpan (f type.span) = relocate (fun p => f p.span) type := by
  have hspan : f type.span = (relocate (fun p => f p.span) type).span := by
    cases type with
    | named isGlobal segments span => rw [relocate_named]; rfl
    | _ => rfl
  rw [hspan, TypeExpr.withSpan_span]

theorem relates_attribute {arguments arguments' : Option ArgumentList} [h : c.Relates arguments arguments']
    (hnode : c.counts (.node type.span)) :
    c.Relates (Attribute.mk type arguments span) ⟨type', arguments', span'⟩ :=
  ⟨(congr (congr (congrArg Attribute.mk ((withSpan_relocate c.right type').trans (htype.same.trans
      (withSpan_relocate c.left type).symm))) h.same) hspan.same :),
    counted_append (counted_append (counted_append htype.counted (List.forall_mem_singleton.mpr hnode))
      h.counted) hspan.counted⟩

instance {target target' : Option Ident} {attributes attributes' : List Attribute}
    [htarget : c.Relates target target'] [hattributes : c.Relates attributes attributes'] :
    c.Relates (AttributeList.mk target attributes span) ⟨target', attributes', span'⟩ :=
  ⟨(congr (congr (congrArg AttributeList.mk htarget.same) hattributes.same) hspan.same :),
    counted_append (counted_append htarget.counted hattributes.counted) hspan.counted⟩

instance {hasDefault hasDefault' : Bool} [h : c.Relates hasDefault hasDefault'] : c.Relates
    (Parameter.mk modifiers type name hasDefault span) ⟨modifiers', type', name', hasDefault', span'⟩ :=
  ⟨(congr (congr (congr (congr (congrArg Parameter.mk hmodifiers.same) htype.same) hname.same) h.same) hspan.same :),
    counted_append (counted_append (counted_append hmodifiers.counted htype.counted) hname.counted)
      hspan.counted⟩

instance : c.Relates (Constructor.mk modifiers name parameters span)
    ⟨modifiers', name', parameters', span'⟩ :=
  ⟨(congr (congr (congr (congrArg Constructor.mk hmodifiers.same) hname.same) hparameters.same) hspan.same :),
    counted_append (counted_append (counted_append hmodifiers.counted hname.counted) hparameters.counted)
      hspan.counted⟩

instance : c.Relates (Property.mk attributes modifiers type name span)
    ⟨attributes', modifiers', type', name', span'⟩ :=
  ⟨(congr (congr (congr (congr (congrArg Property.mk hattributes.same) hmodifiers.same) htype.same) hname.same)
      hspan.same :),
    counted_append (counted_append (counted_append (counted_append hattributes.counted hmodifiers.counted)
      htype.counted) (List.forall_mem_singleton.mpr (c.property (hname.counted _ List.mem_cons_self))))
      hspan.counted⟩

instance : c.Relates (Member.other span) (.other span') := ⟨congrArg Member.other hspan.same, hspan.counted⟩

instance {p p' : Property} [h : c.Relates p p'] : c.Relates (Member.property p) (.property p') :=
  ⟨congrArg Member.property h.same, h.counted⟩

instance {k k' : Constructor} [h : c.Relates k k'] : c.Relates (Member.constructor k) (.constructor k') :=
  ⟨congrArg Member.constructor h.same, h.counted⟩

instance {d d' : TypeDeclaration} [h : c.Relates d d'] : c.Relates (Member.nested d) (.nested d') :=
  ⟨congrArg Member.nested h.same, h.counted⟩

instance {kind kind' : DeclarationKind} {typeParameters typeParameters' : List Ident}
    {primary primary' : Option (List Parameter)} {bases bases' : List TypeExpr}
    [hkind : c.Relates kind kind'] [htypeParameters : c.Relates typeParameters typeParameters']
    [hprimary : c.Relates primary primary'] [hbases : c.Relates bases bases'] : c.Relates
      (DeclarationHeader.mk attributes modifiers kind name typeParameters primary bases span)
      ⟨attributes', modifiers', kind', name', typeParameters', primary', bases', span'⟩ :=
  ⟨(congr (congr (congr (congr (congr (congr (congr (congrArg DeclarationHeader.mk hattributes.same)
      hmodifiers.same) hkind.same) hname.same) htypeParameters.same) hprimary.same) hbases.same) hspan.same :),
    counted_append (counted_append (counted_append (counted_append (counted_append (counted_append
      hattributes.counted hmodifiers.counted) hname.counted) htypeParameters.counted) hprimary.counted)
      hbases.counted) hspan.counted⟩

instance : c.Relates UsingKind.ofNamespace .ofNamespace := ⟨rfl, List.forall_mem_nil _⟩
instance : c.Relates UsingKind.ofStatic .ofStatic := ⟨rfl, List.forall_mem_nil _⟩
instance : c.Relates (UsingKind.ofAlias name) (.ofAlias name') :=
  ⟨congrArg UsingKind.ofAlias hname.same, hname.counted⟩

instance {isGlobal isGlobal' : Bool} {kind kind' : UsingKind} [hglobal : c.Relates isGlobal isGlobal']
    [hkind : c.Relates kind kind'] :
    c.Relates (UsingDirective.mk isGlobal kind type span) ⟨isGlobal', kind', type', span'⟩ :=
  ⟨(congr (congr (congr (congrArg UsingDirective.mk hglobal.same) hkind.same) htype.same) hspan.same :),
    counted_append (counted_append hkind.counted htype.counted) hspan.counted⟩

end

end Correspondence

/-! ## Values that are alike -/

section

open Correspondence

/-- The values are the same without their places. -/
abbrev Alike [Placed α] (a a' : α) : Prop := erasing.Relates a a'

variable [Placed α] {a a' : α}

theorem Correspondence.Relates.erased (h : erasing.Relates a a') : erase a' = erase a := h.same

theorem Alike.of_erased (h : erase a' = erase a) : Alike a a' := ⟨h, fun _ _ => trivial⟩

theorem Alike.refl (a : α) : Alike a a := .of_erased rfl

instance (span span' : Span) : Alike span span' := .of_erased rfl

instance (text : String) (span span' : Span) : Alike (Ident.mk text span) ⟨text, span'⟩ := .of_erased rfl

instance {type type' : TypeExpr} {arguments arguments' : Option ArgumentList} {span span' : Span}
    [Alike type type'] [Alike arguments arguments'] :
    Alike (Attribute.mk type arguments span) ⟨type', arguments', span'⟩ := relates_attribute trivial

end

end SettingsLint
