import SettingsLint.Proofs.Fix.ArgumentPlans
import SettingsLint.Proofs.Reading.MemberParts

/-! # Naming the type in the text: attributes

The plans for the arguments are put into the attributes and their lists. An attribute
without arguments gets a list of them after its name. All other tokens are kept, so the
lists that are read from the new tokens have the same attributes in the same places.
-/

set_option synthInstance.maxSize 1024

namespace SettingsLint

open Read
open Placed (erase)
open TypeArgumentFix

/-! ## One attribute -/

section

variable {s : Cursor} {n : Naming}

/-- The tokens of the name are read as the name before a parenthesis. -/
theorem Read.exists_nameTokens (hs : EndsInEof s.tokens)
    (hclean : (qualifiedName typeExpr s).2.errors = []) :
    ∃ u, u ≠ [] ∧ s.tokens = u ++ (qualifiedName typeExpr s).2.tokens ∧
      ∀ v, Reads (qualifiedName typeExpr) s.depth (u.map (·.kind) ++ .leftParen :: v)
        (.leftParen :: v) (qualifiedName typeExpr s).1 := by
  have hreach := Forward.reaches (r := qualifiedName typeExpr) s
  obtain ⟨u, hu, -⟩ := hreach.read
  refine ⟨u, ?_, hu, fun v => ?_⟩
  · rintro rfl
    exact (takes_qualifiedName typeExpr s).tokens_ne hs hclean List.suffix_rfl hu
  · refine Replays.reads hu hclean fun t v' s' ht hv' => ?_
    have : Ends (qualifiedName typeExpr s).2.tokens (t :: v') := ⟨hreach.endsInEof hs, hv'⟩
    have : TypeEnds (qualifiedName typeExpr s).2.tokens (t :: v') := ⟨.inr ⟨t, v', rfl, .inl ht⟩⟩
    infer_instance

/-- A name and an argument list are an attribute. -/
theorem Reads.namedAttribute {d : Nat} {name : TypeExpr} {list : ArgumentList}
    {u v w : List TokenKind}
    (hname : Reads (qualifiedName typeExpr) d u (.leftParen :: w) name)
    (hlist : Reads Read.argumentList d (.leftParen :: w) v list) (place : Span) :
    Reads Read.namedAttribute d u v ⟨name, some list, place⟩ := by
  have hsome : Reads (some <$> Read.argumentList) d (.leftParen :: w) v (some list) :=
    hlist.map fun _ h => by rw [erase_some, erase_some, h]
  refine (Reads.span default).bind fun first _ => hname.bind fun name' hname' => ?_
  refine .kind (.of_pos rfl ?_)
  refine hsome.bind_some fun list' hlist' => (Reads.spanFrom first default).bind fun _ _ => .pure ?_
  rw [erase_attribute, erase_attribute, hname', erase_some, erase_some, hlist']

/-- There is a plan that names the type in the attribute by the edit that the fix makes. -/
def Naming.FitsAttribute (n : Naming) (prev : TokenKind) (s : Cursor) : Prop :=
  ∃ π : Plan, π.Changes namedAttribute (fun _ => True) prev s (namedAttribute s).2
    [editFor n.text (namedAttribute s).1]
    { (namedAttribute s).1 with
      arguments := some (ArgumentList.nameType n.type (namedAttribute s).1.arguments) } ∧
    ∃ ks, π.kinds = s.kind :: ks

variable (hs : s.Lexed) (hclean : (namedAttribute s).2.errors = []) (prev : TokenKind)

include hs hclean

/-- The attribute is kept. -/
theorem exists_keep_attribute (hend : endsItem .rightBracket (namedAttribute s).2.kind) :
    ∃ u, u ≠ [] ∧ (Plan.keep u).Changes namedAttribute (· = (namedAttribute s).2.kind)
      prev s (namedAttribute s).2 [] (namedAttribute s).1 := by
  have hreach := Forward.reaches (r := namedAttribute) s
  obtain ⟨u, hu, -⟩ := hreach.read
  refine ⟨u, ?_, by simpa using hu, by simp, Plan.fits_keep _ _, fun k v hk => ?_⟩
  · rintro rfl
    have htakes : Takes namedAttribute :=
      .bind_right fun _ s => (takes_qualifiedName _ s).bind
    exact (htakes s).tokens_ne hs.endsInEof hclean List.suffix_rfl hu
  · rw [Plan.kinds_keep]
    refine Replays.reads hu hclean fun t v' s' ht hv' => ?_
    have : Ends (namedAttribute s).2.tokens (t :: v') := ⟨(hreach.lexed hs).endsInEof, hv'⟩
    suffices Agree (namedAttribute s).2.tokens (t :: v') from inferInstance
    refine ⟨?_⟩
    -- A comma or a closing bracket is all that is looked at.
    have hlook : lookahead (namedAttribute s).2.tokens = 1 := by
      rw [Cursor.tokens, lookahead, if_pos]
      rcases hend with h | h
      · exact .inl h
      · exact .inr (.inl h)
    rw [hlook]
    exact congrArg (fun k => [k]) (ht.trans hk)

/-- The attribute has arguments, and the type is named in them. -/
theorem exists_plan_arguments (hn : n.Valid s.depth)
    (hk : (qualifiedName typeExpr s).2.kind = .leftParen) : n.FitsAttribute prev s := by
  have hreach := Forward.reaches (r := qualifiedName typeExpr) s
  have hrun := namedAttribute_of_arguments hk
  rw [Naming.FitsAttribute]
  rw [hrun] at hclean ⊢
  have hclean₁ : (qualifiedName typeExpr s).2.errors = [] :=
    (Forward.reaches _).clean hclean
  obtain ⟨u, hne, hu, hreads⟩ := exists_nameTokens hs.endsInEof hclean₁
  obtain ⟨π, hπ, ks, hks⟩ := exists_plan_argumentList (hreach.lexed hs) hk hclean
    (hreach.depth ▸ hn) (Plan.last prev (Plan.keep u))
  refine ⟨Plan.keep u ++ π, ⟨?_, ?_, ?_, fun k v hstop => ?_⟩, ?_⟩
  · have hold := hπ.old
    rw [Plan.old_append, Plan.old_keep, List.append_assoc, ← hold, hu]
  · simp [hπ.edits, editFor]
  · exact Plan.fits_append.2 ⟨Plan.fits_keep _ _, hπ.fits⟩
  · have hlist := hπ.reads k v trivial
    rw [hreach.depth, hks] at hlist
    rw [Plan.kinds_append, Plan.kinds_keep, List.append_assoc, hks]
    exact (hreads _).namedAttribute hlist _
  · obtain ⟨ks, hks⟩ := Plan.exists_kinds_keep hu hne
    exact ⟨_, by rw [Plan.kinds_append, hks]; rfl⟩

/-- The attribute has no arguments, and gets a list of them after its name. -/
theorem exists_plan_newArguments (hn : n.Valid s.depth)
    (hk : (qualifiedName typeExpr s).2.kind ≠ .leftParen) : n.FitsAttribute prev s := by
  have hreach := Forward.reaches (r := qualifiedName typeExpr) s
  have hrun := namedAttribute_of_none hk
  rw [Naming.FitsAttribute]
  rw [hrun] at hclean ⊢
  obtain ⟨u, hne, hu, hreads⟩ := exists_nameTokens hs.endsInEof hclean
  obtain ⟨ks, hks⟩ := Plan.exists_kinds_keep hu hne
  obtain ⟨w, x, rfl⟩ := List.eq_nil_or_concat u |>.resolve_left hne
  rw [List.concat_eq_append] at *
  have hstop : (qualifiedName typeExpr s).1.span.stop = x.span.stop := by
    rw [span_qualifiedName, hreach.spanFrom_stop hs.ordered hu]
  set new : List TokenKind := .leftParen :: (n.typeOfKinds ++ [.rightParen]) with hnew
  have hkinds : (Plan.keep w ++ [Piece.after x ("(" ++ n.text ++ ")") new]).kinds =
      (w ++ [x]).map (·.kind) ++ new := by simp
  refine ⟨Plan.keep w ++ [.after x ("(" ++ n.text ++ ")") new],
    ⟨by simpa using hu, ?_, ?_, fun k v _ => ?_⟩, ?_⟩
  · simp [editFor, hstop]
  · refine Plan.fits_append.2 ⟨Plan.fits_keep _ _, ⟨.inl ?_, ?_⟩, trivial⟩
    · simp
    · rw [String.toList_append, String.toList_append]
      exact (Token.spelled_leftParen.append hn.spelled).append Token.spelled_rightParen
  · have hlist := (hn.reads_last (v := k :: v)).argumentList default default
    rw [hkinds, List.append_assoc, List.cons_append, List.append_assoc]
    exact (hreads _).namedAttribute hlist _
  · rw [Plan.kinds_keep] at hks
    exact ⟨_, by rw [hkinds, hks]; rfl⟩

theorem exists_plan_namedAttribute (hn : n.Valid s.depth) : n.FitsAttribute prev s := by
  by_cases hk : (qualifiedName typeExpr s).2.kind = .leftParen
  · exact exists_plan_arguments hs hclean prev hn hk
  · exact exists_plan_newArguments hs hclean prev hn hk

end

/-! ## The attributes of a list -/

section

variable {s : Cursor} {n : Naming} {a : Attribute}

theorem Read.attributeItem_eq (s : Cursor) : attributeItem s =
    (if s.atName = true then some <$> namedAttribute else (do
      expected "an attribute name"
      return none) : Read (Option Attribute)) s := rfl

theorem Read.attributeItem_of_some (h : (attributeItem s).1 = some a) :
    s.atName = true ∧ attributeItem s = (some (namedAttribute s).1, (namedAttribute s).2) := by
  have hrun := attributeItem_eq s
  by_cases hname : s.atName = true
  · rw [if_pos hname] at hrun
    exact ⟨hname, hrun⟩
  · rw [if_neg hname] at hrun
    rw [hrun] at h
    exact nomatch h

theorem Read.attributeItem_fault (h : (attributeItem s).1 = none) :
    (attributeItem s).2.errors ≠ [] := by
  rw [attributeItem_eq] at h ⊢
  split at h
  · exact nomatch h
  · rw [if_neg ‹_›]
    exact List.append_ne_nil_of_right_ne_nil _ (List.cons_ne_nil _ _)

/-- The edits that name the type in an attribute. -/
def attributeEdits (text : String) (a : Attribute) : List TextEdit :=
  if isBinding a then [editFor text a] else []

/-- An attribute that is changed is changed as an item of its list. -/
theorem Plan.Changes.attributeItem {π : Plan} {prev : TokenKind} {stop : TokenKind → Prop} {t : Cursor}
    {es : List TextEdit} (h : π.Changes namedAttribute stop prev s t es a)
    (hname : s.atName = true) (hfirst : ∃ ks, π.kinds = s.kind :: ks) :
    π.Changes attributeItem stop prev s t es (some a) := by
  refine ⟨h.old, h.edits, h.fits, fun k v hk => ?_⟩
  obtain ⟨ks, hks⟩ := hfirst
  have hreads := h.reads k v hk
  rw [hks] at hreads ⊢
  refine .get fun s' hs' => .of_pos ?_ (hreads.map fun _ he => by rw [erase_some, erase_some, he])
  rw [At.atName hs']
  exact hname

variable (hs : s.Lexed) (hclean : (attributeItem s).2.errors = [])
  (ha : (attributeItem s).1 = some a) (hend : endsItem .rightBracket (attributeItem s).2.kind)
  (prev : TokenKind)

include hs hclean ha hend

theorem exists_keep_attributeItem :
    ∃ π : Plan, π.Changes attributeItem (· = (attributeItem s).2.kind) prev s
      (attributeItem s).2 [] (some a) ∧ ∃ ks, π.kinds = s.kind :: ks := by
  obtain ⟨hname, hrun⟩ := attributeItem_of_some ha
  rw [hrun] at hclean hend ⊢
  obtain rfl : (namedAttribute s).1 = a := by simpa [hrun] using ha
  obtain ⟨u, hne, hu⟩ := exists_keep_attribute hs hclean prev hend
  have hfirst := Plan.exists_kinds_keep (by simpa using hu.old) hne
  exact ⟨Plan.keep u, hu.attributeItem hname hfirst, hfirst⟩

theorem exists_plan_attributeItem (hn : n.Valid s.depth) :
    ∃ π : Plan, π.Changes attributeItem (· = (attributeItem s).2.kind) prev s
      (attributeItem s).2 (attributeEdits n.text a) (some (a.nameType n.type)) ∧
      ∃ ks, π.kinds = s.kind :: ks := by
  rw [attributeEdits, Attribute.nameType]
  split
  case isTrue =>
    obtain ⟨hname, hrun⟩ := attributeItem_of_some ha
    rw [hrun] at hclean ⊢
    obtain rfl : (namedAttribute s).1 = a := by simpa [hrun] using ha
    obtain ⟨π, hπ, hfirst⟩ := exists_plan_namedAttribute hs hclean prev hn
    exact ⟨π, (hπ.mono fun _ _ => trivial).attributeItem hname hfirst, hfirst⟩
  case isFalse => exact exists_keep_attributeItem hs hclean ha hend prev

end

/-! ## What the attributes apply to -/

section

variable {s : Cursor}

/-- Before a colon nothing but a name is read. -/
theorem Read.attributes_before_colon {name : String} (hk : s.kind.name? = some name)
    (hcolon : s.advance.kind = .colon) (hpeek : s.peek 1 = .colon) :
    (attributes s).2.kind = .colon := by
  have hkind : s.kind = .identifier name := TokenKind.eq_identifier hk
  have hsegment : nameSegment typeExpr s = ((some (.mk ⟨name, s.span⟩ []), false), s.advance) := by
    rw [nameSegment, bind_apply, ident_of_some hk]
    have hargs : segmentArguments typeExpr s.advance = ([], s.advance) := by
      rw [segmentArguments, kind_bind, if_neg (by simp [hcolon])]
      rfl
    have hsep : separator s.advance = (false, s.advance) := by
      rw [separator, get_bind, if_neg (by simp [hcolon])]
      rfl
    simp only [bind_apply, hargs, hsep]
    rfl
  have hname : (qualifiedName typeExpr s).2 = s.advance := by
    show ((if (s.atWord "global" && s.peek 1 = .colonColon) = true then _ else _ : Read TypeExpr) s).2
      = _
    rw [if_neg (by simp [hpeek])]
    show (gather (nameSegment typeExpr) s).2 = _
    rw [gather_eq, hsegment]
    rfl
  have hattribute : (namedAttribute s).2 = s.advance := by
    rw [namedAttribute_of_none (by rw [hname, hcolon]; decide), hname]
  have hitem : attributeItem s = (some (namedAttribute s).1, (namedAttribute s).2) := by
    rw [attributeItem_eq, if_pos (by simp [Cursor.atName, hk])]
    rfl
  rw [attributes, gather_eq, listItem_of_last (by simp [hkind])
    (by simp [hkind]) (by rw [hitem]) (by rw [hitem, hattribute, hcolon]; decide)]
  simp [hitem, hattribute, hcolon]

theorem Read.attributeTarget_of_none (h : ¬ (s.atName && s.peek 1 = .colon) = true) :
    attributeTarget s = (none, s) := by
  rw [attributeTarget, get_bind, if_neg h]
  rfl

theorem Read.attributeTarget_of_some {name : String} (hk : s.kind.name? = some name)
    (h : s.peek 1 = .colon) :
    attributeTarget s = (some ⟨name, s.span⟩, (advance (advance s).2).2) := by
  rw [attributeTarget, get_bind, if_pos (by simp [Cursor.atName, hk, h]), bind_apply, ident_of_some hk]
  rfl

/-- The tokens of the target are read as the target again before attributes. -/
theorem Read.exists_targetTokens (hs : EndsInEof s.tokens) :
    ∃ w, s.tokens = w ++ (attributeTarget s).2.tokens ∧
      ∀ d z v as, Reads attributes d z (.rightBracket :: v) as →
        Reads attributeTarget d (w.map (·.kind) ++ z) z (attributeTarget s).1 := by
  by_cases h : (s.atName && s.peek 1 = .colon) = true
  · obtain ⟨hname, hpeek⟩ : s.atName = true ∧ s.peek 1 = .colon := by simpa using h
    obtain ⟨name, hk⟩ := Option.isSome_iff_exists.1 hname
    have hkind : s.current.kind = .identifier name := TokenKind.eq_identifier hk
    have heof : s.kind ≠ .eof := by
      rw [Cursor.kind, hkind]
      exact nofun
    have hcolon : (advance s).2.current.kind = .colon := (kind_advance heof hs).trans hpeek
    have hs' := (Cursor.Reaches.advance s).endsInEof hs
    rw [attributeTarget_of_some hk hpeek]
    refine ⟨[s.current, (advance s).2.current], ?_, fun d z v as _ => ?_⟩
    · have hlast := tokens_advance (s := (advance s).2) (by rw [Cursor.kind, hcolon]; decide) hs'
      rw [hlast, Cursor.tokens, ← tokens_advance heof hs]
      rfl
    · have htarget := reads_attributeTarget_some (d := d) (v := z) ⟨name, s.span⟩
      simpa [hkind, hcolon] using htarget
  · rw [attributeTarget_of_none h]
    refine ⟨[], rfl, fun d z v as hreads => .congr (fun s hs => ?_) (.pure rfl)⟩
    refine attributeTarget_of_none fun h => ?_
    -- If a colon stood after the first name, the attributes would end there.
    obtain ⟨hname, hpeek⟩ : s.atName = true ∧ s.peek 1 = .colon := by simpa using h
    obtain ⟨name, hk⟩ := Option.isSome_iff_exists.1 hname
    have heof : s.kind ≠ .eof := by
      intro heof
      simp [heof, TokenKind.name?] at hk
    have hcolon := attributes_before_colon hk ((kind_advance heof hs.endsInEof).trans hpeek) hpeek
    rw [(hreads s hs).1.kind] at hcolon
    cases hcolon

end

/-! ## Attribute lists -/

section

variable {s : Cursor} {n : Naming}

/-- A list starts with a name or is empty, so no angle bracket stands after the first token. -/
theorem Read.kind_after_leftBracket (hs : EndsInEof s.tokens)
    (hclean : (attributeList s).2.errors = []) : (advance s).2.kind ≠ .greater := by
  intro hk
  have hc := kind_of_attributeList_clean hclean
  have htarget : s.afterTarget = (advance s).2 := by
    have hnone := attributeTarget_of_none (s := (advance s).2)
      (by simp [Cursor.atName, hk, TokenKind.name?])
    rw [Cursor.afterTarget, hnone]
  have hclean₁ : (attributes s.afterTarget).2.errors = [] := by
    rw [attributeList_of_closed hc] at hclean
    exact (Cursor.Reaches.advance _).clean hclean
  rw [htarget] at hc hclean₁
  obtain ⟨as, t, hlist⟩ : ∃ as t, Listed attributeItem .rightBracket (advance s).2 as t :=
    ⟨_, _, .of_gather (fun _ => attributeItem_fault) ((Cursor.Reaches.advance s).endsInEof hs) hclean₁ hc⟩
  cases hlist with
  | nil h => rw [hk] at h; exact nomatch h
  | last _ _ ha _ | more _ _ ha _ _ =>
    have hname := (attributeItem_of_some ha).1
    simp [Cursor.atName, hk, TokenKind.name?] at hname

/-- A target and attributes between brackets are an attribute list. -/
theorem Reads.attributeList {d : Nat} {w u v : List TokenKind}
    {target : Option Ident} {attributes : List Attribute}
    (htarget : Reads attributeTarget d (w ++ (u ++ .rightBracket :: v))
      (u ++ .rightBracket :: v) target)
    (h : Reads Read.attributes d (u ++ .rightBracket :: v) (.rightBracket :: v) attributes)
    (place : Span) :
    Reads Read.attributeList d (.leftBracket :: (w ++ (u ++ .rightBracket :: v))) v
      ⟨target, attributes, place⟩ := by
  refine (Reads.advance TokenKind.noConfusion default).bind fun first _ => ?_
  refine htarget.bind fun target' htarget' => h.bind fun attributes' hattributes => ?_
  refine (Reads.expect TokenKind.noConfusion default).bind_some fun _ _ => .of_neg (by simp) ?_
  refine (Reads.spanFrom first default).bind fun _ _ => .pure ?_
  rw [erase_attributeList, erase_attributeList, htarget', hattributes]

/-- The edits that name the type in the attributes of a list. -/
def listEdits (text : String) (list : AttributeList) : List TextEdit :=
  if list.appliesToProperty then list.attributes.flatMap (attributeEdits text) else []

theorem exists_plan_attributes (hs : s.Lexed)
    (hclean : (attributes s).2.errors = []) (hk : (attributes s).2.kind = .rightBracket)
    (hn : n.Valid s.depth) (applies : Bool) (prev : TokenKind) :
    ∃ π : Plan, π.Changes attributes (· = .rightBracket) prev s (attributes s).2
      (if applies then (attributes s).1.flatMap (attributeEdits n.text) else [])
      (if applies then (attributes s).1.map (·.nameType n.type) else (attributes s).1) ∧
      (π.kinds ++ [TokenKind.rightBracket]).head? = some s.kind := by
  have hlist := Listed.of_gather (fun s => attributeItem_fault) hs.endsInEof hclean hk
  cases applies with
  | true =>
    refine hlist.exists_plan (by decide) rfl ?_ hs hclean prev
    intro s' a prev hd hs hclean ha hend
    exact exists_plan_attributeItem hs hclean ha hend prev (hd ▸ hn)
  | false =>
    have hplan := hlist.exists_plan (by decide) (g := id) (E := fun _ => []) rfl ?_ hs hclean prev
    · rw [List.flatMap_eq_nil_iff.2 fun _ _ => rfl, List.map_id] at hplan
      exact hplan
    · intro s' a prev _ hs hclean ha hend
      exact exists_keep_attributeItem hs hclean ha hend prev

/-- In the attribute list the type is named by the edits that the fix makes. -/
theorem exists_plan_attributeList (hs : s.Lexed)
    (hk : s.kind = .leftBracket) (hclean : (attributeList s).2.errors = [])
    (hn : n.Valid s.depth) (prev : TokenKind) :
    ∃ π : Plan, π.Changes attributeList (fun _ => True) prev s (attributeList s).2
      (listEdits n.text (attributeList s).1) ((attributeList s).1.nameType n.type) ∧
      ∃ ρ ks, π = .kept s.current :: ρ ∧ Plan.kinds ρ = (advance s).2.kind :: ks := by
  have hc := kind_of_attributeList_clean hclean
  have hrun := attributeList_of_closed hc
  set t := (attributes s.afterTarget).2 with ht
  have hadvance : s.Reaches (advance s).2 := .advance s
  obtain ⟨w, hw, htarget⟩ := exists_targetTokens (hadvance.lexed hs).endsInEof
  have hreach : s.Reaches s.afterTarget := hadvance.trans (Forward.reaches _)
  have hreach' : s.Reaches t := hreach.trans (Forward.reaches _)
  have hclean₁ : t.errors = [] := by
    rw [hrun] at hclean
    exact (Cursor.Reaches.advance _).clean hclean
  obtain ⟨π, hπ, hfirst⟩ := exists_plan_attributes (hreach.lexed hs) hclean₁ hc (hreach.depth ▸ hn)
    (attributeList s).1.appliesToProperty (Plan.last .leftBracket (Plan.keep w))
  have hedits : listEdits n.text (attributeList s).1 = if (attributeList s).1.appliesToProperty
      then (attributes s.afterTarget).1.flatMap (attributeEdits n.text) else [] := by
    rw [listEdits, hrun]
  have hnamed : erase ((attributeList s).1.nameType n.type) = erase (⟨(attributeList s).1.target,
      if (attributeList s).1.appliesToProperty
        then (attributes s.afterTarget).1.map (·.nameType n.type)
        else (attributes s.afterTarget).1, default⟩ : AttributeList) := by
    rw [AttributeList.nameType]
    split <;> rw [erase_attributeList, erase_attributeList, hrun]
  have hfirst' := tokens_advance (hk ▸ by decide) hs.endsInEof
  have hlast := tokens_advance (hc ▸ by decide) (hreach'.lexed hs).endsInEof
  have hopening : s.current.kind = .leftBracket := hk
  have hclosing : t.current.kind = .rightBracket := hc
  refine ⟨.kept s.current :: (Plan.keep w ++ (π ++ Plan.keep [t.current])),
    ⟨?_, ?_, ?_, fun k v _ => ?_⟩, ?_⟩
  · have hold := hπ.old
    rw [hrun, hlast, Cursor.tokens, ← hfirst', hw]
    show _ :: (w ++ s.afterTarget.tokens) = _
    rw [hold, ← ht, Cursor.tokens]
    simp
  · rw [hedits]
    simpa using hπ.edits
  · refine ⟨trivial, Plan.fits_append.2 ⟨Plan.fits_keep _ _, Plan.fits_append.2 ⟨?_, Plan.fits_keep _ _⟩⟩⟩
    rw [show Plan.lastOf (.kept s.current) = .leftBracket from hk]
    exact hπ.fits
  · have hreads := hπ.reads .rightBracket (k :: v) rfl
    rw [hreach.depth] at hreads
    have hresult : (attributeList s).1.target = (attributeTarget (advance s).2).1 := by
      rw [hrun]
    refine Reads.of_erase_eq ?_ hnamed.symm
    rw [hresult]
    simpa [hopening, hclosing] using (htarget _ _ _ _ hreads).attributeList hreads default
  · -- The second token is the first of the target, or that of the attributes.
    have hsecond : ∃ ks, w.map (·.kind) ++ (π.kinds ++ [TokenKind.rightBracket])
        = (advance s).2.kind :: ks := by
      cases w with
      | nil =>
        have hkind : s.afterTarget.kind = (advance s).2.kind :=
          congrArg Token.kind (List.cons.inj hw).1.symm
        rw [hkind, List.head?_eq_some_iff] at hfirst
        simpa using hfirst
      | cons x w =>
        have hx : (advance s).2.current = x := (List.cons.inj hw).1
        exact ⟨_, by rw [← hx]; rfl⟩
    obtain ⟨ks, hks⟩ := hsecond
    refine ⟨_, ks, rfl, ?_⟩
    rw [← hks, ← hc]
    simp [Cursor.kind]

theorem Reads.attributeLists_cons {d : Nat} {u v w : List TokenKind} {b : AttributeList}
    {bs : List AttributeList} (h : Reads Read.attributeList d (.leftBracket :: (u ++ v)) v b)
    (hs : Reads attributeLists d v w bs) :
    Reads attributeLists d (.leftBracket :: (u ++ v)) w (b :: bs) := by
  refine .gatherWhile_go (fun s hs => ?_)
    (h.map fun _ he => by rw [erase_some, erase_some, he])
    (by simp only [List.length_cons, List.length_append]; omega) hs
  simp [hs.kind]

/-- In the attribute lists the type is named by the edits that the fix makes. -/
theorem exists_plan_attributeLists (hs : s.Lexed)
    (hclean : (attributeLists s).2.errors = []) (hn : n.Valid s.depth) (prev : TokenKind) :
    ∃ π : Plan, π.Changes attributeLists (· ≠ .leftBracket) prev s (attributeLists s).2
      ((attributeLists s).1.flatMap (listEdits n.text))
      ((attributeLists s).1.map (·.nameType n.type)) ∧
      (s.kind = .leftBracket → (advance s).2.kind ≠ .greater ∧
        ∃ ρ ks, π = .kept s.current :: ρ ∧ Plan.kinds ρ = (advance s).2.kind :: ks) := by
  induction hsize : s.size using Nat.strongRecOn generalizing s prev with
  | _ size ih =>
    by_cases hk : s.kind = .leftBracket
    · have hlt := size_attributeList_lt hs.endsInEof hk
      have hrun := attributeLists_of_go hk hlt
      have hreach := Forward.reaches (r := attributeList) s
      rw [hrun] at hclean ⊢
      have hclean₁ := (Forward.reaches (r := attributeLists) _).clean hclean
      obtain ⟨π, hπ, ρ₁, ks, rfl, hks⟩ := exists_plan_attributeList hs hk hclean₁ hn prev
      obtain ⟨ρ, hρ, -⟩ := ih _ (hsize ▸ hlt) (hreach.lexed hs) hclean (hreach.depth ▸ hn)
        (Plan.last prev (.kept s.current :: ρ₁)) rfl
      refine ⟨.kept s.current :: ρ₁ ++ ρ, ⟨?_, ?_, ?_, fun k v hstop => ?_⟩, fun _ => ?_⟩
      · rw [Plan.old_append, List.append_assoc, ← hρ.old, hπ.old]
      · rw [Plan.edits_append, hπ.edits, hρ.edits, List.flatMap_cons]
      · exact Plan.fits_append.2 ⟨hπ.fits, hρ.fits⟩
      · obtain ⟨k', w', hkw⟩ : ∃ k' w', ρ.kinds ++ k :: v = k' :: w' :=
          List.exists_cons_of_ne_nil (by simp)
        have hopening : s.current.kind = .leftBracket := hk
        have hfirst := hπ.reads k' w' trivial
        have hrest := hρ.reads k v hstop
        rw [hreach.depth, hkw] at hrest
        rw [Plan.kinds_append, List.append_assoc, hkw]
        simp only [Plan.kinds_cons, Piece.kinds, hopening]
          at hfirst ⊢
        exact hfirst.attributeLists_cons hrest
      · exact ⟨kind_after_leftBracket hs.endsInEof hclean₁, ρ₁ ++ ρ, _, rfl, by
          rw [Plan.kinds_append, hks]
          rfl⟩
    · rw [attributeLists_of_stop hk]
      refine ⟨[], ⟨rfl, rfl, trivial, fun k v hstop => ?_⟩, fun h => absurd h hk⟩
      refine .gatherWhile_stop fun s' hs' => ?_
      simpa [hs'.kind] using hstop

end

end SettingsLint
