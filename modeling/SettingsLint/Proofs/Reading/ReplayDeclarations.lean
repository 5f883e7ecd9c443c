import SettingsLint.Proofs.Reading.ReplayAttributes

/-! # Reading declarations again

All parts of declarations are read again before an end that agrees. A member whose name
is followed by `<` looks the furthest ahead, to see whether the name is qualified.
-/

set_option synthInstance.maxSize 16384

namespace SettingsLint

open Read
open Correspondence (erasing)

/-- If the third token is `>` and something has been read, the fourth one is known. -/
theorem lookahead_past_greater {u v : List Token} (hv : EndsInEof v)
    (hlen : u.length = 1 ∧ 2 ≤ lookahead v ∨ 2 ≤ u.length)
    (h : kindAt ((u ++ v).map (·.kind)) 2 = .greater) : 3 < u.length + lookahead v := by
  have hpos := lookahead_pos hv.ne_nil
  obtain ⟨t, rest, rfl⟩ := List.exists_cons_of_ne_nil hv.ne_nil
  match u with
  | [] => simp at hlen
  | [x] =>
    obtain ⟨-, hlook⟩ := hlen.resolve_right (by simp)
    cases rest with
    | nil =>
      obtain ⟨last, hlast, heof⟩ := hv
      obtain rfl : t = last := by simpa using hlast
      simp [kindAt, heof] at h
    | cons t' rest =>
      have hgreater : t'.kind = .greater := by simpa [kindAt] using h
      simp only [lookahead] at hlook ⊢
      split at hlook
      · omega
      · simp [‹¬(t.kind = _ ∨ _)›, hgreater]
  | [x, y] =>
    have hgreater : t.kind = .greater := by simpa [kindAt] using h
    have : 2 ≤ lookahead (t :: rest) := by
      simp only [lookahead, hgreater]
      simp only [reduceCtorEq, or_self, if_false]
      split <;> decide
    simp only [List.length_cons]
    omega
  | x :: y :: z :: w =>
    simp only [List.length_cons]
    omega

namespace Replays

variable {v v' : List Token} {s s' : Cursor} [hv : Agree v v'] {first first' : Span}
  {attributes attributes' : List AttributeList} {mods mods' : List Ident} {type type' : TypeExpr}

/-! ## Headers -/

instance [Alike mods mods'] [Alike type type'] :
    Replays v v' (parameterRest first mods type) (parameterRest first' mods' type') s s' :=
  ident_bind (fun o => by cases o <;> infer_instance) fun _ _ _ _ _ => inferInstance

instance : Replays v v' parameterList parameterList s s' := by
  unfold parameterList
  infer_instance

instance : Replays v v' typeParameterName typeParameterName s s' :=
  ident_bind (fun o => by cases o <;> infer_instance) fun _ _ _ _ _ => inferInstance

instance : Replays v v' typeParameters typeParameters s s' := by
  unfold typeParameters
  infer_instance

instance : Replays v v' baseTypes baseTypes s s' := by
  unfold baseTypes
  infer_instance

instance : Replays v v' skipConstraints skipConstraints s s' := by
  unfold skipConstraints
  infer_instance

instance : Replays v v' declarationKind declarationKind s s' :=
  .bind inferInstance inferInstance fun _ _ _ _ _ => .ite (Correspondence.Keeps.iff erasing) inferInstance fun _ =>
    .bind inferInstance inferInstance fun _ _ _ _ _ => inferInstance

instance [Alike attributes attributes'] [Alike mods mods'] : Replays v v'
    (typeHeader first attributes mods) (typeHeader first' attributes' mods') s s' := by
  refine .bind (fun kind => ?_) inferInstance fun _ _ _ _ like => like.option inferInstance fun kind kind' h => ?_
  · cases kind with
    | none => infer_instance
    | some kind => exact .bind inferInstance fun name => by cases name <;> infer_instance
  · exact ident_bind (fun o => by cases o <;> infer_instance) fun _ _ _ _ _ => inferInstance

/-! ## Members -/

instance : Replays v v' skipMemberRest skipMemberRest s s' := .get fun x => by
  rw [x.twin.kind]
  split <;> infer_instance

instance [Alike mods mods'] (typeName : String) : Replays v v' (constructor first mods typeName)
    (constructor first' mods' typeName) s s' := ident_bind inferInstance fun _ _ _ _ _ => by
  rw [Option.getD_some, Option.getD_some]
  infer_instance

/-- The lookahead of three tokens is the same if there is more to read after `<`. -/
theorem skipQualifierArgument (hne : s.tokens ≠ v)
    (hlast : s.kind = .less → s.ahead = v → 2 ≤ lookahead v) :
    Replays v v' Read.skipQualifierArgument Read.skipQualifierArgument s s' := by
  refine .getAt fun twin => .ite ?_ inferInstance inferInstance
  · simp only [twin.kind, Bool.and_eq_true, decide_eq_true_eq, and_assoc]
    refine and_congr_right fun hless => ?_
    have hpos := lookahead_pos hv.ends.ne_nil
    have hlen (u : List Token) (hu : s.tokens = u ++ v) :
        u.length = 1 ∧ s.ahead = v ∨ 2 ≤ u.length := by
      match u, hu with
      | [], hu => exact absurd hu hne
      | [t], hu => exact .inl ⟨rfl, (List.cons.inj hu).2⟩
      | _ :: _ :: _, _ => exact .inr (by simp)
    have htwo : s'.peek 2 = s.peek 2 := by
      refine twin.peek_eq fun u hu => ?_
      rcases hlen u hu with ⟨h, hv'⟩ | h
      · have := hlast hless hv'
        omega
      · omega
    rw [htwo]
    refine and_congr_right fun hgreater => ?_
    have hthree : s'.peek 3 = s.peek 3 := by
      refine twin.peek_eq fun u hu => ?_
      refine lookahead_past_greater hv.ends ?_ (by rw [← hu, ← Cursor.peek_eq, hgreater])
      exact (hlen u hu).imp_left fun ⟨h, hv'⟩ => ⟨h, hlast hless hv'⟩
    rw [hthree]

end Replays

/-! ## Named members -/

namespace Read

/-- The parts of the name of a member after the first one. -/
def memberNameParts : Read (List Ident) :=
  gatherWhile (fun s => s.kind = .dot && (s.peek 1).name?.isSome) do
    let _ ← advance
    ident "a member name"

instance : Forward memberNameParts := by
  unfold memberNameParts
  infer_instance

/-- The rest of a member, the first part of whose name has been read. -/
def memberTail (first : Span) (attributes : List AttributeList) (modifiers : List Ident)
    (type : TypeExpr) (name : Ident) : Read Member := do
  skipQualifierArgument
  let parts ← memberNameParts
  memberBody first attributes modifiers type (parts.getLastD name)

variable {first : Span} {attributes : List AttributeList} {mods : List Ident} {type : TypeExpr}
  {name : Ident} {s : Cursor}

instance : Forward (memberTail first attributes mods type name) := by
  unfold memberTail
  infer_instance

theorem takes_memberTail : Takes (memberTail first attributes mods type name) :=
  .bind_right fun _ => .bind_right fun _ s => (takes_skipMemberRest s).bind

theorem namedMember_of_some {text : String} (h : s.kind.name? = some text) :
    namedMember first attributes mods type s =
      (advance >>= fun place => memberTail first attributes mods type ⟨text, place⟩) s := by
  rw [namedMember, bind_apply, memberName, bind_apply, ident_of_some h]
  rfl

theorem memberNameParts_of_less (h : s.kind = .less) : memberNameParts s = ([], s) := by
  rw [memberNameParts, gatherWhile_of_stop (by simp [h])]

theorem memberBody_of_less (h : s.kind = .less) :
    memberBody first attributes mods type name s = (skipBody >>= fun _ => otherMember first) s := by
  have hrest : skipMemberRest s = (skipBody >>= fun _ => pure false : Read Bool) s := by
    rw [skipMemberRest, get_bind, h]
  rw [memberBody, bind_apply, hrest]
  rfl

theorem skipBody_of_less (h : s.kind = .less) (hs : EndsInEof s.tokens) :
    skipBody s = skipBody (advance s).2 := by
  have heof : s.kind ≠ .eof := by rw [h]; decide
  have hstep : (skipGroupOrToken s).2 = (advance s).2 := by
    rw [skipGroupOrToken_eq, h]
    rfl
  have hlt : (advance s).2.size < s.size := size_advance_lt heof hs
  rw [skipBody, bind_apply, whileDo_eq, if_pos (by simp [atEnd_eq_false heof, h]), hstep,
    if_pos hlt]
  rfl

/-- After `<` the body of a member goes on for more than one token, or it stops before
    something that is no part of a list. -/
theorem two_le_lookahead_of_memberTail (hs : EndsInEof s.tokens) (hk : s.kind = .less)
    (hend : s.ahead <:+ (memberTail first attributes mods type name s).2.tokens)
    (hclean : (memberTail first attributes mods type name s).2.errors = []) :
    2 ≤ lookahead s.ahead := by
  have heof : s.kind ≠ .eof := by rw [hk]; decide
  obtain ⟨x, rest, hx⟩ := List.exists_cons_of_ne_nil (hs.ahead_ne_nil heof)
  by_contra hlook
  have hlist : x.kind = .comma ∨ x.kind = .rightBracket ∨ x.kind = .rightParen := by
    by_contra hno
    rw [hx, lookahead, if_neg hno] at hlook
    split at hlook <;> omega
  have hnext : (advance s).2.tokens = s.ahead := tokens_advance heof hs
  have hkind : (advance s).2.kind = x.kind := by
    rw [hx] at hnext
    exact congrArg Token.kind (List.cons.inj hnext).1
  have hne : (advance s).2.kind ≠ .eof := by
    rw [hkind]
    rcases hlist with h | h | h <;> rw [h] <;> decide
  -- Both ways of going on read the token of the list, too.
  have past {r : Read Member} (hrun : memberTail first attributes mods type name s = r (advance s).2)
      (ht : TakesAt r (advance s).2) : False :=
    ht.tokens_ne (hnext ▸ hs.of_suffix (List.suffix_cons ..) (hs.ahead_ne_nil heof))
      (hrun ▸ hclean) (hrun ▸ hend) hnext
  by_cases hqualified : (s.kind = .less && s.peek 2 = .greater && s.peek 3 = .dot) = true
  · refine past (r := advance >>= fun _ => advance >>= fun _ => memberNameParts >>= fun parts =>
      memberBody first attributes mods type (parts.getLastD name)) ?_ (takesAt_advance hne).bind
    have hrun : skipQualifierArgument s =
        (advance >>= fun _ => advance >>= fun _ => advance >>= fun _ => pure () : Read Unit) s := by
      rw [skipQualifierArgument, get_bind, if_pos hqualified]
    rw [memberTail, bind_apply, hrun]
    rfl
  · refine past (r := skipBody >>= fun _ => otherMember first) ?_ ?_
    · have hskip : skipQualifierArgument s = ((), s) := by
        rw [skipQualifierArgument, get_bind, if_neg hqualified]
        rfl
      rw [memberTail, bind_apply, hskip, bind_apply, memberNameParts_of_less hk]
      rw [memberBody_of_less hk, bind_apply, bind_apply, skipBody_of_less hk hs]
    · refine (takesAt_skipBody hne ?_ ?_ ?_ ?_).bind <;> rw [hkind] <;>
        rcases hlist with h | h | h <;> rw [h] <;> decide

end Read

namespace Replays

variable {v v' : List Token} {s s' : Cursor} [hv : Agree v v'] {first first' : Span}
  {attributes attributes' : List AttributeList} {mods mods' : List Ident} {type type' : TypeExpr}

instance : Replays v v' memberNameParts memberNameParts s s' := by
  have (x : Twins v v') : Alike (decide (x.left.kind = .dot) && (x.left.peek 1).name?.isSome)
      (decide (x.right.kind = .dot) && (x.right.peek 1).name?.isSome) := by
    refine .plain ?_
    rw [x.twin.kind]
    by_cases hk : x.left.kind = .dot
    · rw [x.twin.peek_one (by simp [hk]) (by simp [hk]) (by simp [hk])]
    · simp [hk]
  unfold memberNameParts
  infer_instance

variable [Alike attributes attributes'] [Alike mods mods']

section

variable [htype : Alike type type'] {name name' : Ident} [Alike name name']

instance : Replays v v' (memberTail first attributes mods type name)
    (memberTail first' attributes' mods' type' name') s s' := by
  refine ⟨fun twin hend hclean => ?_⟩
  have hne := (takes_memberTail s).tokens_ne twin.endsInEof hclean hend
  have hlast (hk : s.kind = .less) (hs : s.ahead = v) : 2 ≤ lookahead v := by
    subst hs
    exact two_le_lookahead_of_memberTail twin.endsInEof hk hend hclean
  exact (bind inferInstance (skipQualifierArgument hne hlast) fun _ _ _ _ _ =>
    inferInstance).replays twin hend hclean

omit [Alike name name'] in
instance : Replays v v' (namedMember first attributes mods type)
    (namedMember first' attributes' mods' type') s s' := by
  refine of_twin fun twin => ?_
  cases hk : s.kind.name? with
  | none =>
    refine of_fault ?_
    rw [namedMember, bind_apply, memberName, bind_apply, ident_of_none hk]
    exact errors_ne_nil_of_report (r := recoverMember >>= fun _ => otherMember first) _ _
  | some text =>
    exact congr (namedMember_of_some hk) (namedMember_of_some (by rw [twin.kind, hk])) inferInstance

theorem memberRest (hthere : type.isMissing = false) (hthere' : type'.isMissing = false) :
    Replays v v' (Read.memberRest first attributes mods type)
      (Read.memberRest first' attributes' mods' type') s s' := by
  have : Alike type.isMissing type'.isMissing := .plain (hthere'.trans hthere.symm)
  unfold Read.memberRest
  infer_instance

end

theorem typedMember (ho : Ordered s.tokens) (ho' : Ordered s'.tokens) :
    Replays v v' (Read.typedMember first attributes mods)
      (Read.typedMember first' attributes' mods') s s' := by
  refine ⟨fun twin hend hclean => ?_⟩
  have hreach := Forward.reaches
    (r := Read.memberRest first attributes mods (typeExpr s).1) (typeExpr s).2
  have hclean₁ := hreach.clean hclean
  obtain ⟨twin₁, htype⟩ := (inferInstance : Replays v v' typeExpr typeExpr s s').replays twin
    (hend.trans hreach.suffix) hclean₁
  exact (memberRest (typeExpr_not_isMissing hclean₁ twin.endsInEof ho)
    (typeExpr_not_isMissing twin₁.clean' twin.endsInEof' ho')).replays twin₁ hend hclean

/-! ## Directives, namespaces and statements -/

omit [Alike attributes attributes'] [Alike mods mods']

instance : Replays v v' usingAlias usingAlias s s' :=
  .get fun x => .ite (Correspondence.Keeps.iff erasing)
    (fun _ => ident_bind (fun o => by cases o <;> infer_instance) fun _ _ _ _ _ => inferInstance) inferInstance

instance : Replays v v' usingDirective usingDirective s s' := by
  unfold usingDirective
  infer_instance

instance : Replays v v' namespaceName namespaceName s s' :=
  ident_bind (fun o => by cases o <;> infer_instance) fun _ _ _ _ _ => inferInstance

end Replays

end SettingsLint
