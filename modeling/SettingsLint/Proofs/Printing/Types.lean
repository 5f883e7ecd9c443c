import SettingsLint.Proofs.Printing.Kinds
import SettingsLint.Proofs.Reading.Reads

/-! # Reading printed types

A printed type is read back, whatever stands after it, if that cannot be part of the type. The
proof follows the reader: type arguments are read one level deeper, segments and type arguments
one after the other, and suffixes from the inside to the outside.
-/

namespace SettingsLint

open Placed (erase)

variable {d : Nat} {v : List TokenKind} {types : List TypeExpr}

/-! ## The parts of printed types -/

theorem TypeExpr.kindsOfAll_eq_map (types : List TypeExpr) : kindsOfAll types = types.map kinds := by
  induction types with
  | nil => rfl
  | cons type types ih => rw [kindsOfAll, ih, List.map_cons]

theorem NameSegment.kindsOfAll_eq_map (segments : List NameSegment) :
    kindsOfAll segments = segments.map kinds := by
  induction segments with
  | nil => rfl
  | cons segment segments ih => rw [kindsOfAll, ih, List.map_cons]

theorem TypeExpr.isWritten_of_mem (h : areWritten types = true)
    {type : TypeExpr} (htype : type ∈ types) : type.isWritten = true := by
  induction types with
  | nil => cases htype
  | cons first rest ih =>
    obtain ⟨hfirst, hrest⟩ := Bool.and_eq_true_iff.mp h
    rcases List.mem_cons.mp htype with rfl | htype
    · exact hfirst
    · exact ih hrest htype

theorem NameSegment.isWritten_of_mem {segments : List NameSegment} (h : areWritten segments = true)
    {segment : NameSegment} (hsegment : segment ∈ segments) : segment.isWritten = true := by
  induction segments with
  | nil => cases hsegment
  | cons first rest ih =>
    obtain ⟨hfirst, hrest⟩ := Bool.and_eq_true_iff.mp h
    rcases List.mem_cons.mp hsegment with rfl | hsegment
    · exact hfirst
    · exact ih hrest hsegment

/-- A type argument is nested less deep than the segment it belongs to. -/
theorem TypeExpr.levels_lt_of_mem {type : TypeExpr} (h : type ∈ types) :
    type.levels < levelsOfAll types := by
  induction types with
  | nil => cases h
  | cons first rest ih =>
    rw [levelsOfAll]
    rcases List.mem_cons.mp h with rfl | h
    · omega
    · have := ih h
      omega

theorem NameSegment.levels_le_of_mem {segments : List NameSegment} {segment : NameSegment}
    (h : segment ∈ segments) : segment.levels ≤ levelsOfAll segments := by
  induction segments with
  | nil => cases h
  | cons first rest ih =>
    rw [levelsOfAll]
    rcases List.mem_cons.mp h with rfl | h
    · omega
    · have := ih h
      omega

theorem exists_intercalate_eq (sep : TokenKind) (first : List TokenKind)
    (rest : List (List TokenKind)) : ∃ w, [sep].intercalate (first :: rest) = first ++ w := by
  cases rest with
  | nil => exact ⟨[], by rw [List.intercalate_singleton, List.append_nil]⟩
  | cons second rest => exact ⟨_, by rw [List.intercalate_cons_cons, List.append_assoc]⟩

theorem NameSegment.exists_kinds_eq (segment : NameSegment) :
    ∃ w, segment.kinds = .identifier segment.name.name :: w := by
  obtain ⟨name, arguments⟩ := segment
  exact ⟨_, rfl⟩

/-- A printed type starts with a name. -/
theorem TypeExpr.exists_kinds_eq : ∀ {type : TypeExpr}, type.isWritten = true →
    ∃ name w, type.kinds = .identifier name :: w
  | .named true segments _, _ => ⟨_, _, rfl⟩
  | .named false [] _, h => nomatch h
  | .named false (segment :: segments) _, _ => by
    obtain ⟨w, hw⟩ := segment.exists_kinds_eq
    obtain ⟨w', hw'⟩ := exists_intercalate_eq .dot segment.kinds (segments.map (·.kinds))
    refine ⟨segment.name.name, w ++ w', ?_⟩
    rw [kinds, NameSegment.kindsOfAll_eq_map, List.map_cons, hw', hw]
    rfl
  | .array element rank _, h => by
    simp only [isWritten, Bool.and_eq_true] at h
    obtain ⟨name, w, hw⟩ := exists_kinds_eq h.1.1
    exact ⟨name, _, by rw [kinds, hw]; rfl⟩
  | .nullable inner _, h => by
    have hinner : inner.isWritten = true := h
    obtain ⟨name, w, hw⟩ := exists_kinds_eq hinner
    exact ⟨name, _, by rw [kinds, hw]; rfl⟩

/-! ## Lists with separators -/

/-- Items are read one after the other if each one is read before a separator, and the last one
before what follows. -/
theorem Reads.gather_intercalate [Placed α] {step : Read (Option α × Bool)}
    {print : α → List TokenKind} {sep : TokenKind} {as : List α} (hne : as ≠ [])
    (hlast : ∀ a ∈ as, Reads step d (print a ++ v) v (some a, false))
    (hmore : ∀ a ∈ as, ∀ b ∈ as, ∀ w,
      Reads step d (print a ++ sep :: (print b ++ w)) (print b ++ w) (some a, true)) :
    Reads (Read.gather step) d ([sep].intercalate (as.map print) ++ v) v as := by
  induction as with
  | nil => exact absurd rfl hne
  | cons a as ih =>
    cases as with
    | nil =>
      rw [List.map_cons, List.map_nil, List.intercalate_singleton]
      exact gather_end (hlast a List.mem_cons_self)
    | cons b as =>
      have hrest := ih (List.cons_ne_nil _ _) (fun c hc => hlast c (List.mem_cons_of_mem _ hc))
        fun c hc c' hc' => hmore c (List.mem_cons_of_mem _ hc) c' (List.mem_cons_of_mem _ hc')
      obtain ⟨w, hw⟩ := exists_intercalate_eq sep (print b) (as.map print)
      have hstep := hmore a List.mem_cons_self b (List.mem_cons_of_mem _ List.mem_cons_self)
        (w ++ v)
      rw [List.map_cons, hw, List.append_assoc] at hrest
      rw [List.map_cons, List.map_cons, List.intercalate_cons_cons, hw]
      simp only [List.append_assoc]
      refine gather_more hstep ?_ hrest
      simp only [List.length_append, List.length_cons]
      omega

/-! ## Names -/

/-- Can the token not be part of a qualified name that ends before it? -/
def TokenKind.endsName : TokenKind → Bool
  | less | dot | colonColon => false
  | _ => true

/-- Can the token not be part of a type that ends before it? -/
def TokenKind.endsType : TokenKind → Bool
  | less | dot | colonColon | question | leftBracket => false
  | operator symbol => symbol ≠ '*'
  | _ => true

/-- The reader reads printed types with less than `n` levels of type arguments. -/
def ReadsTypes (argument : Read TypeExpr) (n d : Nat) : Prop :=
  ∀ (type : TypeExpr) (k : TokenKind) (v : List TokenKind), type.isWritten = true →
    type.levels < n → k.endsType = true → Reads argument d (type.kinds ++ k :: v) (k :: v) type

/-- A printed list of types starts with a name. -/
theorem TypeExpr.exists_intercalate_eq_cons (hne : types ≠ [])
    (h : areWritten types = true) :
    ∃ name w, [.comma].intercalate (types.map kinds) = TokenKind.identifier name :: w := by
  obtain ⟨type, types, rfl⟩ := List.exists_cons_of_ne_nil hne
  obtain ⟨name, w, hw⟩ := exists_kinds_eq (Bool.and_eq_true_iff.mp h).1
  obtain ⟨w', hw'⟩ := exists_intercalate_eq .comma type.kinds (types.map kinds)
  exact ⟨name, w ++ w', by rw [List.map_cons, hw', hw, List.cons_append]⟩

namespace Read

variable {argument : Read TypeExpr} {n : Nat} {k : TokenKind}

/-- One type argument and the comma after it. -/
theorem reads_comma_after (hargument : ReadsTypes argument n d) {type : TypeExpr}
    (hwritten : type.isWritten = true) (hlevels : type.levels < n) :
    Reads (do
      let type ← argument
      return (some type, (← eat .comma).isSome)) d (type.kinds ++ .comma :: v) v
      (some type, true) := by
  refine (hargument type .comma v hwritten hlevels rfl).bind fun type' htype => ?_
  exact (Reads.eat_some TokenKind.noConfusion default).bind_some fun _ _ => .pure (by simp [htype])

/-- The last type argument. -/
theorem reads_no_comma_after (hargument : ReadsTypes argument n d) {type : TypeExpr}
    (hwritten : type.isWritten = true) (hlevels : type.levels < n) :
    Reads (do
      let type ← argument
      return (some type, (← eat .comma).isSome)) d (type.kinds ++ .greater :: v) (.greater :: v)
      (some type, false) := by
  refine (hargument type .greater v hwritten hlevels rfl).bind fun type' htype => ?_
  exact (Reads.eat_none TokenKind.noConfusion).bind_none (.pure (by simp [htype]))

theorem reads_typeArguments (hargument : ReadsTypes argument n d) {types : List TypeExpr}
    (hne : types ≠ []) (hwritten : TypeExpr.areWritten types = true)
    (hlevels : TypeExpr.levelsOfAll types ≤ n) :
    Reads (typeArguments argument) d
      (.less :: ([.comma].intercalate (types.map (·.kinds)) ++ .greater :: v)) v types := by
  have hmem (type : TypeExpr) (htype : type ∈ types) :
      type.isWritten = true ∧ type.levels < n :=
    ⟨TypeExpr.isWritten_of_mem hwritten htype,
      Nat.lt_of_lt_of_le (TypeExpr.levels_lt_of_mem htype) hlevels⟩
  have hitems : Reads (gather do
      let type ← argument
      return (some type, (← eat .comma).isSome)) d
      ([.comma].intercalate (types.map (·.kinds)) ++ .greater :: v) (.greater :: v) types := by
    refine Reads.gather_intercalate hne (fun type htype => ?_) fun type htype _ _ w => ?_
    · exact reads_no_comma_after hargument (hmem type htype).1 (hmem type htype).2
    · exact reads_comma_after hargument (hmem type htype).1 (hmem type htype).2
  -- No comma and no angle bracket comes first, so this is no unbound generic type.
  obtain ⟨name, w, hw⟩ := TypeExpr.exists_intercalate_eq_cons hne hwritten
  rw [hw] at hitems ⊢
  refine (Reads.advance TokenKind.noConfusion default).bind fun opening _ => ?_
  refine .kind (.kind (.of_neg (by simp) ?_))
  refine hitems.bind fun types' htypes => ?_
  refine (Reads.expect TokenKind.noConfusion default).bind_some fun _ _ => ?_
  exact .of_neg nofun (.pure htypes)

theorem reads_segmentArguments (hargument : ReadsTypes argument n d)
    (hk : k ≠ .less) {types : List TypeExpr} (hwritten : TypeExpr.areWritten types = true)
    (hlevels : TypeExpr.levelsOfAll types ≤ n) :
    Reads (segmentArguments argument) d
      ((if types.isEmpty then [] else
        .less :: ([.comma].intercalate (TypeExpr.kindsOfAll types) ++ [.greater])) ++ k :: v)
      (k :: v) types := by
  by_cases hne : types = []
  · subst hne
    exact .kind (.of_neg hk (.pure rfl))
  · rw [if_neg (by simpa using hne), TypeExpr.kindsOfAll_eq_map, List.cons_append,
      List.append_assoc]
    exact .kind (.of_pos rfl (reads_typeArguments hargument hne hwritten hlevels))

theorem reads_separator_none (hk : k.endsName = true) :
    Reads separator d (k :: v) (k :: v) false := by
  refine .get fun s hs => .of_neg ?_ (.pure rfl)
  have hdot : k ≠ .dot := by rintro rfl; cases hk
  have hcolons : k ≠ .colonColon := by rintro rfl; cases hk
  simp [hs.kind, hdot, hcolons]

theorem reads_separator_dot (name : String) :
    Reads separator d (.dot :: .identifier name :: v) (.identifier name :: v) true := by
  refine .get fun s hs => .of_pos ?_ ?_
  · simp [hs.kind, hs.peek_one, TokenKind.name?]
  · exact (Reads.advance TokenKind.noConfusion default).bind fun _ _ => .pure rfl

/-- The last segment of a name. -/
theorem reads_nameSegment_last (hargument : ReadsTypes argument n d)
    (hk : k.endsName = true) {segment : NameSegment} (hwritten : segment.isWritten = true)
    (hlevels : segment.levels ≤ n) :
    Reads (nameSegment argument) d (segment.kinds ++ k :: v) (k :: v) (some segment, false) := by
  obtain ⟨name, types⟩ := segment
  have hless : k ≠ .less := by rintro rfl; cases hk
  refine (Reads.ident name).bind_some fun name' hname => ?_
  refine (reads_segmentArguments hargument hless hwritten hlevels).bind fun types' htypes => ?_
  exact (reads_separator_none hk).bind_bool (.pure (by simp [hname, htypes]))

/-- A segment of a name before another one. -/
theorem reads_nameSegment_more (hargument : ReadsTypes argument n d) {segment : NameSegment}
    (hwritten : segment.isWritten = true) (hlevels : segment.levels ≤ n) (next : String) :
    Reads (nameSegment argument) d (segment.kinds ++ .dot :: .identifier next :: v)
      (.identifier next :: v) (some segment, true) := by
  obtain ⟨name, types⟩ := segment
  refine (Reads.ident name).bind_some fun name' hname => ?_
  refine (reads_segmentArguments hargument TokenKind.noConfusion hwritten hlevels).bind
    fun types' htypes => ?_
  exact (reads_separator_dot next).bind_bool (.pure (by simp [hname, htypes]))

/-- The segments of a name, up to a token that ends it. -/
theorem reads_segments (hargument : ReadsTypes argument n d)
    (hk : k.endsName = true) {segments : List NameSegment} (hne : segments ≠ [])
    (hwritten : NameSegment.areWritten segments = true)
    (hlevels : NameSegment.levelsOfAll segments ≤ n) :
    Reads (gather (nameSegment argument)) d
      ([.dot].intercalate (segments.map (·.kinds)) ++ k :: v) (k :: v) segments := by
  have hmem (segment : NameSegment) (hsegment : segment ∈ segments) :
      segment.isWritten = true ∧ segment.levels ≤ n :=
    ⟨NameSegment.isWritten_of_mem hwritten hsegment,
      Nat.le_trans (NameSegment.levels_le_of_mem hsegment) hlevels⟩
  refine Reads.gather_intercalate hne (fun segment hsegment => ?_) fun segment hsegment next _ w => ?_
  · exact reads_nameSegment_last hargument hk (hmem segment hsegment).1 (hmem segment hsegment).2
  · obtain ⟨w', hw'⟩ := next.exists_kinds_eq
    rw [hw']
    exact reads_nameSegment_more hargument (hmem segment hsegment).1 (hmem segment hsegment).2 _

/-- What follows the first name of printed segments: a dot, type arguments, or what comes after
them. -/
theorem exists_second_kind {segments : List NameSegment} (hne : segments ≠ []) (k : TokenKind)
    (v : List TokenKind) : ∃ name k' w, k' ∈ [.dot, .less, k] ∧
      [.dot].intercalate (segments.map (·.kinds)) ++ k :: v = .identifier name :: k' :: w := by
  obtain ⟨⟨name, types⟩, rest, rfl⟩ := List.exists_cons_of_ne_nil hne
  by_cases htypes : types = []
  · subst htypes
    cases rest with
    | nil => exact ⟨name.name, k, v, by simp, by simp [NameSegment.kinds]⟩
    | cons next rest => exact ⟨name.name, .dot, _, by simp, by simp [NameSegment.kinds]; rfl⟩
  · obtain ⟨w, hw⟩ := exists_intercalate_eq .dot (NameSegment.mk name types).kinds
      (rest.map (·.kinds))
    rw [List.map_cons, hw, NameSegment.kinds, if_neg (by simpa using htypes)]
    exact ⟨name.name, .less, _, by simp, rfl⟩

/-- A qualified name, up to a token that ends it. -/
theorem reads_qualifiedName (hargument : ReadsTypes argument n d)
    (hk : k.endsName = true) {type : TypeExpr} (hnamed : type.isNamed = true)
    (hwritten : type.isWritten = true) (hlevels : type.levels ≤ n) :
    Reads (qualifiedName argument) d (type.kinds ++ k :: v) (k :: v) type := by
  obtain ⟨isGlobal, segments, whole⟩ | _ := type
  case array | nullable | unsupported => cases hnamed
  simp only [TypeExpr.isWritten, Bool.and_eq_true] at hwritten
  obtain ⟨hne, hwritten⟩ := hwritten
  have hne : segments ≠ [] := by simpa using hne
  have hsegments := reads_segments (v := v) hargument hk hne hwritten hlevels
  rw [TypeExpr.kinds, NameSegment.kindsOfAll_eq_map]
  refine (Reads.span default).bind fun first _ => .get fun s hs => ?_
  cases isGlobal with
  | true =>
    have hglobal : (s.atWord "global" && s.peek 1 = .colonColon) = true := by
      rw [hs.atWord, hs.peek_one]
      rfl
    rw [hglobal]
    refine .of_pos rfl ?_
    refine (Reads.advance TokenKind.noConfusion default).bind fun _ _ => ?_
    refine (Reads.advance TokenKind.noConfusion default).bind fun _ _ => ?_
    refine hsegments.bind fun segments' hsegments' => ?_
    exact (Reads.spanFrom first default).bind fun _ _ => .pure (by simp [hsegments'])
  | false =>
    have hglobal : (s.atWord "global" && s.peek 1 = .colonColon) = false := by
      obtain ⟨name, k', w, hk', hw⟩ := exists_second_kind hne k v
      have hs : At d (.identifier name :: k' :: w) s := hw ▸ hs
      have hcolons : k' ≠ .colonColon := by
        rintro rfl
        simp only [List.mem_cons, List.not_mem_nil, reduceCtorEq, false_or, or_false] at hk'
        rw [← hk'] at hk
        cases hk
      rw [hs.peek_one, decide_eq_false hcolons, Bool.and_false]
    rw [hglobal]
    refine .of_neg nofun ?_
    refine hsegments.bind fun segments' hsegments' => ?_
    exact (Reads.spanFrom first default).bind fun _ _ => .pure (by simp [hsegments'])

/-- No parenthesis follows the first name of a printed type. -/
theorem exists_second_kind_of_type {type : TypeExpr} (hwritten : type.isWritten = true)
    {k : TokenKind} (hk : k ≠ .leftParen) (v : List TokenKind) : ∃ name k' w, k' ≠ .leftParen ∧
      type.kinds ++ k :: v = .identifier name :: k' :: w := by
  match type with
  | .named true _ _ => exact ⟨_, _, _, TokenKind.noConfusion, rfl⟩
  | .named false segments _ =>
    have hne : segments ≠ [] := by
      rintro rfl
      cases hwritten
    obtain ⟨name, k', w, hk', hw⟩ := exists_second_kind hne k v
    refine ⟨name, k', w, ?_, by rw [TypeExpr.kinds, NameSegment.kindsOfAll_eq_map]; exact hw⟩
    rintro rfl
    simp only [List.mem_cons, List.not_mem_nil, reduceCtorEq, false_or, or_false] at hk'
    exact hk hk'.symm
  | .array element rank _ =>
    simp only [TypeExpr.isWritten, Bool.and_eq_true] at hwritten
    rw [TypeExpr.kinds, List.append_assoc]
    exact exists_second_kind_of_type hwritten.1.1 TokenKind.noConfusion _
  | .nullable inner _ =>
    have hinner : inner.isWritten = true := hwritten
    rw [TypeExpr.kinds, List.append_assoc]
    exact exists_second_kind_of_type hinner TokenKind.noConfusion _

/-! ## Suffixes -/

theorem reads_commas (rank : Nat) (hk : k ≠ .comma) :
    Reads (commas id) d (List.replicate rank .comma ++ k :: v) (k :: v)
      (List.replicate rank (default : Span)) := by
  induction rank with
  | zero =>
    refine .gather_end (o := none) ?_
    exact (Reads.eat_none hk).bind_none (.pure rfl)
  | succ rank ih =>
    refine .gather_more (o := some default) ?_ (by simp) ih
    exact (Reads.eat_some TokenKind.noConfusion default).bind_some fun _ _ => .pure rfl

variable {first : Span} {u w : List TokenKind}

/-- After a suffix come the suffixes of the type with this suffix. -/
theorem reads_typeSuffixes_more {type longer b : TypeExpr}
    (h : Reads (typeSuffixes.oneSuffix first type) d u v (some longer)) (hlt : v.length < u.length)
    (g : ∀ longer', erase longer' = erase longer →
      Reads (typeSuffixes first longer') d v w b) : Reads (typeSuffixes first type) d u w b := by
  intro s hs
  obtain ⟨hnext, hlonger⟩ := h s hs
  obtain ⟨longer', heq, hlonger⟩ := erase_eq_some_iff.1 hlonger
  rw [typeSuffixes_eq]
  dsimp only
  rw [heq]
  dsimp only
  rw [if_pos (hnext.size_lt hs hlt)]
  exact g longer' hlonger _ hnext

theorem reads_typeSuffixes_end {type : TypeExpr}
    (h : Reads (typeSuffixes.oneSuffix first type) d u v none) :
    Reads (typeSuffixes first type) d u v type := by
  intro s hs
  obtain ⟨hnext, hnone⟩ := h s hs
  have heq : (typeSuffixes.oneSuffix first type s).1 = none := Option.map_eq_none_iff.mp hnone
  rw [typeSuffixes_eq]
  dsimp only
  rw [heq]
  exact ⟨hnext, rfl⟩

theorem reads_oneSuffix_question (type : TypeExpr) (place : Span) :
    Reads (typeSuffixes.oneSuffix first type) d (.question :: v) v (some (.nullable type place)) := by
  refine .get fun s hs => ?_
  refine (Reads.eat_some TokenKind.noConfusion default).bind_some fun _ _ => .of_pos rfl ?_
  exact (Reads.spanFrom first default).bind fun _ _ => .pure (by simp)

theorem reads_oneSuffix_brackets (type : TypeExpr) {rank : Nat} (hpos : 1 ≤ rank)
    (hle : rank ≤ 255) (place : Span) :
    Reads (typeSuffixes.oneSuffix first type) d
      (.leftBracket :: (List.replicate (rank - 1) .comma ++ .rightBracket :: v)) v
      (some (.array type rank place)) := by
  refine .get fun s hs => ?_
  refine (Reads.eat_none TokenKind.noConfusion).bind_none (.of_neg nofun (.of_pos ?_ ?_))
  · -- The bracket is closed at once, or a comma follows.
    rw [hs.kind]
    cases hrank : rank - 1 with
    | zero =>
      rw [hrank] at hs
      simp [hs.peek_one]
    | succ =>
      rw [hrank] at hs
      simp [hs.peek_one]
  · refine (Reads.advance TokenKind.noConfusion default).bind fun _ _ => ?_
    refine (reads_commas _ TokenKind.noConfusion).bind fun commas hcommas => ?_
    refine (Reads.expect TokenKind.noConfusion default).bind fun _ _ => ?_
    refine (Reads.spanFrom first default).bind fun _ _ => .pure ?_
    have hlength : commas.length = rank - 1 := by
      have := congrArg List.length hcommas
      simpa [erase_list] using this
    have hrank : min 255 (1 + commas.length) = rank := by
      omega
    simp [hrank]

theorem reads_oneSuffix_none (type : TypeExpr) (hk : k.endsType = true) :
    Reads (typeSuffixes.oneSuffix first type) d (k :: v) (k :: v) none := by
  have hquestion : k ≠ .question := by rintro rfl; cases hk
  have hbracket : k ≠ .leftBracket := by rintro rfl; cases hk
  have hstar : k ≠ .operator '*' := by rintro rfl; cases hk
  refine .get fun s hs => ?_
  refine (Reads.eat_none hquestion).bind_none (.of_neg nofun ?_)
  refine .of_neg (by simp [hs.kind, hbracket]) (.of_neg (by simp [hs.kind, hstar]) (.pure rfl))

/-- The name of a type is read and then, from the inside to the outside, its suffixes. What
comes after the type is read as if the type had just been read. -/
theorem reads_suffixed (hargument : ReadsTypes argument n d) {b : TypeExpr} : ∀ {type : TypeExpr}
    {k : TokenKind} {v : List TokenKind}, type.isWritten = true → type.levels ≤ n →
    k.endsName = true →
    (∀ type', erase type' = erase type → Reads (typeSuffixes first type') d (k :: v) w b) →
    Reads (qualifiedName argument >>= typeSuffixes first) d (type.kinds ++ k :: v) w b
  | .named .., _, _, hwritten, hlevels, hk, hrest =>
    (reads_qualifiedName hargument hk rfl hwritten hlevels).bind hrest
  | .array element rank place, k, v, hwritten, hlevels, _, hrest => by
    simp only [TypeExpr.isWritten, Bool.and_eq_true, decide_eq_true_eq] at hwritten
    obtain ⟨⟨helement, hpos⟩, hle⟩ := hwritten
    simp only [TypeExpr.kinds, List.append_assoc, List.cons_append]
    refine reads_suffixed hargument helement hlevels rfl fun element' h => ?_
    refine reads_typeSuffixes_more (reads_oneSuffix_brackets element' hpos hle default)
      (by simp; omega) fun type' h' => hrest type' ?_
    rw [h', erase_array, erase_array, h]
  | .nullable inner place, k, v, hwritten, hlevels, _, hrest => by
    simp only [TypeExpr.kinds, List.append_assoc]
    refine reads_suffixed hargument hwritten hlevels rfl fun inner' h => ?_
    refine reads_typeSuffixes_more (reads_oneSuffix_question inner' default)
      (by simp) fun type' h' => hrest type' ?_
    rw [h', erase_nullable, erase_nullable, h]

theorem reads_typeExprWith (hargument : ReadsTypes argument n d) {type : TypeExpr}
    (hwritten : type.isWritten = true) (hlevels : type.levels ≤ n) (hk : k.endsType = true) :
    Reads (typeExprWith argument first) d (type.kinds ++ k :: v) (k :: v) type := by
  have hname : k.endsName = true := by
    cases k <;> first | rfl | cases hk
  have hread : Reads (qualifiedName argument >>= typeSuffixes first) d (type.kinds ++ k :: v)
      (k :: v) type :=
    reads_suffixed hargument hwritten hlevels hname fun type' h =>
      (reads_typeSuffixes_end (reads_oneSuffix_none type' hk)).of_erase_eq h
  obtain ⟨name, w, hw⟩ := TypeExpr.exists_kinds_eq hwritten
  rw [hw] at hread ⊢
  refine .get fun s hs => .of_neg (by simp [hs.kind]) (.of_pos ?_ hread)
  rw [hs.atName]
  rfl

/-- A printed type is read if there are enough levels for its type arguments. -/
theorem readsTypes_typeExprWithin (n : Nat) : ∀ {levels d : Nat}, n ≤ levels →
    d + n ≤ maxNesting → ReadsTypes (typeExprWithin levels) n d := by
  induction n with
  | zero =>
    intro levels d _ _ type k v _ hlevels
    cases hlevels
  | succ n ih =>
    intro levels d hle hd type k v hwritten hlevels hk
    obtain ⟨levels, rfl⟩ := Nat.exists_eq_add_of_le' (Nat.le_trans (Nat.succ_pos n) hle)
    refine (Reads.span default).bind fun first _ => .nested (by omega) ?_
    exact reads_typeExprWith (ih (by omega) (by omega)) hwritten (by omega) hk

/-- A printed type is read if its type arguments do not go over the limit. -/
theorem readsTypes_typeExpr {n : Nat} (h : d + n ≤ maxNesting) : ReadsTypes typeExpr n d :=
  readsTypes_typeExprWithin n (by omega) h

end Read

end SettingsLint
