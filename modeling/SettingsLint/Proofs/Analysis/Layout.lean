import SettingsLint.Proofs.Diagnostic.Order
import SettingsLint.Proofs.Reading.Numbering
import SettingsLint.Proofs.Rule.Relocation

/-! # Analysis does not depend on layout

What is reported for a source depends on the kinds of its tokens only, up to the places;
and every place that is reported or that stands in the tree is a range of whole characters
of the text.
-/

namespace SettingsLint

open Placed (relocate places)

/-! ## The order of rooted spans -/

/-- The diagnostic between other offsets. -/
def Diagnostic.shift (offset : Nat → Nat) (d : Diagnostic) : Diagnostic :=
  { d with span := d.span.shift offset }

namespace Laid

variable {T : List Token} {span span' : Span} {t u : Token}

/-- A rooted span starts with a token and is empty or ends with a token of the text. -/
theorem rooted_ends (h : Laid T) (hspan : span.Rooted T) : ∃ t ∈ T, span.start = t.span.start ∧
    (span.stop = t.span.start ∨
      ∃ u ∈ T, u.kind ≠ .eof ∧ span.stop = u.span.stop ∧ t.span.start < u.span.stop) := by
  cases hspan with
  | @token t ht =>
    refine ⟨t, ht, rfl, ?_⟩
    by_cases heof : t.kind = .eof
    · exact .inl (h.eof t ht heof).symm
    · exact .inr ⟨t, ht, heof, rfl, h.filled ht heof⟩
  | point ht => exact ⟨_, ht, rfl, .inl rfl⟩
  | across ht hu heof hlt => exact ⟨_, ht, rfl, .inr ⟨_, hu, heof, rfl, hlt⟩⟩

/-- Tokens end in their order. -/
theorem stop_le_start (h : Laid T) (ht : t ∈ T) (hu : u ∈ T)
    (hlt : t.span.stop < u.span.stop) : t.span.stop ≤ u.span.start := by
  obtain ⟨i, hi, rfl⟩ := List.mem_iff_getElem.mp ht
  obtain ⟨j, hj, rfl⟩ := List.mem_iff_getElem.mp hu
  rcases Nat.lt_trichotomy i j with hij | rfl | hij
  · exact h.apart hij hj
  · exact absurd hlt (Nat.lt_irrefl _)
  · have := h.apart hij hi
    have := h.valid (List.getElem_mem hi)
    omega

variable (m : Layout T)

theorem offset_start_lt (h : Laid T) (ht : t ∈ T) (hu : u ∈ T)
    (hlt : t.span.start < u.span.start) : m.offset t.span.start < m.offset u.span.start := by
  obtain ⟨i, hi, rfl⟩ := List.mem_iff_getElem.mp ht
  obtain ⟨j, hj, rfl⟩ := List.mem_iff_getElem.mp hu
  rcases Nat.lt_or_ge i j with hij | hij
  · exact List.pairwise_iff_getElem.mp m.pairwise_start i j hi hj hij
  · exact absurd (h.start_le hij hi) (Nat.not_le.mpr hlt)

theorem offset_stop_lt (h : Laid T) (ht : t ∈ T) (hu : u ∈ T) (heof : u.kind ≠ .eof)
    (hlt : t.span.stop < u.span.stop) : m.offset t.span.stop < m.offset u.span.stop :=
  Nat.lt_of_le_of_lt (m.mono _ _ (h.stop_le_start ht hu hlt)) (m.lt u hu u hu (h.filled hu heof))

/-- A layout keeps the order of rooted spans. -/
theorem before_shift_of_before (h : Laid T) (hspan : span.Rooted T) (hspan' : span'.Rooted T)
    (hbefore : span.before span' = true) :
    (span.shift m.offset).before (span'.shift m.offset) = true := by
  obtain ⟨t, ht, hstart, hstop⟩ := h.rooted_ends hspan
  obtain ⟨t', ht', hstart', hstop'⟩ := h.rooted_ends hspan'
  rw [Span.before_iff] at hbefore ⊢
  rcases hbefore with hlt | ⟨heq, hlt⟩
  · refine .inl ?_
    show m.offset span.start < m.offset span'.start
    rw [hstart, hstart'] at hlt ⊢
    exact h.offset_start_lt m ht ht' hlt
  · refine .inr ⟨congrArg m.offset heq, ?_⟩
    show m.offset span.stop < m.offset span'.stop
    -- The longer span is not empty, so it ends with a token.
    rcases hstop' with hempty | ⟨u', hu', heof', hend', -⟩
    · rcases hstop with hempty' | ⟨u, -, -, hend, hfilled⟩ <;> omega
    · rw [hend'] at hlt ⊢
      rcases hstop with hempty | ⟨u, hu, -, hend, -⟩
      · rw [hempty] at hlt ⊢
        exact m.lt t ht u' hu' hlt
      · rw [hend] at hlt ⊢
        exact h.offset_stop_lt m hu hu' heof' hlt

theorem shift_eq_iff (h : Laid T) (hspan : span.Rooted T) (hspan' : span'.Rooted T) :
    span.shift m.offset = span'.shift m.offset ↔ span = span' := by
  refine ⟨fun heq => ?_, congrArg _⟩
  rcases span.before_trichotomy span' with hlt | heq' | hlt
  · have := h.before_shift_of_before m hspan hspan' hlt
    rw [heq, Span.before_irrefl] at this
    cases this
  · exact heq'
  · have := h.before_shift_of_before m hspan' hspan hlt
    rw [heq, Span.before_irrefl] at this
    cases this

theorem before_shift (h : Laid T) (hspan : span.Rooted T) (hspan' : span'.Rooted T) :
    (span.shift m.offset).before (span'.shift m.offset) = span.before span' := by
  rcases span.before_trichotomy span' with hlt | rfl | hlt
  · rw [hlt, h.before_shift_of_before m hspan hspan' hlt]
  · rw [Span.before_irrefl, Span.before_irrefl]
  · rw [Span.before_asymm hlt, Span.before_asymm (h.before_shift_of_before m hspan' hspan hlt)]

theorem sort_shift (h : Laid T) {ds : List Diagnostic} (hds : ∀ d ∈ ds, d.span.Rooted T) :
    Diagnostic.sort (ds.map (·.shift m.offset)) = (Diagnostic.sort ds).map (·.shift m.offset) := by
  refine (List.map_mergeSort fun d hd e he => ?_).symm
  have heq := h.shift_eq_iff m (hds d hd) (hds e he)
  have hbefore := h.before_shift m (hds d hd) (hds e he)
  show _ = if d.span.shift m.offset = e.span.shift m.offset then decide (d.id ≤ e.id)
    else (d.span.shift m.offset).before (e.span.shift m.offset)
  rw [hbefore]
  exact (if_congr heq rfl rfl).symm

end Laid

/-! ## Reports in a layout -/

namespace Analyzer

variable (a : Analyzer)

theorem span_of_applySeverity {d d' : Diagnostic} (h : a.applySeverity d = some d') :
    d'.span = d.span := by
  rw [a.eq_of_applySeverity h]

/-- What is reported stands at a syntax error, at a node or at the name of a property. -/
theorem mem_check_cases {source : Source} {d : Diagnostic} (h : d ∈ a.check source) :
    (∃ e ∈ source.errors, d.span = e.span) ∨ Place.node d.span ∈ places source.unit ∨
      ∃ name, Place.property name d.span ∈ places source.unit := by
  rw [check, report, Diagnostic.sort, List.mem_mergeSort, List.mem_append, List.mem_filterMap] at h
  rcases h with ⟨d', hd', happly⟩ | h
  · rw [a.span_of_applySeverity happly]
    rcases List.mem_append.mp hd' with hd' | hd'
    · obtain ⟨e, he, rfl⟩ := List.mem_map.mp hd'
      exact .inl ⟨e, he, rfl⟩
    · exact .inr (.inl (Model.node_mem_places hd'))
  · exact .inr (.inr ⟨_, a.property_mem_places h⟩)

end Analyzer

/-- The source with the places of a layout. -/
def Layout.source {T : List Token} (m : Layout T) (text : String) (source : Source) : Source :=
  ⟨text, relocate m.place source.unit, source.errors.map m.error⟩

/-- Everything in the source is made from the tokens. -/
structure Source.Within (T : List Token) (source : Source) : Prop where
  unit : Placed.Within T source.unit
  errors : ∀ e ∈ source.errors, e.span.Rooted T

namespace Source.Within

variable {T : List Token} {source : Source}

theorem rooted_check (h : source.Within T) (a : Analyzer) {d : Diagnostic}
    (hd : d ∈ a.check source) : d.span.Rooted T := by
  rcases a.mem_check_cases hd with ⟨e, he, hspan⟩ | hnode | ⟨name, hproperty⟩
  · exact hspan ▸ h.errors e he
  · cases h.unit _ hnode with
    | node hrooted => exact hrooted
  · generalize d.span = span at hproperty ⊢
    cases h.unit _ hproperty with
    | property ht => exact .token ht

end Source.Within

/-- In another layout the same is reported, at the places of the layout. -/
theorem Analyzer.check_layout (a : Analyzer) {T : List Token} (hT : Laid T) (m : Layout T)
    {source : Source} (h : source.Within T) (text : String) :
    a.check (m.source text source) = (a.check source).map (·.shift m.offset) := by
  let model := Model.ofUnit source.unit
  have hmodel : Model.ofUnit (m.source text source).unit = model.relocate m.place :=
    Model.ofUnit_relocate m.place source.unit
  have herrors : (m.source text source).diagnostics = source.diagnostics.map (·.shift m.offset) := by
    rw [Source.diagnostics, Source.diagnostics, Layout.source, List.map_map, List.map_map]
    rfl
  have hnames : (model.relocate m.place).diagnostics = model.diagnostics.map (·.shift m.offset) := rfl
  have happly (d : Diagnostic) :
      a.applySeverity (d.shift m.offset) = (a.applySeverity d).map (·.shift m.offset) :=
    a.applySeverity_map (·.shift m.offset) (fun _ => rfl) (fun _ _ => rfl) d
  have hanalyze : a.analyze (model.relocate m.place) = (a.analyze model).map (·.shift m.offset) :=
    a.analyze_relocate m.place model
  have hhost : ((m.source text source).diagnostics ++ (model.relocate m.place).diagnostics).filterMap
      a.applySeverity
        = ((source.diagnostics ++ model.diagnostics).filterMap a.applySeverity).map
          (·.shift m.offset) := by
    rw [herrors, hnames, ← List.map_append, List.filterMap_map, List.map_filterMap]
    exact congrArg (List.filterMap · _) (funext happly)
  rw [check, hmodel, report, hhost, hanalyze, ← List.map_append]
  refine hT.sort_shift m fun d hd => h.rooted_check a ?_
  rw [check, report, Diagnostic.sort, List.mem_mergeSort]
  exact hd

/-! ## Sources and the kinds of their tokens -/

/-- The source whose offsets are the numbers of boundaries between tokens of the kinds. -/
def Source.numbered (kinds : List TokenKind) : Source :=
  let (unit, errors) := SourceUnit.ofTokens (Token.numbered kinds)
  ⟨"", unit, errors⟩

theorem Source.within_numbered (text : String) :
    (numbered (Token.kindsOf text)).Within (Token.numbered (Token.kindsOf text)) := by
  have hlaid := (Token.laid_lexToEnd text).numbered
  have := SourceUnit.within_ofTokens hlaid.layout hlaid.ends
  exact ⟨this.1, this.2⟩

/-- What is read from a text is what is read from the kinds of its tokens, with every
boundary where it is in the text. -/
theorem Source.parse_eq_layout (text : String) :
    parse text = (Token.laid_lexToEnd text).ofNumbers.source text (numbered (Token.kindsOf text)) := by
  have hlaid := Token.laid_lexToEnd text
  have hread := SourceUnit.ofTokens_map hlaid.ofNumbers hlaid.numbered.ends
  rw [hlaid.map_ofNumbers] at hread
  rw [parse, hread]
  rfl

/-- Whether a text is read without an error depends on the kinds of its tokens only. -/
theorem Source.errors_parse_eq_nil_iff (text : String) :
    (parse text).errors = [] ↔ (numbered (Token.kindsOf text)).errors = [] := by
  rw [parse_eq_layout]
  exact List.map_eq_nil_iff

theorem Analyzer.check_parse (a : Analyzer) (text : String) :
    a.check (Source.parse text) = (a.check (Source.numbered (Token.kindsOf text))).map
      (·.shift (Token.boundary (Token.lexToEnd text))) := by
  have hlaid := Token.laid_lexToEnd text
  rw [Source.parse_eq_layout]
  exact a.check_layout hlaid.numbered hlaid.ofNumbers (Source.within_numbered text) text

/-- The diagnostic without its place. -/
def Diagnostic.content (d : Diagnostic) : Diagnostic := { d with span := default }

/-- Texts with the same kinds of tokens are read as one and the same unit with the same
errors, up to where the boundaries of tokens stand; and the same is reported for them, in
the same order. -/
theorem Analyzer.check_eq_of_kindsOf_eq {text text' : String}
    (h : Token.kindsOf text = Token.kindsOf text') :
    (∃ (unit : SourceUnit) (errors : List SyntaxError), ∀ source ∈ [text, text'],
      (Source.parse source).unit
        = relocate (fun p => p.span.shift (Token.boundary (Token.lexToEnd source))) unit ∧
      (Source.parse source).errors
        = errors.map fun e => ⟨e.fault, e.span.shift (Token.boundary (Token.lexToEnd source))⟩) ∧
    ∀ a : Analyzer, (a.check (Source.parse text)).map (·.content)
      = (a.check (Source.parse text')).map (·.content) := by
  refine ⟨⟨(Source.numbered (Token.kindsOf text)).unit,
    (Source.numbered (Token.kindsOf text)).errors, ?_⟩, fun a => ?_⟩
  · intro source hsource
    have hkinds : Token.kindsOf source = Token.kindsOf text := by
      rcases List.mem_cons.mp hsource with rfl | hsource
      · rfl
      · rw [List.mem_singleton.mp hsource, h]
    rw [Source.parse_eq_layout source, ← hkinds]
    exact ⟨rfl, rfl⟩
  · rw [a.check_parse text, a.check_parse text', h, List.map_map, List.map_map]
    rfl

/-- Comments and line breaks between the tokens change nothing. -/
theorem Analyzer.check_spread_out :
    let text := "using Spectre.Console.Cli; class S : CommandSettings" ++
      "\x7b[CommandOption(\"u\")]Uri U\x7bget;\x7d\x7d"
    let text' := "using Spectre.Console.Cli; // first\nclass S\n  : CommandSettings\n\x7b\n" ++
      "  [ CommandOption ( \"u\" ) ] /* here */ Uri U \x7b get; \x7d\n\x7d\n"
    Token.kindsOf text = Token.kindsOf text' ∧
      ∀ a : Analyzer, (a.check (Source.parse text)).map (·.content)
        = (a.check (Source.parse text')).map (·.content) := by
  intro text text'
  have hkinds : Token.kindsOf text = Token.kindsOf text' := by decide +kernel
  exact ⟨hkinds, (check_eq_of_kindsOf_eq hkinds).2⟩

/-! ## Places in the text -/

/-- The span is a range of whole characters of the text. -/
structure Span.Valid (span : Span) (text : List Char) : Prop where
  ordered : span.start ≤ span.stop
  inText : span.stop ≤ Text.byteSize text
  start : Text.IsBoundary text span.start
  stop : Text.IsBoundary text span.stop
  slice? : ∃ part, span.slice? text = some part

theorem Span.valid_of_boundaries {span : Span} {text : List Char}
    (hstart : Text.IsBoundary text span.start) (hstop : Text.IsBoundary text span.stop)
    (hle : span.start ≤ span.stop) : span.Valid text := by
  refine ⟨hle, ?_, hstart, hstop, hstart.slice? hstop hle⟩
  obtain ⟨before, after, rfl, hsize⟩ := hstop
  rw [← hsize, Text.byteSize_append]
  exact Nat.le_add_right _ _

namespace Token

variable {text : String} {span : Span}

theorem isBoundary_lexToEnd {t : Token} (ht : t ∈ lexToEnd text) :
    Text.IsBoundary text.toList t.span.start ∧ Text.IsBoundary text.toList t.span.stop := by
  obtain ⟨part, hslice, -⟩ := (tiles_lexToEnd text).slice? [] rfl ht
  exact Text.isBoundary_of_slice? hslice

theorem valid_of_rooted (h : span.Rooted (lexToEnd text)) : span.Valid text.toList := by
  have hlaid := laid_lexToEnd text
  cases h with
  | token ht =>
    exact Span.valid_of_boundaries (isBoundary_lexToEnd ht).1 (isBoundary_lexToEnd ht).2
      (hlaid.valid ht)
  | point ht =>
    exact Span.valid_of_boundaries (isBoundary_lexToEnd ht).1 (isBoundary_lexToEnd ht).1 (Nat.le_refl _)
  | across ht hu _ hlt =>
    exact Span.valid_of_boundaries (isBoundary_lexToEnd ht).1 (isBoundary_lexToEnd hu).2
      (Nat.le_of_lt hlt)

theorem valid_of_within {p : Place} (h : p.Within (lexToEnd text)) : p.span.Valid text.toList := by
  cases h with
  | property ht => exact valid_of_rooted (.token ht)
  | name ht => exact valid_of_rooted (.token ht)
  | node h => exact valid_of_rooted h
  | gap h => exact valid_of_rooted h
  | stop ht =>
    exact Span.valid_of_boundaries (isBoundary_lexToEnd ht).2 (isBoundary_lexToEnd ht).2 (Nat.le_refl _)
  | whole ht hu hle =>
    exact Span.valid_of_boundaries (isBoundary_lexToEnd ht).1 (isBoundary_lexToEnd hu).2 hle

end Token

theorem Source.within_parse (text : String) : (parse text).Within (Token.lexToEnd text) := by
  have hlaid := Token.laid_lexToEnd text
  have := SourceUnit.within_ofTokens hlaid.layout hlaid.ends
  exact ⟨this.1, this.2⟩

/-- Every node of the tree and everything that is reported stands at a range of whole
characters of the text. What a rule reports stands at the name of a property, as it is
written there. -/
theorem Analyzer.spans_valid (a : Analyzer) (text : String) :
    (∀ p ∈ places (Source.parse text).unit, p.span.Valid text.toList) ∧
    (∀ d ∈ a.check (Source.parse text), d.span.Valid text.toList) ∧
    ∀ d ∈ a.analyze (Model.ofUnit (Source.parse text).unit), ∃ name t,
      d.arguments.head? = some name ∧
      Place.property name d.span ∈ places (Source.parse text).unit ∧
      t ∈ Token.lexToEnd text ∧ t.kind = .identifier name ∧ t.span = d.span ∧
      ∃ written, d.span.slice? text.toList = some written ∧ t.kind.Writes written := by
  have hwithin := Source.within_parse text
  refine ⟨fun p hp => Token.valid_of_within (hwithin.unit p hp),
    fun d hd => Token.valid_of_rooted (hwithin.rooted_check a hd), fun d hd => ?_⟩
  have hplace := a.property_mem_places hd
  obtain ⟨-, -, -, -, f, -, hd⟩ := a.exists_finding hd
  have hname : d.arguments.head? = some f.property.name := by
    rw [hd]
    exact f.head?_arguments _
  rw [List.headD_eq_head?_getD, hname] at hplace
  refine ⟨f.property.name, ?_⟩
  generalize d.span = span at hplace ⊢
  cases hwithin.unit _ hplace with
  | @property t _ ht hk =>
    exact ⟨t, hname, hplace, ht, hk, rfl, (Token.tiles_lexToEnd text).slice? [] rfl ht⟩

end SettingsLint
