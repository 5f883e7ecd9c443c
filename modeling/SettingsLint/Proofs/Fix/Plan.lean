import SettingsLint.Fix.Edit
import SettingsLint.Proofs.Token.Spelling

/-! # Plans

A plan says which tokens of a source stay and where edits put new ones. Its pieces are
in source order. From a plan one reads off the old tokens, the edits of the text, and
the kinds of the new tokens.

A plan *fits* if every edit starts where a token may end or start: a new text after a
token starts with a mark that ends every token, and a new text before a token follows
one of the marks before a value.
-/

namespace SettingsLint

open Token (Spelled)

/-- A token that stays, or a place where an edit puts new tokens. -/
inductive Piece where
  | kept (t : Token)
  /-- The token stays, and the text is inserted at its end. -/
  | after (t : Token) (text : String) (new : List TokenKind)
  /-- The text is inserted at the start of the token, which stays. -/
  | before (t : Token) (text : String) (new : List TokenKind)
  /-- The text replaces the tokens. -/
  | instead (first : Token) (rest : List Token) (text : String) (new : List TokenKind)

namespace Piece

def old : Piece → List Token
  | kept t | after t _ _ | before t _ _ => [t]
  | instead first rest _ _ => first :: rest

def kinds : Piece → List TokenKind
  | kept t => [t.kind]
  | after t _ new => t.kind :: new
  | before t _ new => new ++ [t.kind]
  | instead _ _ _ new => new

/-- The edit of the text, if there is one. -/
def edit? : Piece → Option TextEdit
  | kept _ => none
  | after t text _ => some (.insertion t.span.stop text)
  | before t text _ => some (.insertion t.span.start text)
  | instead first rest text _ => some ⟨⟨first.span.start, (rest.getLastD first).span.stop⟩, text⟩

attribute [simp] old kinds edit?

end Piece

/-- A list of pieces in source order. -/
abbrev Plan := List Piece

namespace Plan

def old (π : Plan) : List Token := π.flatMap (·.old)

def kinds (π : Plan) : List TokenKind := π.flatMap (·.kinds)

def edits (π : Plan) : List TextEdit := π.filterMap (·.edit?)

/-- The plan that keeps all tokens. -/
def keep (tokens : List Token) : Plan := tokens.map .kept

section

variable (π ρ : Plan) (tokens : List Token)

@[simp] theorem old_nil : old [] = [] := rfl
@[simp] theorem kinds_nil : kinds [] = [] := rfl
@[simp] theorem edits_nil : edits [] = [] := rfl

@[simp] theorem old_cons (piece : Piece) : old (piece :: π) = piece.old ++ π.old := rfl
@[simp] theorem kinds_cons (piece : Piece) : kinds (piece :: π) = piece.kinds ++ π.kinds := rfl

@[simp] theorem edits_cons (piece : Piece) : edits (piece :: π) = piece.edit?.toList ++ π.edits := by
  cases piece <;> rfl

@[simp] theorem old_append : (π ++ ρ : Plan).old = π.old ++ ρ.old := List.flatMap_append
@[simp] theorem kinds_append : (π ++ ρ : Plan).kinds = π.kinds ++ ρ.kinds := List.flatMap_append
@[simp] theorem edits_append : (π ++ ρ : Plan).edits = π.edits ++ ρ.edits := List.filterMap_append

theorem keep_append (tokens' : List Token) :
    keep (tokens ++ tokens') = keep tokens ++ keep tokens' := List.map_append

@[simp] theorem old_keep : (keep tokens).old = tokens := by
  induction tokens with
  | nil => rfl
  | cons t tokens ih => exact congrArg (t :: ·) ih

@[simp] theorem kinds_keep : (keep tokens).kinds = tokens.map (·.kind) := by
  induction tokens with
  | nil => rfl
  | cons t tokens ih => exact congrArg (t.kind :: ·) ih

@[simp] theorem edits_keep : (keep tokens).edits = [] := by
  induction tokens with
  | nil => rfl
  | cons t tokens ih => exact ih

end

/-- A plan without edits keeps all tokens. -/
theorem eq_keep_of_edits_eq_nil {π : Plan} (h : π.edits = []) : π = keep π.old := by
  induction π with
  | nil => rfl
  | cons piece π ih =>
    rw [edits_cons, List.append_eq_nil_iff] at h
    cases piece with
    | kept t => exact congrArg (.kept t :: ·) (ih h.2)
    | _ => exact absurd h.1 (by simp)

/-! ## Plans that fit -/

/-- Does a value follow the token? -/
def opensValue (kind : TokenKind) : Bool :=
  kind = .leftParen || kind = .comma || kind = .colon || kind = .equals

/-- The kind of the last token of a piece, old or new. New texts end with a parenthesis. -/
def lastOf : Piece → TokenKind
  | .kept t | .before t _ _ => t.kind
  | .after .. | .instead .. => .rightParen

/-- Does the piece fit after a token of kind `prev`? -/
def PieceFits (prev : TokenKind) : Piece → Prop
  | .kept _ => True
  | .after _ text new =>
    (text.toList.head? = some '(' ∨ text.toList.head? = some ',') ∧ Spelled text.toList new
  | .before t text new =>
    opensValue prev = true ∧ text.toList.head? = some 't' ∧ Spelled text.toList new ∧
      (t.kind.name?.isSome = true ∨ t.kind = .rightParen)
  | .instead _ _ text new =>
    opensValue prev = true ∧ text.toList.head? = some 't' ∧ Spelled text.toList new

/-- Do the pieces fit after a token of kind `prev`? -/
def Fits (prev : TokenKind) : Plan → Prop
  | [] => True
  | piece :: π => PieceFits prev piece ∧ Fits (lastOf piece) π

/-- The kind of the last token of a plan that follows one of kind `prev`. -/
def last (prev : TokenKind) (π : Plan) : TokenKind := π.foldl (fun _ piece => lastOf piece) prev

theorem fits_append {prev : TokenKind} {π ρ : Plan} :
    Fits prev (π ++ ρ) ↔ Fits prev π ∧ Fits (last prev π) ρ := by
  induction π generalizing prev with
  | nil => simp [Fits, last]
  | cons piece π ih =>
    simp only [List.cons_append, Fits, ih, and_assoc]
    rfl

theorem fits_keep (prev : TokenKind) (tokens : List Token) : Fits prev (keep tokens) := by
  induction tokens generalizing prev with
  | nil => trivial
  | cons t tokens ih => exact ⟨trivial, ih _⟩

@[simp] theorem last_append (prev : TokenKind) (π ρ : Plan) :
    last prev (π ++ ρ) = last (last prev π) ρ := List.foldl_append ..

end Plan

end SettingsLint
