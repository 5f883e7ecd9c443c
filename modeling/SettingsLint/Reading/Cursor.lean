import SettingsLint.Token.Basic
import SettingsLint.Tree.SyntaxError
import SettingsLint.Tree.TypeExpr

/-! # Cursors

A list of tokens is read through a cursor: the token it stands on, the tokens ahead,
and what has been learned on the way (errors, nesting depth, the end of the last
token read). The list always ends with an `eof` token, and the cursor never moves
past an `eof`, so there is always a current token.

A reader is a function on cursors, written in the state monad. Loops are built from
`gather` and `whileDo`, which go on only while every round consumes a token; so every
reader is total by construction, on any list of tokens.
-/

namespace SettingsLint

/-- The deepest nesting of namespaces, declarations and types. -/
def maxNesting : Nat := 64

/-- A place in a list of tokens, with what has been learned so far. -/
structure Cursor where
  /-- The token the cursor stands on. -/
  current : Token
  /-- The tokens after it. -/
  ahead : List Token
  /-- Where the last token read ends, if one was read. -/
  lastStop : Option Nat
  /-- How many levels of nesting are open. -/
  depth : Nat
  /-- The errors found so far, in order. -/
  errors : List SyntaxError

/-- A reader of some part of the source. -/
abbrev Read (α : Type) := StateM Cursor α

/-! ### Starting -/

/-- The list with an `eof` token at its end: added only if it is not there. -/
def terminated (tokens : List Token) : List Token :=
  match tokens.getLast? with
  | none => [⟨.eof, Span.point 0, []⟩]
  | some last =>
    if last.kind.isEof then tokens else tokens ++ [⟨.eof, Span.point last.span.stop, []⟩]

/-- The error to report for a token that is malformed. -/
def Token.error? (token : Token) : Option SyntaxError :=
  match token.kind with
  | .error text =>
    let isLiteral := text.toList.head?.any (['"', '\x27', '@', '$'].contains ·)
    some ⟨if isLiteral then .unterminatedLiteral text else .unexpectedCharacter text, token.span⟩
  | _ => none

namespace Cursor

/-- A cursor on the first token. Malformed tokens are reported at once, wherever they
stand. -/
def ofTokens (tokens : List Token) : Cursor :=
  let errors := tokens.filterMap Token.error?
  match terminated tokens with
  | [] => ⟨⟨.eof, Span.point 0, []⟩, [], none, 0, errors⟩
  | first :: rest => ⟨first, rest, none, 0, errors⟩

/-! ### Looking -/

/-- The tokens from the cursor on. -/
def tokens (s : Cursor) : List Token := s.current :: s.ahead

def kind (s : Cursor) : TokenKind := s.current.kind

def span (s : Cursor) : Span := s.current.span

/-- The kind of the token `n` places ahead, or of the last token if there are fewer. -/
def peek (s : Cursor) (n : Nat) : TokenKind :=
  (s.tokens[n]?.getD (s.ahead.getLastD s.current)).kind

def atEnd (s : Cursor) : Bool := s.kind.isEof

def atWord (s : Cursor) (word : String) : Bool := s.kind.isWord word

def atName (s : Cursor) : Bool := s.kind.name?.isSome

/-- Where the last token read ends; before the first one, where the source starts. -/
def previousStop (s : Cursor) : Nat := s.lastStop.getD s.span.start

/-- The span from the start of `first` to the end of the last token read. -/
def spanFrom (s : Cursor) (first : Span) : Span :=
  ⟨first.start, max s.previousStop first.start⟩

/-! ### Moving -/

/-- How many tokens are ahead: what every round of a loop makes smaller. -/
def size (s : Cursor) : Nat := s.ahead.length

/-- The cursor on the next token. An `eof` is never passed. -/
def advance (s : Cursor) : Cursor :=
  if s.atEnd then s
  else
    match s.ahead with
    | [] => s
    | next :: rest => { s with current := next, ahead := rest, lastStop := some s.span.stop }

def report (s : Cursor) (fault : SyntaxFault) (span : Span) : Cursor :=
  { s with errors := s.errors ++ [⟨fault, span⟩] }

end Cursor

namespace Read

/-! ### Single tokens -/

def kind : Read TokenKind := return (← get).kind

def span : Read Span := return (← get).span

/-- The span from the start of `first` to the end of the last token read. -/
def spanFrom (first : Span) : Read Span := return (← get).spanFrom first

/-- Reads the current token, whatever it is, and gives its place. -/
def advance : Read Span := modifyGet fun s => (s.span, s.advance)

/-- Reads the current token if it is of the kind. -/
def eat (kind : TokenKind) : Read (Option Span) := do
  if (← get).kind = kind then return some (← advance) else return none

def eatWord (word : String) : Read Bool := do
  if (← get).atWord word then
    let _ ← advance
    return true
  else return false

def report (fault : SyntaxFault) (span : Span) : Read Unit :=
  modify (·.report fault span)

/-- Reports that something else was expected at the current token. -/
def expected (what : String) : Read Unit :=
  modify fun s => s.report (.expected what s.kind.text) s.span

/-- Reads a token of the kind, or reports that it was expected. -/
def expect (kind : TokenKind) (what : String) : Read (Option Span) := do
  match ← eat kind with
  | some span => return some span
  | none =>
    expected what
    return none

/-- Reads a name, or reports that one was expected. -/
def ident (what : String) : Read (Option Ident) := do
  match (← get).kind.name? with
  | some name => return some ⟨name, ← advance⟩
  | none =>
    expected what
    return none

/-! ### Loops -/

/-- Runs `step` while the cursor satisfies `goOn`. -/
def whileDo (goOn : Cursor → Bool) (step : Read Unit) (s : Cursor) : Unit × Cursor :=
  if goOn s then
    let next := (step s).2
    if next.size < s.size then whileDo goOn step next else ((), next)
  else ((), s)
termination_by s.size

/-- Runs `step` as long as it asks to go on, and lists the items it gives. -/
def gather (step : Read (Option α × Bool)) (s : Cursor) : List α × Cursor :=
  let ((item, again), next) := step s
  if again && next.size < s.size then
    let (items, last) := gather step next
    (item.toList ++ items, last)
  else (item.toList, next)
termination_by s.size
decreasing_by simp_all

/-- Lists the items of `step` while the cursor satisfies `goOn`. -/
def gatherWhile (goOn : Cursor → Bool) (step : Read (Option α)) : Read (List α) :=
  gather do
    if goOn (← get) then return (← step, true) else return (none, false)

/-! ### Nesting -/

/-- Reports that the nesting is too deep, and runs `instead`. -/
def refuse (instead : Read α) : Read α := do
  report (.nestingTooDeep maxNesting) (← span)
  instead

/-- Runs `body` one level deeper. At the limit it is refused, and `instead` runs. -/
def nested (body instead : Read α) : Read α := do
  if maxNesting ≤ (← get).depth then refuse instead
  else
    modify fun s => { s with depth := s.depth + 1 }
    let a ← body
    modify fun s => { s with depth := s.depth - 1 }
    return a

end Read

end SettingsLint
