/-! # Paths

A path is a text of names with slashes between them. Two paths are the same if their
parts are: repeated slashes and the name `.` make no difference, except for a `.` that
a relative path starts with. Paths are ordered part by part.
-/

namespace SettingsLint

/-- A path in a file system, as it was written. -/
structure Path where
  text : String
  deriving DecidableEq, Repr

namespace Path

/-- A part of a path. -/
inductive Part where
  /-- The slash that an absolute path starts with. -/
  | root
  /-- The dot that a relative path starts with. -/
  | here
  /-- Two dots. -/
  | up
  | name (name : String)
  deriving DecidableEq, Repr

/-- The place of the kind of a part in the order of parts. -/
def Part.rank : Part → Nat
  | .root => 0
  | .here => 1
  | .up => 2
  | .name _ => 3

/-- Is a part not after another one? Names are in the order of texts. -/
def Part.notAfter : Part → Part → Bool
  | .name a, .name b => !decide (b < a)
  | a, b => a.rank ≤ b.rank

/-- Is a list of parts not after another one? -/
def notAfter : List Part → List Part → Bool
  | [], _ => true
  | _ :: _, [] => false
  | a :: as, b :: bs => if a = b then notAfter as bs else a.notAfter b

def isAbsolute (p : Path) : Bool := p.text.toList.head? = some '/'

/-- What stands between the slashes of the path, the slash of the root left out. -/
def pieces (p : Path) : List String :=
  if p.isAbsolute then (p.text.splitOn "/").drop 1 else p.text.splitOn "/"

/-- Is a piece a part of its own? `leads` tells that a relative path starts with it. -/
def isPart (leads : Bool) (piece : String) : Bool := piece ≠ "" && (leads || piece ≠ ".")

/-- The part of a piece that is one. -/
def Part.ofPiece (piece : String) : Part :=
  if piece = "." then .here else if piece = ".." then .up else .name piece

/-- The parts of the pieces of a path. -/
def partsOf (leads : Bool) : List String → List Part
  | [] => []
  | piece :: rest =>
    if isPart leads piece then .ofPiece piece :: partsOf false rest else partsOf false rest

def parts (p : Path) : List Part :=
  if p.isAbsolute then .root :: partsOf false p.pieces else partsOf true p.pieces

/-- The pieces without those at the end that are no parts. -/
def trimEnd (leads : Bool) : List String → List String
  | [] => []
  | piece :: rest =>
    match trimEnd false rest with
    | [] => if isPart leads piece then [piece] else []
    | kept => piece :: kept

theorem length_trimEnd_le (leads : Bool) (pieces : List String) :
    (trimEnd leads pieces).length ≤ pieces.length := by
  fun_induction trimEnd leads pieces <;> simp_all

/-- The pieces of the directories above, the nearest one first. The last piece given is
a part. -/
def piecesAbove (leads : Bool) : List String → List (List String)
  | [] => []
  | piece :: rest =>
    let parent := trimEnd leads (piece :: rest).dropLast
    parent :: piecesAbove leads parent
termination_by pieces => pieces.length
decreasing_by
  have := length_trimEnd_le leads (piece :: rest).dropLast
  simp only [List.length_cons, List.length_dropLast] at this ⊢
  omega

/-- The directories above a path, the nearest one first. -/
def above (p : Path) : List Path :=
  let leads := !p.isAbsolute
  (piecesAbove leads (trimEnd leads p.pieces)).map fun pieces =>
    ⟨(if p.isAbsolute then "/" else "") ++ "/".intercalate pieces⟩

def join (p : Path) (name : String) : Path :=
  if p.text.isEmpty || p.text.toList.getLast? = some '/' then ⟨p.text ++ name⟩
  else ⟨p.text ++ "/" ++ name⟩

/-- What stands after the last dot of the last name. A dot in front of a name starts no
extension. -/
def extension? (p : Path) : Option String :=
  match p.parts.getLast? with
  | some (.name name) =>
    let (after, before) := name.toList.reverse.span (· ≠ '.')
    if 1 < before.length then some (String.ofList after.reverse) else none
  | _ => none

/-- Are two paths the same, part by part? -/
def same (p q : Path) : Bool := p.parts = q.parts

def sort (paths : List Path) : List Path :=
  paths.mergeSort fun p q => notAfter p.parts q.parts

/-- The paths without those that are the same as one before them. -/
def dropRepeated (paths : List Path) : List Path :=
  paths.foldl (fun kept p => if kept.any p.same then kept else kept ++ [p]) []

end Path

end SettingsLint
