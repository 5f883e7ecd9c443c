import SettingsLint.Diff.Script
import SettingsLint.Diff.Slide
import SettingsLint.Text.Lines

/-! # Unified diffs

The difference of two texts is written line by line: lines that were removed, then
lines that were added in their place, with a few unchanged lines around them. Changes
that are near to each other share these lines and form one hunk.
-/

namespace SettingsLint.Diff

/-- A part of two lists that are compared: equal in both, or different. -/
structure Block where
  isChange : Bool
  oldStart : Nat
  oldSize : Nat
  newStart : Nat
  newSize : Nat
  deriving DecidableEq, Repr

namespace Block

/-- A block of an edit that was alone. -/
def ofEdit (e : Edit) : Block :=
  ⟨e.action ≠ .keep, e.oldStart, e.oldSize, e.newStart, e.newSize⟩

/-- The block with the elements of an edit after it. The place in each list is that of
the first edit with elements of that list. -/
def append (b : Block) (e : Edit) : Block :=
  { b with
    oldStart := if b.oldSize = 0 then e.oldStart else b.oldStart
    oldSize := b.oldSize + e.oldSize
    newStart := if b.newSize = 0 then e.newStart else b.newStart
    newSize := b.newSize + e.newSize }

/-- The block as blocks that come after it join it. -/
def join (b : Block) : List Edit → List Block
  | [] => [b]
  | e :: rest =>
    if (e.action ≠ .keep) = b.isChange then join (b.append e) rest
    else b :: join (ofEdit e) rest

/-- The blocks of some edits. -/
def ofEdits : List Edit → List Block
  | [] => []
  | e :: rest => join (ofEdit e) rest

/-- The last `n` elements of an equal block. -/
def last (b : Block) (n : Nat) : Block :=
  let left := b.oldSize - n
  { b with
    oldStart := b.oldStart + left
    newStart := b.newStart + left
    oldSize := b.oldSize - left
    newSize := b.newSize - left }

/-- The first `n` elements of an equal block. -/
def first (b : Block) (n : Nat) : Block :=
  { b with oldSize := min b.oldSize n, newSize := min b.newSize n }

end Block

/-- A change, or changes near to each other, with equal elements around them. -/
abbrev Hunk := List Block

/-- Cuts blocks into hunks, with `n` equal elements around the changes. `hunk` has the
blocks of the hunk so far. -/
def cut (n : Nat) (hunk : Hunk) : List Block → List Hunk
  | [] => if hunk.any (·.isChange) then [hunk] else []
  | b :: rest =>
    if !b.isChange && n * 2 < b.oldSize then
      (hunk ++ [b.first n]) :: cut n [b.last n] rest
    else cut n (hunk ++ [b]) rest

/-- The blocks with at most `n` equal elements at both ends. -/
def trimEnds (n : Nat) (blocks : List Block) : List Block :=
  let trimFirst : List Block → List Block
    | b :: rest => (if b.isChange then b else b.last n) :: rest
    | [] => []
  let trimLast : List Block → List Block
    | b :: rest => (if b.isChange then b else b.first n) :: rest
    | [] => []
  (trimLast (trimFirst blocks).reverse).reverse

/-- The hunks of the difference of two lists, with `n` equal elements around the
changes. -/
def hunks [DecidableEq α] (n : Nat) (old new : List α) : List Hunk :=
  cut n [] (trimEnds n (Block.ofEdits (slide old new (place 0 0 (script old new)))))

namespace Unified

def context : Nat := 3

/-- A range of lines, counted from one on. An empty range stands at the line before
it, and a single line needs no size. -/
def range (start stop : Nat) : String :=
  let size := stop - start
  if size = 1 then toString (start + 1)
  else if size = 0 then s!"{start},0"
  else s!"{start + 1},{size}"

/-- A line with its mark. The end that is missing at the end of a text is told. -/
def markedLine (mark : Char) (line : List Char) : List Char :=
  let ending :=
    if Text.isTerminated line then [] else "\n\\ No newline at end of file\n".toList
  mark :: line ++ ending

def block (old new : List (List Char)) (b : Block) : List Char :=
  let oldLines := (old.drop b.oldStart).take b.oldSize
  let newLines := (new.drop b.newStart).take b.newSize
  if b.isChange then oldLines.flatMap (markedLine '-') ++ newLines.flatMap (markedLine '+')
  else oldLines.flatMap (markedLine ' ')

/-- The text of a hunk: a header with its lines in both texts, and its blocks. -/
def hunk (old new : List (List Char)) (blocks : Hunk) : List Char :=
  match blocks.head?, blocks.getLast? with
  | some a, some z =>
    let oldRange := range a.oldStart (z.oldStart + z.oldSize)
    let newRange := range a.newStart (z.newStart + z.newSize)
    s!"@@ -{oldRange} +{newRange} @@\n".toList ++ blocks.flatMap (block old new)
  | _, _ => []

end Unified

/-- The difference of two versions of a file. There is no header without hunks. -/
def unified (path old new : String) : String :=
  let oldLines := Text.lines old.toList
  let newLines := Text.lines new.toList
  match hunks Unified.context oldLines newLines with
  | [] => ""
  | found =>
    s!"--- a/{path}\n+++ b/{path}\n" ++
      String.ofList (found.flatMap (Unified.hunk oldLines newLines))

end SettingsLint.Diff
