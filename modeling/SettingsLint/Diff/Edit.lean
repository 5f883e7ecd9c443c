/-! # Edits of lists

The difference of two lists is written as a list of edits, each of which keeps, removes
or adds a run of elements.
-/

namespace SettingsLint.Diff

/-- What an edit does with its elements. -/
inductive Action where
  | keep
  | remove
  | add
  deriving DecidableEq, Repr

/-- A run of elements that is kept, removed or added. -/
structure Edit where
  action : Action
  /-- Where the run stands in the old list, or where it is missing there. -/
  oldStart : Nat
  /-- Where the run stands in the new list, or where it is missing there. -/
  newStart : Nat
  /-- How many elements the run has. -/
  size : Nat
  deriving DecidableEq, Repr

def commonStart [DecidableEq α] : List α → List α → Nat
  | a :: as, b :: bs => if a = b then commonStart as bs + 1 else 0
  | _, _ => 0

def commonEnd [DecidableEq α] (as bs : List α) : Nat := commonStart as.reverse bs.reverse

namespace Edit

/-- How many elements of the old list the edit covers. -/
def oldSize (e : Edit) : Nat := if e.action = .add then 0 else e.size

/-- How many elements of the new list the edit covers. -/
def newSize (e : Edit) : Nat := if e.action = .remove then 0 else e.size

def oldStop (e : Edit) : Nat := e.oldStart + e.oldSize

def newStop (e : Edit) : Nat := e.newStart + e.newSize

/-- The elements of the old list that the edit covers. -/
def oldPart (e : Edit) (old : List α) : List α := (old.drop e.oldStart).take e.oldSize

/-- The elements of the new list that the edit covers. -/
def newPart (e : Edit) (new : List α) : List α := (new.drop e.newStart).take e.newSize

/-- The edit moved `n` places to the start. -/
def moveUp (e : Edit) (n : Nat) : Edit :=
  { e with oldStart := e.oldStart - n, newStart := e.newStart - n }

/-- The edit moved `n` places to the end. -/
def moveDown (e : Edit) (n : Nat) : Edit :=
  { e with oldStart := e.oldStart + n, newStart := e.newStart + n }

/-- The edit with `n` more elements at its end. -/
def extend (e : Edit) (n : Nat) : Edit := { e with size := e.size + n }

/-- The edit without its last `n` elements. -/
def shorten (e : Edit) (n : Nat) : Edit := { e with size := e.size - n }

end Edit

/-- Runs of elements one after the other, as edits with their places. -/
def place (oldStart newStart : Nat) : List (Action × Nat) → List Edit
  | [] => []
  | (action, size) :: rest =>
    let e : Edit := ⟨action, oldStart, newStart, size⟩
    e :: place e.oldStop e.newStop rest

end SettingsLint.Diff
