import SettingsLint.Diff.Edit

/-! # Shortest edit scripts

A shortest script that turns one list into another is a shortest path through a grid:
a step to the right removes an element of the old list, a step down adds one of the
new list, and a diagonal step, which costs nothing, keeps an element of both. Paths
are searched from both corners at once, always the ones that reach farthest on each
diagonal; where they meet, the grid is divided and both parts are searched again.

On the diagonal `k` lie the points whose coordinates differ by `k`.
-/

namespace SettingsLint.Diff

/-- How far to the right the paths of a search have come, on each diagonal. -/
structure Frontier where
  /-- The place of the diagonal zero. -/
  middle : Nat
  /-- The coordinates, diagonal by diagonal. -/
  reach : Array Nat

namespace Frontier

/-- The frontier of a search that has not started. -/
def start (steps : Nat) : Frontier := ⟨steps + 1, Array.replicate (2 * steps + 3) 0⟩

/-- How far the search has come on a diagonal. -/
def get (f : Frontier) (k : Int) : Nat := f.reach.getD (k + f.middle).toNat 0

/-- The frontier with another reach on a diagonal. -/
def set (f : Frontier) (k : Int) (x : Nat) : Frontier :=
  { f with reach := f.reach.setIfInBounds (k + f.middle).toNat x }

/-- Where a path with `d` steps off the diagonals gets onto the diagonal `k`: from the
neighbour that has come farther. -/
def enter (f : Frontier) (d : Nat) (k : Int) : Nat :=
  if k = -d ∨ (k ≠ d ∧ f.get (k - 1) < f.get (k + 1)) then f.get (k + 1)
  else f.get (k - 1) + 1

end Frontier

/-- The diagonals that paths with `d` steps off the diagonals can end on, the rightmost
first. -/
def diagonals (d : Nat) : List Int := (List.range (d + 1)).map fun (i : Nat) => d - 2 * i

/-- How many steps off the diagonals from either side are enough for two lists. -/
def enoughSteps (n m : Nat) : Nat := (n + m + 1) / 2 + 1

section Search

variable [DecidableEq α]

/-- The lists to be compared, each in both directions. -/
structure Grid (α : Type) where
  old : List α
  new : List α
  oldReversed : List α
  newReversed : List α

/-- The difference of the lengths, which is the diagonal of the far corner. -/
def Grid.corner (g : Grid α) : Int := (g.old.length : Int) - g.new.length

/-- Takes the paths from the start one step farther. Gives the point where the last
diagonal of a path starts if that path meets one from the end. -/
def forward (g : Grid α) (d : Nat) (ahead back : Frontier) : Except (Nat × Nat) Frontier :=
  (diagonals d).foldlM (fun ahead k =>
    let x := ahead.enter d k
    let y := ((x : Int) - k).toNat
    let reach := x + commonStart (g.old.drop x) (g.new.drop y)
    if g.corner % 2 ≠ 0 ∧ (k - g.corner).natAbs + 1 ≤ d ∧
        g.old.length ≤ reach + back.get (g.corner - k) then .error (x, y)
    else .ok (ahead.set k reach)) ahead

/-- Takes the paths from the end one step farther. Gives the point where such a path
has come to if it meets one from the start. -/
def backward (g : Grid α) (d : Nat) (ahead back : Frontier) : Except (Nat × Nat) Frontier :=
  (diagonals d).foldlM (fun back k =>
    let x := back.enter d k
    let y := ((x : Int) - k).toNat
    let common := commonStart (g.oldReversed.drop x) (g.newReversed.drop y)
    let reach := x + common
    if g.corner % 2 = 0 ∧ (k - g.corner).natAbs ≤ d ∧
        g.old.length ≤ reach + ahead.get (g.corner - k) then
      .error (g.old.length - reach, g.new.length - (y + common))
    else .ok (back.set k reach)) back

/-- Searches from both sides, with at most `left` more steps. -/
def search (g : Grid α) : (left d : Nat) → (ahead back : Frontier) → Option (Nat × Nat)
  | 0, _, _, _ => none
  | left + 1, d, ahead, back =>
    match forward g d ahead back with
    | .error point => some point
    | .ok ahead =>
      match backward g d ahead back with
      | .error point => some point
      | .ok back => search g left (d + 1) ahead back

/-- A point on a shortest path, near its middle. -/
def middle? (old new : List α) : Option (Nat × Nat) :=
  let steps := enoughSteps old.length new.length
  search ⟨old, new, old.reverse, new.reverse⟩ steps 0 (.start steps) (.start steps)

/-- A shortest script that turns `old` into `new`, as runs. What both lists start and
end with is kept; the rest is divided at a point on a shortest path. -/
def script (old new : List α) : List (Action × Nat) :=
  let start := commonStart old new
  let oldRest := old.drop start
  let newRest := new.drop start
  let stop := commonEnd oldRest newRest
  let oldMiddle := oldRest.take (oldRest.length - stop)
  let newMiddle := newRest.take (newRest.length - stop)
  let replaced := [(Action.remove, oldMiddle.length), (Action.add, newMiddle.length)]
  let inner :=
    if oldMiddle.isEmpty ∨ newMiddle.isEmpty then replaced
    else
      match middle? oldMiddle newMiddle with
      | none => replaced
      | some (x, y) =>
        if (oldMiddle.take x).length + (newMiddle.take y).length < old.length + new.length ∧
            (oldMiddle.drop x).length + (newMiddle.drop y).length < old.length + new.length then
          script (oldMiddle.take x) (newMiddle.take y) ++
            script (oldMiddle.drop x) (newMiddle.drop y)
        else replaced
  ((Action.keep, start) :: inner ++ [(Action.keep, stop)]).filter fun (_, size) => size ≠ 0
termination_by old.length + new.length
decreasing_by
  · rename_i smaller; exact smaller.1
  · rename_i smaller; exact smaller.2

end Search

end SettingsLint.Diff
