import SettingsLint.Diff.Edit

/-! # Joining edits

Added elements can often be chosen in several ways: if the element before them equals
the last one of them, they can as well start one place earlier. Added runs are slid up
as far as they go and then down as far as they go, and what meets on the way is joined;
so the changes come in few places. A removed and an added run that touch change places
freely, and in the end the removed one stands first.

The edits around one of them are held as two lists, those above it with the nearest one
first.
-/

namespace SettingsLint.Diff

section Sliding

variable [DecidableEq α] (old new : List α)

/-- The size of some edits: what makes sliding end. -/
def weight : List Edit → Nat
  | [] => 0
  | e :: rest => e.size + 1 + weight rest

/-- Some edits with another one in front of them, if it has elements. -/
def putNonempty (e : Edit) (rest : List Edit) : List Edit :=
  if e.size = 0 then rest else e :: rest

theorem weight_putNonempty_le (e : Edit) (rest : List Edit) :
    weight (putNonempty e rest) ≤ e.size + 1 + weight rest := by
  unfold putNonempty
  split
  · omega
  · exact Nat.le_refl _

/-- A kept run that grows by `n` elements at its start, or is put in front if there is
none. -/
def keepBefore (e : Edit) : List Edit → List Edit
  | next :: rest =>
    if next.action = .keep then ((next.moveUp e.size).extend e.size) :: rest
    else e :: next :: rest
  | [] => [e]

/-- A kept run that grows by `n` elements at its end, or is put there if there is
none. -/
def keepAfter (e : Edit) : List Edit → List Edit
  | previous :: rest =>
    if previous.action = .keep then previous.extend e.size :: rest
    else e :: previous :: rest
  | [] => [e]

def slideUp (above : List Edit) (e : Edit) (below : List Edit) :
    List Edit × Edit × List Edit :=
  match above with
  | [] => ([], e, below)
  | previous :: rest =>
    if previous.action = .keep then
      let n := commonEnd (previous.oldPart old) (e.newPart new)
      if previous.size = 0 then slideUp rest e below
      else if n = 0 then (previous :: rest, e, below)
      else
        let kept : Edit := ⟨.keep, previous.oldStop - n, e.newStop - n, n⟩
        slideUp (putNonempty (previous.shorten n) rest) (e.moveUp n) (keepBefore kept below)
    else if previous.action = e.action then slideUp rest (previous.extend e.size) below
    else slideUp rest e (previous :: below)
termination_by weight above
decreasing_by
  · simp only [weight]; omega
  · refine Nat.lt_of_le_of_lt (weight_putNonempty_le _ _) ?_
    simp only [weight, Edit.shorten]
    omega
  · simp only [weight]; omega
  · simp only [weight]; omega

def slideDown (above : List Edit) (e : Edit) (below : List Edit) :
    List Edit × Edit × List Edit :=
  match below with
  | [] => (above, e, [])
  | next :: rest =>
    if next.action = .keep then
      let n := commonStart (next.oldPart old) (e.newPart new)
      if next.size = 0 then slideDown above e rest
      else if n = 0 then (above, e, next :: rest)
      else
        let kept : Edit := ⟨.keep, next.oldStart, e.newStart, n⟩
        slideDown (keepAfter kept above) (e.moveDown n)
          (putNonempty ((next.moveDown n).shorten n) rest)
    else if next.action = e.action then slideDown above (e.extend next.size) rest
    else slideDown (next :: above) e rest
termination_by weight below
decreasing_by
  · simp only [weight]; omega
  · refine Nat.lt_of_le_of_lt (weight_putNonempty_le _ _) ?_
    simp only [weight, Edit.shorten, Edit.moveDown]
    omega
  · simp only [weight]; omega
  · simp only [weight]; omega

/-- Slides the edits with the action, one after the other. -/
def slideAll (action : Action) (above below : List Edit) : List Edit :=
  match below with
  | [] => above.reverse
  | e :: rest =>
    if e.action = action then
      let (above', e', below') := slideUp old new above e rest
      let (above'', e'', below'') := slideDown old new above' e' below'
      if weight below'' < weight (e :: rest) then
        slideAll action (e'' :: above'') below''
      else above''.reverse ++ e'' :: below''
    else slideAll action (e :: above) rest
termination_by weight below
decreasing_by
  · assumption
  · simp only [weight]; omega

/-- The edits with the changes joined. -/
def slide (edits : List Edit) : List Edit :=
  slideAll old new .add [] (slideAll old new .remove [] edits)

end Sliding

end SettingsLint.Diff
