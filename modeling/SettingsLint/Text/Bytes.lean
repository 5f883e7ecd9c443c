/-! # Byte offsets

Places in a text are counted in bytes of its UTF-8 form, while the text itself is
handled as a list of characters. This module joins the two:

- `byteSize` is the length of a text in bytes;
- `dropBytes?` and `takeBytes?` cut a text at a byte offset, and fail when the
  offset is past the end or inside a character;
- `slice?` is the part of a text between two offsets.
-/

namespace SettingsLint.Text

/-- The number of bytes of the UTF-8 form of a text. -/
def byteSize : List Char → Nat
  | [] => 0
  | c :: cs => c.utf8Size + byteSize cs

@[simp] theorem byteSize_nil : byteSize [] = 0 := rfl

@[simp] theorem byteSize_cons (c : Char) (cs : List Char) :
    byteSize (c :: cs) = c.utf8Size + byteSize cs := rfl

@[simp] theorem byteSize_append (cs ds : List Char) :
    byteSize (cs ++ ds) = byteSize cs + byteSize ds := by
  induction cs with
  | nil => simp
  | cons c cs ih => simp [ih, Nat.add_assoc]

/-- The text from byte `n` on, if a character starts or the text ends there. -/
def dropBytes? (n : Nat) : List Char → Option (List Char)
  | [] => if n = 0 then some [] else none
  | c :: cs =>
    if n = 0 then some (c :: cs)
    else if c.utf8Size ≤ n then dropBytes? (n - c.utf8Size) cs
    else none

/-- The first `n` bytes of the text, if a character or the text ends there. -/
def takeBytes? (n : Nat) : List Char → Option (List Char)
  | [] => if n = 0 then some [] else none
  | c :: cs =>
    if n = 0 then some []
    else if c.utf8Size ≤ n then (takeBytes? (n - c.utf8Size) cs).map (c :: ·)
    else none

/-- The text between the byte offsets `first` and `last`, if both are boundaries
of characters and in order. -/
def slice? (first last : Nat) (cs : List Char) : Option (List Char) :=
  if first ≤ last then (dropBytes? first cs).bind (takeBytes? (last - first)) else none

/-- Cutting off a leading part at its own size leaves the rest. -/
@[simp] theorem dropBytes?_append (cs ds : List Char) :
    dropBytes? (byteSize cs) (cs ++ ds) = some ds := by
  induction cs with
  | nil => cases ds <;> simp [dropBytes?]
  | cons c cs ih =>
    have := c.utf8Size_pos
    simp only [List.cons_append, byteSize_cons, dropBytes?]
    rw [if_neg (by omega), if_pos (by omega), Nat.add_sub_cancel_left, ih]

/-- Taking a leading part by its own size gives it back. -/
@[simp] theorem takeBytes?_append (cs ds : List Char) :
    takeBytes? (byteSize cs) (cs ++ ds) = some cs := by
  induction cs with
  | nil => cases ds <;> simp [takeBytes?]
  | cons c cs ih =>
    have := c.utf8Size_pos
    simp only [List.cons_append, byteSize_cons, takeBytes?]
    rw [if_neg (by omega), if_pos (by omega), Nat.add_sub_cancel_left, ih]
    rfl

/-- A part of a text is found again between its two ends. -/
theorem slice?_append (before part after : List Char) :
    slice? (byteSize before) (byteSize before + byteSize part) (before ++ (part ++ after))
      = some part := by
  simp [slice?]

end SettingsLint.Text
