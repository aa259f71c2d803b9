/-!
Fields that texts are set into.  A field cuts a text to a limit and fills it up to a width; its
alignment says on which side of the text the filling goes.  `length_set` gives the length of what
is set.
-/

namespace Formula.Template

/-- Where a text stands in its field. -/
inductive Alignment
  | left | right | center
  deriving DecidableEq, Repr

/-- How a text is set. -/
structure Field where
  /-- The character that takes up the room left over. -/
  fill : Char
  alignment : Alignment
  /-- The least number of characters. -/
  width : Nat
  /-- The greatest number of characters of the text itself. -/
  limit : Option Nat
  deriving DecidableEq, Repr

namespace Field

/-- How much of the room goes before the text; of an odd room in the middle, the smaller part. -/
def roomBefore (field : Field) (room : Nat) : Nat :=
  match field.alignment with
  | .left => 0
  | .right => room
  | .center => room / 2

/-- The text up to the limit. -/
def cut (field : Field) (cs : List Char) : List Char :=
  match field.limit with
  | some limit => cs.take limit
  | none => cs

/-- A text in its field. -/
def set (field : Field) (cs : List Char) : List Char :=
  let cs := field.cut cs
  let room := field.width - cs.length
  let before := field.roomBefore room
  List.replicate before field.fill ++ cs ++ List.replicate (room - before) field.fill

theorem roomBefore_le (field : Field) (room : Nat) : field.roomBefore room ≤ room := by
  unfold roomBefore
  split <;> omega

theorem length_set (field : Field) (cs : List Char) :
    (field.set cs).length = max field.width (field.cut cs).length := by
  have := field.roomBefore_le (field.width - (field.cut cs).length)
  simp only [set, List.length_append, List.length_replicate]
  omega

end Field

end Formula.Template
