import Formula.Fault
import Formula.Template.Basic
import Formula.Template.Spec

/-!
Filling the slots of a template with its argument, a text.  The slots are filled from the left, and
the first one that cannot be filled gives the fault.
-/

namespace Formula.Template

/-! ### Paths -/

/-- How the slots before refer to the argument: not yet, by their own order, or by index. -/
inductive Numbering
  | unset | automatic (next : Nat) | manual
  deriving DecidableEq, Repr

/-- Whether a character begins a step of a path. -/
def beginsStep (c : Char) : Bool := c == '.' || c == '['

/-- The index that a text is, if it is a number as a whole; one that begins with too large a number
is refused, whatever comes after it. -/
def index? (text : List Char) : Except Fault (Option Nat) :=
  match splitNumber text with
  | .error flaw => .error (.badTemplate flaw)
  | .ok (index, []) => .ok index
  | .ok (_, _ :: _) => .ok none

/-- The index of the argument that a name asks for, and how slots refer to it from then on. -/
def resolve (numbering : Numbering) (name : List Char) : Except Fault (Nat × Numbering) := do
  match ← index? name with
  | some index =>
    match numbering with
    | .automatic _ => .error (.badTemplate .indexAdded)
    | _ => return (index, .manual)
  | none =>
    if name.isEmpty then
      match numbering with
      | .unset => return (0, .automatic 1)
      | .automatic next => return (next, .automatic (next + 1))
      | .manual => .error (.badTemplate .indexDropped)
    else .error (.unknownSymbol (String.ofList name))

theorem length_lt_of_dropWhile {test : Char → Bool} {c : Char} {cs rest : List Char}
    (h : cs.dropWhile test = c :: rest) : rest.length < cs.length := by
  have hle : (cs.dropWhile test).length ≤ cs.length := (List.dropWhile_sublist _).length_le
  rw [h, List.length_cons] at hle
  omega

/-- Follows the steps of a path from a text on: an index leads to a character, and a text has no
named parts. -/
def follow (value : List Char) : List Char → Except Fault (List Char)
  | [] => .ok value
  | '.' :: cs =>
    let name := cs.takeWhile (!beginsStep ·)
    if name.isEmpty then .error (.badTemplate .emptyStep)
    else .error (.noPart "str" (String.ofList name))
  | '[' :: cs =>
    let key := cs.takeWhile (· ≠ ']')
    match h : cs.dropWhile (· ≠ ']') with
    | [] => .error (.badTemplate .openIndex)
    | _ :: rest =>
      have := length_lt_of_dropWhile h
      match index? key with
      | .error f => .error f
      | .ok (some index) =>
        match value[index]? with
        | some c => follow [c] rest
        | none => .error .pastEnd
      | .ok none =>
        if key.isEmpty then .error (.badTemplate .emptyStep) else .error .namedIndex
  | _ :: _ => .error (.badTemplate .strayAfterIndex)
termination_by cs => cs.length
decreasing_by
  rw [List.length_cons]
  omega

/-- The text that a path leads to; it begins with the argument's name. -/
def look (argument : List Char) (numbering : Numbering) (path : List Char) :
    Except Fault (List Char × Numbering) := do
  let (index, numbering) ← resolve numbering (path.takeWhile (!beginsStep ·))
  if index = 0 then
    let value ← follow argument (path.dropWhile (!beginsStep ·))
    return (value, numbering)
  else .error (.noSuchArgument index)

/-! ### Conversions and fields -/

/-- Converts a text: into itself, between quotes, or between quotes and in ASCII. -/
def convert (value : List Char) : Option Char → Except Fault (List Char)
  | none | some 's' | some '\x00' => .ok value
  | some 'r' => .ok (Text.quotedChars value)
  | some 'a' => .ok (Text.asciiQuotedChars value)
  | some c => .error (.badTemplate (.unknownConversion c))

/-- The largest width that there is room for. -/
def largestWidth : Nat := twoPow 32

/-- A text in the field of a description; an empty description leaves the text as it is. -/
def present (spec value : List Char) : Except Fault (List Char) :=
  if spec.isEmpty then .ok value
  else match Spec.ofChars spec >>= Spec.toField with
    | .error flaw => .error (.badTemplate flaw)
    | .ok field => if largestWidth < field.width then .error .noRoom else .ok (field.set value)

/-! ### Filling -/

/-- Fills slots from the left, given how the slots in a description are filled. -/
def fillFrom (argument : List Char)
    (expand : Numbering → List Char → Except Fault (List Char × Numbering)) :
    Numbering → Template → Except Fault (List Char × Numbering)
  | numbering, [] => .ok ([], numbering)
  | numbering, .text c :: pieces => do
    let (rest, numbering) ← fillFrom argument expand numbering pieces
    return (c :: rest, numbering)
  | _, .broken flaw :: _ => .error (.badTemplate flaw)
  | numbering, .slot s :: pieces => do
    let (value, numbering) ← look argument numbering s.path
    let value ← convert value s.conversion
    let (spec, numbering) ←
      if s.spec.contains '\x7b' then expand numbering s.spec else .ok (s.spec, numbering)
    let shown ← present spec value
    let (rest, numbering) ← fillFrom argument expand numbering pieces
    return (shown ++ rest, numbering)

/-- Fills the slots of a text that may hold slots in slots to a depth. -/
def fillNested (argument : List Char) :
    Nat → Numbering → List Char → Except Fault (List Char × Numbering)
  | 0, _, _ => .error (.badTemplate .tooDeep)
  | depth + 1, numbering, text =>
    fillFrom argument (fillNested argument depth) numbering (piecesFrom .outside text)

/-- The text of a template with its argument in the slots; descriptions of fields may hold slots,
but those may not hold any in turn. -/
def fill (template : Template) (argument : String) : Except Fault String := do
  let argument := argument.toList
  let (text, _) ← fillFrom argument (fillNested argument 1) .unset template
  return String.ofList text

end Formula.Template
