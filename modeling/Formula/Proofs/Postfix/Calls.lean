import Formula.Postfix.Dialect
import Formula.Proofs.Token.Lexing
import Formula.Tree.Basic

/-!
Source text of nested calls.  A call is a word, or the name of a function with one or two arguments
in parentheses (`Call.text`).  Such a text can be read in one way only: reading takes the words and
the parentheses from the front and gives the call back, whatever ends it (`Call.read_text`,
`Call.ofString?_text`).
-/

namespace Formula

/-- Nested calls, of names and of words that are no names. -/
abbrev Call := Term String String String

namespace Call

open Term

/-! ### Texts -/

/-- The text of a call. -/
def text : Call → String
  | constant word => word
  | var name => name
  | binary function left right => Dialect.call function [text left, text right]
  | unary function arg => Dialect.call function [text arg]

/-- A word on its own, a name or not. -/
def ofWord (word : String) : Call := if isIdentifier word then var word else constant word

/-- The characters of names and of numerals. -/
def isWordChar (c : Char) : Bool := c.isAlphanum || c == '.' || c == '+' || c == '-'

/-- Whether all words are as texts of calls have them. -/
def isReadable : Call → Bool
  | constant word => !isIdentifier word && word.toList.all isWordChar
  | var name => isIdentifier name
  | binary function left right => isIdentifier function && isReadable left && isReadable right
  | unary function arg => isIdentifier function && isReadable arg

/-! ### Reading -/

/-- Reads a call of at most a given depth from the front of a text. -/
def read : Nat → List Char → Option (Call × List Char)
  | 0, _ => none
  | depth + 1, cs =>
    let scan := Scan.run isWordChar cs
    let word := String.ofList scan.text
    match scan.rest with
    | '(' :: cs => do
      let (first, cs) ← read depth cs
      match cs with
      | ')' :: cs => return (unary word first, cs)
      | ',' :: ' ' :: cs =>
        let (second, cs) ← read depth cs
        match cs with
        | ')' :: cs => return (binary word first second, cs)
        | _ => none
      | _ => none
    | cs => return (ofWord word, cs)

/-- The call that a text is, if it is one. -/
def ofString? (text : String) : Option Call :=
  match read (text.length + 1) text.toList with
  | some (call, []) => some call
  | _ => none

/-! ### The text of a call is read as the call -/

/-- Here a call can end: the text does, or its arguments do. -/
def Ends (rest : List Char) : Prop := ∀ c ∈ rest.head?, c = ')' ∨ c = ','

theorem Ends.stops {rest : List Char} (h : Ends rest) : Scan.Stops isWordChar rest := by
  cases rest with
  | nil => rfl
  | cons c rest =>
    rcases h c rfl with rfl | rfl
    · rfl
    · rfl

theorem isWordChar_of_isIdentifier {name : String} (h : isIdentifier name = true) :
    ∀ c ∈ name.toList, isWordChar c = true := by
  obtain ⟨c, cs, hname, -, hall⟩ := toList_identifier h
  intro d hd
  rw [hname] at hd
  simp [isWordChar, hall d hd]

/-- A word at the front is taken whole. -/
theorem run_word {word : String} {rest : List Char} (hword : ∀ c ∈ word.toList, isWordChar c = true)
    (hrest : Scan.Stops isWordChar rest) :
    Scan.run isWordChar (word.toList ++ rest) = ⟨word.toList, rest⟩ :=
  Scan.run_append hword hrest

/-- The name of a function ends at its parenthesis. -/
theorem run_function {function : String} (hfunction : isIdentifier function = true)
    (cs : List Char) :
    Scan.run isWordChar (function.toList ++ '(' :: cs) = ⟨function.toList, '(' :: cs⟩ :=
  run_word (isWordChar_of_isIdentifier hfunction) rfl

theorem read_word {word : String} (hword : ∀ c ∈ word.toList, isWordChar c = true) (depth : Nat)
    {rest : List Char} (hrest : Ends rest) :
    read (depth + 1) (word.toList ++ rest) = some (ofWord word, rest) := by
  rw [read, run_word hword hrest.stops]
  cases rest with
  | nil => simp
  | cons c rest =>
    rcases hrest c rfl with rfl | rfl
    · simp
    · simp

/-- A call with its arguments is read as such if the arguments are. -/
theorem read_unary {function : String} {arg : Call} (hfunction : isIdentifier function = true)
    {depth : Nat} {rest : List Char}
    (harg : ∀ {rest : List Char}, Ends rest →
      read depth ((text arg).toList ++ rest) = some (arg, rest)) :
    read (depth + 1) ((text (unary function arg)).toList ++ rest) =
      some (unary function arg, rest) := by
  have htext : (text (unary function arg)).toList ++ rest =
      function.toList ++ '(' :: ((text arg).toList ++ ')' :: rest) := by
    simp [text, Dialect.call]
  have hclose : Ends (')' :: rest) := by simp [Ends]
  rw [htext, read, run_function hfunction]
  simp only [String.ofList_toList, harg hclose, Option.bind_eq_bind, Option.bind_some,
    Option.pure_def]

theorem read_binary {function : String} {left right : Call}
    (hfunction : isIdentifier function = true) {depth : Nat} {rest : List Char}
    (hleft : ∀ {rest : List Char}, Ends rest →
      read depth ((text left).toList ++ rest) = some (left, rest))
    (hright : ∀ {rest : List Char}, Ends rest →
      read depth ((text right).toList ++ rest) = some (right, rest)) :
    read (depth + 1) ((text (binary function left right)).toList ++ rest) =
      some (binary function left right, rest) := by
  have htext : (text (binary function left right)).toList ++ rest =
      function.toList ++ '(' :: ((text left).toList ++
        ',' :: ' ' :: ((text right).toList ++ ')' :: rest)) := by
    simp [text, Dialect.call]
  have hcomma (cs : List Char) : Ends (',' :: cs) := by simp [Ends]
  have hclose : Ends (')' :: rest) := by simp [Ends]
  rw [htext, read, run_function hfunction]
  simp only [String.ofList_toList, hleft (hcomma _), hright hclose, Option.bind_eq_bind,
    Option.bind_some, Option.pure_def]

theorem depth_pos (call : Call) : 0 < call.depth := by
  cases call <;> simp only [Term.depth] <;> omega

/-- **The text of a call is read as the call**, before whatever can follow it. -/
theorem read_text {call : Call} (h : isReadable call = true) {n : Nat} (hn : call.depth ≤ n + 1)
    {rest : List Char} (hrest : Ends rest) :
    read (n + 1) ((text call).toList ++ rest) = some (call, rest) := by
  induction call generalizing n rest with
  | constant word =>
    obtain ⟨hname, hword⟩ := Bool.and_eq_true_iff.1 h
    have hconstant : ofWord word = constant word := if_neg (by simpa using hname)
    rw [text, read_word (List.all_eq_true.1 hword) n hrest, hconstant]
  | var name =>
    have hvar : ofWord name = var name := if_pos h
    rw [text, read_word (isWordChar_of_isIdentifier h) n hrest, hvar]
  | binary function left right ihl ihr =>
    simp only [isReadable, Bool.and_eq_true] at h
    obtain ⟨⟨hfunction, hl⟩, hr⟩ := h
    simp only [Term.depth] at hn
    obtain ⟨m, rfl⟩ : ∃ m, n = m + 1 := ⟨n - 1, by have := depth_pos left; omega⟩
    exact read_binary hfunction (ihl hl (by omega)) (ihr hr (by omega))
  | unary function arg ih =>
    obtain ⟨hfunction, harg⟩ := Bool.and_eq_true_iff.1 h
    simp only [Term.depth] at hn
    obtain ⟨m, rfl⟩ : ∃ m, n = m + 1 := ⟨n - 1, by have := depth_pos arg; omega⟩
    exact read_unary hfunction (ih harg (by omega))

/-- A text has more characters than there are levels of calls in it. -/
theorem depth_le_length (call : Call) : call.depth ≤ (text call).length + 1 := by
  induction call with
  | constant word => simp [Term.depth]
  | var name => simp [Term.depth]
  | binary function left right ihl ihr =>
    have hparentheses : "(".length = 1 ∧ ")".length = 1 := by decide
    simp only [Term.depth, text, Dialect.call, String.intercalate_cons_cons,
      String.intercalate_singleton, String.length_append]
    omega
  | unary function arg ih =>
    have hparentheses : "(".length = 1 ∧ ")".length = 1 := by decide
    simp only [Term.depth, text, Dialect.call, String.intercalate_singleton, String.length_append]
    omega

/-- **The text of a call is that of no other call.** -/
theorem ofString?_text {call : Call} (h : isReadable call = true) :
    ofString? (text call) = some call := by
  have hread : read ((text call).length + 1) ((text call).toList ++ []) = some (call, []) :=
    read_text h (depth_le_length call) (by simp [Ends])
  rw [List.append_nil] at hread
  rw [ofString?, hread]

end Call

end Formula
