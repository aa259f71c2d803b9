import Formula.Proofs.Number.Constants
import Formula.Proofs.Token.Lexing
import Formula.Tree.Infix

/-!
The text of a tree is a phrase of the grammar.  Parentheses are set exactly where the level of an
operand is too low for its place, and so the text of a tree lexes into the tokens of a phrase of
the level of its root (`renders_toInfix`).  What the phrase means is the tree again, with every
constant as a formula can say it (`Term.unsigned`).
-/

namespace Formula

open Double

namespace Term

/-! ### Names and constants -/

/-- Whether every variable has a name that is read as a variable. -/
def hasNames {ω φ κ : Type} : Term ω φ κ → Bool
  | constant _ => true
  | var x => isName x
  | binary _ left right => left.hasNames && right.hasNames
  | unary _ arg => arg.hasNames

/-- A constant as a formula can say it: one below zero is a difference from zero, the undefined
number is a quotient of zeros, and all others are literals. -/
def unsignedConstant (c : Float) : Tree Float :=
  if c.isNaN then binary .divide (constant 0.0) (constant 0.0)
  else if c < 0.0 then binary .minus (constant 0.0) (constant c.abs)
  else constant c

/-- The tree with its constants as a formula can say them. -/
def unsigned : Tree Float → Tree Float
  | constant c => unsignedConstant c
  | var x => var x
  | binary op left right => binary op left.unsigned right.unsigned
  | unary f arg => unary f arg.unsigned

/-- A tree with texts of numbers in the place of its constants. -/
inductive Spelled : Tree String → Tree Float → Prop
  | constant {t : NumberText} {c : Float} (h : Spells t c) :
    Spelled (.constant (String.ofList t.chars)) (.constant c)
  | var (x : String) : Spelled (.var x) (.var x)
  | binary {op : Operator} {left right : Tree String} {left' right' : Tree Float}
    (hleft : Spelled left left') (hright : Spelled right right') :
    Spelled (.binary op left right) (.binary op left' right')
  | unary {f : Func} {arg : Tree String} {arg' : Tree Float} (h : Spelled arg arg') :
    Spelled (.unary f arg) (.unary f arg')

end Term

open Term

/-! ### Texts of phrases -/

/-- The text is that of a phrase of a level, and the phrase means a tree. -/
def Renders (n : Nat) (text : String) (t : Tree Float) : Prop :=
  ∃ p : Phrase n, Lexes text.toList p.tokens ∧ Spelled (p.tree none) t

namespace Renders

variable {m n : Nat} {text text' : String} {t u : Tree Float}

theorem mono (hmn : m ≤ n) (h : Renders n text t) : Renders m text t := by
  induction n, hmn using Nat.le_induction with
  | base => exact h
  | succ n _ ih =>
    obtain ⟨p, hlex, hspelled⟩ := h
    exact ih ⟨.tighter p, hlex, hspelled⟩

theorem number {s : NumberText} {c : Float} (h : Spells s c) :
    Renders 4 (String.ofList s.chars) (.constant c) := by
  refine ⟨.number (String.ofList s.chars), ?_, .constant h⟩
  rw [String.toList_ofList]
  exact .number s

theorem var {x : String} (h : isName x) : Renders 4 x (.var x) := by
  obtain ⟨hx, hfree⟩ := Bool.and_eq_true_iff.1 h
  have hvar : isFunctionName x = false := by simpa using hfree
  exact ⟨.var x hvar, .var hx, .var x⟩

theorem join (op : Operator) (h : Renders op.rank text t) (h' : Renders (op.rank + 1) text' u) :
    Renders op.rank (text ++ op.symbol ++ text') (.binary op t u) := by
  obtain ⟨p, hlex, hspelled⟩ := h
  obtain ⟨p', hlex', hspelled'⟩ := h'
  have htext : (text ++ op.symbol ++ text').toList = text.toList ++ op.char :: text'.toList := by
    rw [String.toList_append, String.toList_append, toList_symbol, List.append_assoc]
    rfl
  refine ⟨.join p ⟨op, rfl⟩ p', ?_, .binary hspelled hspelled'⟩
  rw [htext]
  exact hlex.join op hlex'

theorem group (h : Renders 0 text t) : Renders 4 ("(" ++ text ++ ")") t := by
  obtain ⟨p, hlex, hspelled⟩ := h
  refine ⟨.group none p, ?_, hspelled⟩
  have htext : ("(" ++ text ++ ")").toList = '(' :: text.toList ++ [')'] := by
    simp
  rw [htext]
  exact hlex.group

/-- A sign before a text in parentheses makes it a difference from zero. -/
theorem negative {s : NumberText} {c : Float} (h : Spells s c) :
    Renders 4 ("(-" ++ String.ofList s.chars ++ ")")
      (.binary .minus (.constant 0.0) (.constant c)) := by
  let p : Phrase 0 := .tighter (.tighter (.tighter (.tighter (.number (String.ofList s.chars)))))
  refine ⟨.group (some ⟨.minus, rfl⟩) p, ?_, .binary (.constant spells_zero) (.constant h)⟩
  have htext : ("(-" ++ String.ofList s.chars ++ ")").toList = '(' :: '-' :: s.chars ++ [')'] := by
    simp
  rw [htext]
  exact ((Lexes.number s).sign .minus).group

theorem call (f : Func) (h : Renders 0 text t) :
    Renders 3 (f.symbol ++ "(" ++ text ++ ")") (.unary f t) := by
  obtain ⟨p, hlex, hspelled⟩ := h
  refine ⟨.apply f (.group none p), ?_, .unary hspelled⟩
  have htext : (f.symbol ++ "(" ++ text ++ ")").toList =
      f.symbol.toList ++ '(' :: (text.toList ++ [')']) := by
    simp
  rw [htext]
  exact .call f hlex.group

end Renders

/-! ### Constants -/

theorem renders_zero : Renders 4 "0" (.constant 0.0) :=
  .number spells_zero

theorem renders_constant (c : Float) :
    Renders 4 (toNumeral c).constantText (unsignedConstant c) := by
  rw [unsignedConstant]
  split
  · rename_i hnan
    rw [constantText_of_isNaN hnan]
    exact ((renders_zero.mono (by decide)).join .divide (renders_zero.mono (by decide))).mono
      (Nat.zero_le 1) |>.group
  · rename_i hnan
    split
    · rename_i hneg
      obtain ⟨s, hs, htext | htext⟩ := exists_negative_text (lt_zero_iff.1 hneg)
      · rw [htext]
        exact .negative hs
      · have hparts : "(0-" ++ String.ofList s.chars ++ ")" =
            "(" ++ ("0" ++ "-" ++ String.ofList s.chars) ++ ")" := by
          rw [← String.toList_inj]
          simp
        have hnumber := Renders.number hs
        rw [htext, hparts]
        exact ((renders_zero.mono (by decide)).join .minus (hnumber.mono (by decide))).group
    · rename_i hneg
      obtain ⟨s, hs, htext⟩ := exists_text hnan fun h => hneg (lt_zero_iff.2 h)
      rw [htext]
      exact .number hs

/-! ### Trees -/

/-- The level of the text of a tree. -/
def Term.level : Tree Float → Nat
  | binary op _ _ => op.rank
  | unary _ _ => 3
  | constant _ | var _ => 4

/-- An operand without parentheses is of a level that fits its place. -/
theorem Term.le_level {t : Tree Float} {n : Nat} (hn : n ≤ 3)
    (h : t.rank?.any (· < n) = false) : n ≤ t.level := by
  cases t with
  | binary op _ _ => simpa [rank?, level] using h
  | _ => simp only [level]; omega

theorem Renders.parenthesize {t u : Tree Float} {text : String} {n : Nat} (hn : n ≤ 3)
    (h : Renders t.level text u) :
    Renders n (parenthesize (t.rank?.any (· < n)) text) u := by
  cases hwanted : t.rank?.any (· < n) with
  | true =>
    have hgroup := (h.mono (Nat.zero_le _)).group
    exact hgroup.mono (by omega)
  | false => exact h.mono (le_level hn hwanted)

/-- **The text of a tree is a phrase of the level of its root.** -/
theorem renders_toInfix (t : Tree Float) (h : t.hasNames) :
    Renders t.level t.toInfix t.unsigned := by
  induction t with
  | constant c => exact renders_constant c
  | var x => exact .var h
  | binary op left right ihl ihr =>
    obtain ⟨hl, hr⟩ := Bool.and_eq_true_iff.1 h
    have hrank : op.rank + 1 ≤ 3 := by cases op <;> decide
    have hleft := (ihl hl).parenthesize (n := op.rank) (by omega)
    -- on the right an equal rank needs parentheses too, so that place asks for the next level
    have hright := (ihr hr).parenthesize hrank
    simp only [Nat.lt_succ_iff] at hright
    exact hleft.join op hright
  | unary f arg ih => exact .call f ((ih h).mono (Nat.zero_le _))

end Formula
