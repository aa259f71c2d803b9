import Formula.Tree.Basic
import Formula.Tree.Constant

/-!
Simplification.  One pass works from the leaves up: it folds operations on constants and drops
neutral operands; passes are repeated until nothing changes or a bound is reached.  What a pass
keeps, simplification keeps (`simplify_induction`); no pass makes a tree larger, which is
`size_simplify_le`.
-/

namespace Formula.Term

variable {κ : Type} [Constant κ]

instance : BEq (Tree κ) := ⟨equal Constant.same⟩

/-- An integer as a tree. -/
def number (n : Int) : Tree κ := constant (Constant.ofInt n)

/-- Whether a tree is a constant equal to an integer. -/
def isNumber (n : Int) : Tree κ → Bool
  | constant c => Constant.eq c (Constant.ofInt n)
  | _ => false

/-! ### One pass -/

/-- The constant that an operator makes of two constant trees. -/
def foldOperator? (op : Operator) : Tree κ → Tree κ → Option κ
  | constant c, constant d => Constant.foldOperator op c d
  | _, _ => none

/-- The constant that a function makes of a constant tree. -/
def foldFunc? (f : Func) : Tree κ → Option κ
  | constant c => Constant.foldFunc f c
  | _ => none

/-- Drops neutral operands and operands that a zero absorbs. -/
def dropNeutral (op : Operator) (left right : Tree κ) : Tree κ :=
  match op with
  | .plus =>
    if left.isNumber 0 && right.isNumber 0 then number 0
    else if left.isNumber 0 then right
    else if right.isNumber 0 then left
    else binary .plus left right
  | .minus =>
    if left.isNumber 0 && right.isNumber 0 then number 0
    else if left.isNumber 0 then binary .times (number (-1)) right
    else if right.isNumber 0 then left
    else binary .minus left right
  | .times =>
    if left.isNumber 0 || right.isNumber 0 then number 0
    else if right.isNumber 1 then left
    else if left.isNumber 1 then right
    else binary .times left right
  | .power =>
    if right.isNumber 1 then left
    else if right.isNumber 0 then number 1
    else binary .power left right
  | .divide => if left.isNumber 0 then number 0 else binary .divide left right

/-- An operation on simplified operands, simplified. -/
def reduceBinary (op : Operator) (left right : Tree κ) : Tree κ :=
  match foldOperator? op left right with
  | some c => constant c
  | none => dropNeutral op left right

/-- A function of a simplified argument, simplified. -/
def reduceUnary (f : Func) (arg : Tree κ) : Tree κ :=
  match foldFunc? f arg with
  | some c => constant c
  | none => unary f arg

/-- One pass from the leaves up. -/
def reduce : Tree κ → Tree κ
  | constant c => constant c
  | var x => var x
  | binary op left right => reduceBinary op left.reduce right.reduce
  | unary f arg => reduceUnary f arg.reduce

/-! ### Repeated passes -/

/-- Repeats passes until one changes nothing, at most a given number of times. -/
def settle : Nat → Tree κ → Tree κ
  | 0, t => t
  | n + 1, t =>
    let reduced := t.reduce
    if reduced == t then reduced else settle n reduced

/-- The number of passes that are enough for all purposes. -/
def defaultPasses : Int := 32

/-- Simplifies a tree in at most a given number of passes, but always in one. -/
def simplify (passes : Int) (t : Tree κ) : Tree κ := settle (max 1 passes).toNat t

/-- What a pass keeps, any number of passes keeps. -/
theorem settle_induction {P : Tree κ → Prop} (hreduce : ∀ u : Tree κ, P u → P u.reduce) (n : Nat)
    {t : Tree κ} (h : P t) : P (settle n t) := by
  induction n generalizing t with
  | zero => exact h
  | succ n ih =>
    simp only [settle]
    split
    · exact hreduce t h
    · exact ih (hreduce t h)

/-- What a pass keeps, simplification keeps. -/
theorem simplify_induction {P : Tree κ → Prop} (hreduce : ∀ u : Tree κ, P u → P u.reduce)
    (passes : Int) {t : Tree κ} (h : P t) : P (t.simplify passes) :=
  settle_induction hreduce _ h

/-! ### Simplifying makes no tree larger -/

@[simp] theorem size_number (n : Int) : (number n : Tree κ).size = 1 := rfl

theorem size_dropNeutral_le (op : Operator) (left right : Tree κ) :
    (dropNeutral op left right).size ≤ 1 + (left.size + right.size) := by
  have hl := size_pos left
  have hr := size_pos right
  cases op <;> grind [dropNeutral, size, size_number]

theorem size_reduceBinary_le (op : Operator) (left right : Tree κ) :
    (reduceBinary op left right).size ≤ 1 + (left.size + right.size) := by
  unfold reduceBinary
  split
  · simp only [size]
    omega
  · exact size_dropNeutral_le op left right

theorem size_reduceUnary_le (f : Func) (arg : Tree κ) :
    (reduceUnary f arg).size ≤ 1 + arg.size := by
  unfold reduceUnary
  split <;> simp only [size] <;> omega

theorem size_reduce_le (t : Tree κ) : t.reduce.size ≤ t.size := by
  induction t with
  | constant c => exact Nat.le_refl _
  | var x => exact Nat.le_refl _
  | binary op left right ihl ihr =>
    have := size_reduceBinary_le op left.reduce right.reduce
    simp only [reduce, size]
    omega
  | unary f arg ih =>
    have := size_reduceUnary_le f arg.reduce
    simp only [reduce, size]
    omega

theorem size_simplify_le (passes : Int) (t : Tree κ) : (t.simplify passes).size ≤ t.size :=
  simplify_induction (P := fun u => u.size ≤ t.size)
    (fun u hu => Nat.le_trans (size_reduce_le u) hu) passes (Nat.le_refl _)

end Formula.Term
