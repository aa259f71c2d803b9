/-!
Positions in a list.  From zero on they count from the left; below zero they count backwards, minus
one being the last item.
-/

namespace Formula

variable {α : Type}

/-- The item at a position, if there is one. -/
def itemAt? (xs : List α) : Int → Option α
  | .ofNat n => xs[n]?
  | .negSucc n => xs.reverse[n]?

@[simp] theorem itemAt?_natCast (xs : List α) (n : Nat) : itemAt? xs n = xs[n]? := rfl

theorem itemAt?_neg_one (xs : List α) : itemAt? xs (-1) = xs.getLast? := by
  show xs.reverse[0]? = xs.getLast?
  rw [← List.head?_eq_getElem?, List.head?_reverse]

/-- The number of items before a position. -/
def countBefore (xs : List α) (position : Int) : Nat :=
  (if position < 0 then position + xs.length else position).toNat

theorem countBefore_natCast (xs : List α) (n : Nat) : countBefore xs n = n := by
  rw [countBefore, if_neg (by omega), Int.toNat_natCast]

/-- The items from one position up to another. -/
def between (xs : List α) (start stop : Int) : List α :=
  (xs.take (countBefore xs stop)).drop (countBefore xs start)

theorem between_natCast (xs : List α) (start stop : Nat) :
    between xs start stop = (xs.take stop).drop start := by
  rw [between, countBefore_natCast, countBefore_natCast]

/-- The items from a position on.  From a position below zero the last item is followed by the
first one and all others once more. -/
def itemsFrom (xs : List α) (start : Int) : List α :=
  if start < 0 then xs.drop (countBefore xs start) ++ xs else xs.drop start.toNat

theorem itemsFrom_natCast (xs : List α) (n : Nat) : itemsFrom xs n = xs.drop n := by
  simp only [itemsFrom, Int.toNat_natCast]
  rw [if_neg (by omega)]

end Formula
