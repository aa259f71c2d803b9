import Formula.Tree.Basic

/-!
The nodes of a tree in order: level by level from the root, or every node before what is below it.
-/

namespace Formula.Term

variable {ω φ κ : Type}

/-- A queue whose first tree gives way to that tree's children has one node less. -/
theorem totalSize_children_lt (t : Term ω φ κ) (queue : List (Term ω φ κ)) :
    totalSize (queue ++ t.children) < totalSize (t :: queue) := by
  have := size_eq_totalSize_children t
  simp only [totalSize_append, totalSize]
  omega

/-- The nodes of the trees in a queue: the first tree's root, then all others with its children
put at the end. -/
def drain : List (Term ω φ κ) → List (Term ω φ κ)
  | [] => []
  | t :: queue => t :: drain (queue ++ t.children)
termination_by queue => totalSize queue
decreasing_by exact totalSize_children_lt t queue

/-- The nodes level by level, each level from the left. -/
def breadthFirst (t : Term ω φ κ) : List (Term ω φ κ) := drain [t]

/-- The nodes with each before its children, which follow from the left. -/
def depthFirst : Term ω φ κ → List (Term ω φ κ)
  | constant c => [constant c]
  | var x => [var x]
  | binary op left right => binary op left right :: (left.depthFirst ++ right.depthFirst)
  | unary f arg => unary f arg :: arg.depthFirst

/-- The name of a variable. -/
def name? : Term ω φ κ → Option String
  | var x => some x
  | _ => none

/-- The variables of a tree, in the order of their first occurrences level by level. -/
def variableNames (t : Term ω φ κ) : List String := (t.breadthFirst.filterMap name?).eraseDups

end Formula.Term
