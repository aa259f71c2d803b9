import Formula.Proofs.Tree.Variables
import Mathlib.Data.List.Perm.Basic

/-!
The two orders of the nodes of a tree.  Draining a queue visits the nodes of its trees, each as
often as it stands in them (`drain_perm`), so that both orders have the same nodes and the variables
of a tree are those that occur in it (`mem_variableNames`).
-/

namespace Formula.Term

variable {ω φ κ : Type}

/-- The nodes of a tree are its root and the nodes of its operands. -/
theorem depthFirst_eq_cons (t : Term ω φ κ) :
    t.depthFirst = t :: t.children.flatMap depthFirst := by
  cases t <;> simp [depthFirst, children]

/-- Draining a queue visits the nodes of all its trees. -/
theorem drain_perm (queue : List (Term ω φ κ)) :
    (drain queue).Perm (queue.flatMap depthFirst) := by
  induction queue using drain.induct with
  | case1 =>
    rw [drain]
    exact .refl []
  | case2 t queue ih =>
    rw [drain, List.flatMap_cons, depthFirst_eq_cons, List.cons_append]
    refine .cons t (ih.trans ?_)
    rw [List.flatMap_append]
    exact List.perm_append_comm

/-- **Both orders visit the same nodes.** -/
theorem breadthFirst_perm_depthFirst (t : Term ω φ κ) : t.breadthFirst.Perm t.depthFirst := by
  simpa [breadthFirst] using drain_perm [t]

/-- The variables of a tree are those that occur in it. -/
theorem mem_variableNames {x : String} {t : Term ω φ κ} :
    x ∈ t.variableNames ↔ Occurs x t := by
  rw [variableNames, List.mem_eraseDups, List.mem_filterMap, Occurs]
  constructor
  · rintro ⟨s, hs, hx⟩
    cases s with
    | var y =>
      cases hx
      exact (breadthFirst_perm_depthFirst t).mem_iff.1 hs
    | _ => cases hx
  · exact fun h => ⟨var x, (breadthFirst_perm_depthFirst t).mem_iff.2 h, rfl⟩

end Formula.Term
