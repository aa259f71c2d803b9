import Formula.Proofs.Tree.Traversal
import Mathlib.Tactic.Common

/-!
The order of the nodes of a tree.  A node has an address: the children taken on the way to it from
the root.  Addresses are ordered like words, so that the address of a node comes before those of the
nodes below it, and these follow child by child.  The queue always holds the rest of one level and
then those nodes of the next whose parents have left it (`drain_append`).

Main statement: one order lists the nodes level by level and each level by its addresses, the other
lists all nodes by their addresses (`nodes_in_order`).
-/

namespace Formula.Term

variable {ω φ κ : Type}

/-! ### Addresses and levels -/

/-- The subtree at an address. -/
def subtree? : Term ω φ κ → List Nat → Option (Term ω φ κ)
  | t, [] => some t
  | t, i :: address => t.children[i]?.bind (subtree? · address)

/-- The nodes at the addresses of some kind, each once, in the order of the addresses. -/
def Lists (t : Term ω φ κ) (kind : List Nat → Prop) (nodes : List (Term ω φ κ)) : Prop :=
  ∃ addresses : List (List Nat), addresses.Pairwise (· < ·) ∧
    (∀ a, a ∈ addresses ↔ kind a ∧ (t.subtree? a).isSome = true) ∧
    addresses.map t.subtree? = nodes.map some

/-- The nodes so many steps below the root, those below the first child first. -/
def row : Term ω φ κ → Nat → List (Term ω φ κ)
  | t, 0 => [t]
  | t, n + 1 => t.children.flatMap (row · n)

/-- All addresses of a tree, each before the addresses below it. -/
def addresses : Term ω φ κ → List (List Nat)
  | constant _ => [[]]
  | var _ => [[]]
  | binary _ left right => [] :: (left.addresses.map (0 :: ·) ++ right.addresses.map (1 :: ·))
  | unary _ arg => [] :: arg.addresses.map (0 :: ·)

theorem pairwise_addresses (t : Term ω φ κ) : t.addresses.Pairwise (· < ·) := by
  induction t with
  | constant c => exact List.pairwise_singleton _ _
  | var x => exact List.pairwise_singleton _ _
  | binary op left right ihl ihr =>
    simp only [addresses, List.pairwise_cons, List.pairwise_append, List.pairwise_map]
    refine ⟨?_, ?_, ?_, ?_⟩
    · simp [or_imp, forall_and]
    · simpa [List.cons_lt_cons_iff] using ihl
    · simpa [List.cons_lt_cons_iff] using ihr
    · simp [List.cons_lt_cons_iff]
  | unary f arg ih =>
    simp only [addresses, List.pairwise_cons, List.pairwise_map]
    refine ⟨?_, ?_⟩
    · simp
    · simpa [List.cons_lt_cons_iff] using ih

theorem mem_addresses {t : Term ω φ κ} {a : List Nat} :
    a ∈ t.addresses ↔ (t.subtree? a).isSome = true := by
  induction t generalizing a with
  | constant c => cases a <;> simp [addresses, subtree?, children]
  | var x => cases a <;> simp [addresses, subtree?, children]
  | binary op left right ihl ihr =>
    rcases a with _ | ⟨_ | _ | i, a⟩
    · simp [addresses, subtree?]
    · simp [addresses, subtree?, children, ihl]
    · simp [addresses, subtree?, children, ihr]
    · simp [addresses, subtree?, children]
  | unary f arg ih =>
    rcases a with _ | ⟨_ | i, a⟩
    · simp [addresses, subtree?]
    · simp [addresses, subtree?, children, ih]
    · simp [addresses, subtree?, children]

/-- The addresses in their order have the nodes with each before its children. -/
theorem map_subtree?_addresses (t : Term ω φ κ) :
    t.addresses.map t.subtree? = t.depthFirst.map some := by
  induction t with
  | constant c => rfl
  | var x => rfl
  | binary op left right ihl ihr =>
    simp only [addresses, depthFirst, List.map_cons, List.map_append, ← ihl, ← ihr, List.map_map]
    rfl
  | unary f arg ih =>
    simp only [addresses, depthFirst, List.map_cons, ← ih, List.map_map]
    rfl

/-- The addresses of one length in their order have the nodes of one level. -/
theorem map_subtree?_filter (n : Nat) (t : Term ω φ κ) :
    (t.addresses.filter (·.length = n)).map t.subtree? = (t.row n).map some := by
  induction n generalizing t with
  | zero => cases t <;> simp [addresses, row, subtree?]
  | succ n ih =>
    cases t with
    | constant c => rfl
    | var x => rfl
    | binary op left right =>
      have hl := ih left
      have hr := ih right
      simp only [addresses, row, children]
      simp [List.filter_map, Function.comp_def, subtree?, children, hl, hr]
    | unary f arg =>
      have h := ih arg
      simp only [addresses, row, children]
      simp [List.filter_map, Function.comp_def, subtree?, children, h]

theorem lists_depthFirst (t : Term ω φ κ) : t.Lists (fun _ => True) t.depthFirst :=
  ⟨t.addresses, pairwise_addresses t, fun a => by rw [mem_addresses, true_and],
    map_subtree?_addresses t⟩

theorem lists_row (t : Term ω φ κ) (n : Nat) : t.Lists (·.length = n) (t.row n) := by
  refine ⟨t.addresses.filter (·.length = n), (pairwise_addresses t).filter _, fun a => ?_,
    map_subtree?_filter n t⟩
  rw [List.mem_filter, mem_addresses, decide_eq_true_iff, and_comm]

/-- There are as many levels as the depth says. -/
theorem row_ne_nil_iff {n : Nat} {t : Term ω φ κ} : t.row n ≠ [] ↔ n < t.depth := by
  induction n generalizing t with
  | zero => simp [row, depth_pos]
  | succ n ih =>
    cases t with
    | constant c => simp [row, children, depth]
    | var x => simp [row, children, depth]
    | binary op left right =>
      simp only [row, children, depth, List.flatMap_cons, List.flatMap_nil, List.append_nil, ne_eq,
        List.append_eq_nil_iff, not_and_or]
      rw [← ne_eq, ← ne_eq, ih, ih]
      omega
    | unary f arg =>
      simp only [row, children, depth, List.flatMap_cons, List.flatMap_nil, List.append_nil]
      rw [ih]
      omega

/-! ### The queue -/

/-- A queue gives way to the children of its trees. -/
theorem drain_append (queue next : List (Term ω φ κ)) :
    drain (queue ++ next) = queue ++ drain (next ++ queue.flatMap children) := by
  induction queue generalizing next with
  | nil => simp
  | cons t queue ih =>
    rw [List.cons_append, drain, List.append_assoc, ih, List.append_assoc]
    rfl

/-- Draining a queue visits its trees level by level. -/
theorem drain_eq {n : Nat} {queue : List (Term ω φ κ)} (h : ∀ t ∈ queue, t.depth ≤ n) :
    drain queue = (List.range n).flatMap fun k => queue.flatMap (row · k) := by
  induction n generalizing queue with
  | zero =>
    cases queue with
    | nil =>
      rw [drain]
      rfl
    | cons t queue =>
      have := h t List.mem_cons_self
      have := depth_pos t
      omega
  | succ n ih =>
    have hchildren : ∀ u ∈ queue.flatMap children, u.depth ≤ n := by
      intro u hu
      obtain ⟨t, ht, hu⟩ := List.mem_flatMap.1 hu
      have := h t ht
      have := depth_lt_of_mem_children hu
      omega
    calc drain queue = queue ++ drain (queue.flatMap children) := by
          simpa using drain_append queue []
      _ = queue ++ (List.range n).flatMap fun k => (queue.flatMap children).flatMap (row · k) := by
          rw [ih hchildren]
      _ = (List.range (n + 1)).flatMap fun k => queue.flatMap (row · k) := by
          rw [List.range_succ_eq_map, List.flatMap_cons, List.flatMap_map]
          simp [row, List.flatMap_assoc]

theorem length_depthFirst (t : Term ω φ κ) : t.depthFirst.length = t.size := by
  induction t with
  | constant c => rfl
  | var x => rfl
  | binary op left right ihl ihr =>
    rw [depthFirst, List.length_cons, List.length_append, ihl, ihr, size, Nat.add_comm]
  | unary f arg ih => rw [depthFirst, List.length_cons, ih, size, Nat.add_comm]

/-- **Both orders list the same nodes, each in its own order**: level by level and from the left on
each of the levels, which are as many as the depth says, or every node before those below it, and
these from the left. -/
theorem nodes_in_order (t : Term ω φ κ) :
    t.breadthFirst = (List.range t.depth).flatMap t.row ∧
    (∀ n, t.row n ≠ [] ↔ n < t.depth) ∧ (∀ n, t.Lists (·.length = n) (t.row n)) ∧
    t.Lists (fun _ => True) t.depthFirst ∧ t.breadthFirst.Perm t.depthFirst ∧
    t.breadthFirst.length = t.size ∧ t.depthFirst.length = t.size := by
  have hperm := breadthFirst_perm_depthFirst t
  refine ⟨?_, fun n => row_ne_nil_iff, lists_row t, lists_depthFirst t, hperm, ?_,
    length_depthFirst t⟩
  · rw [breadthFirst, drain_eq (n := t.depth) (by simp)]
    simp
  · rw [hperm.length_eq, length_depthFirst]

end Formula.Term
