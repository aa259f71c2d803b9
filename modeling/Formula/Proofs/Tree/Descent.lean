import Formula.Proofs.Tree.Gaps
import Formula.Proofs.Tree.Traversal

/-!
How often differentiation calls itself.  Its operands come from the simplified tree, so that it does
not recurse on parts of its argument; but simplifying makes no tree larger or deeper, and what it
leaves is simple already.  So the calls go down the simplified tree.  The body of differentiation is
stated once for all monads (`differentiateBy`), as what it does with trees once it has something to
call: with differentiation itself to call, it is differentiation (`differentiate_eq`), and unrolled
so many times, in a monad that counts and may give up, it is a run with a limit
(`differentiateWithin`).

Main statement: simplification makes no tree larger or deeper and brings in no variables, and a run
of differentiation whose limit is the depth of the simplified tree ends with the derivative, after
no more calls than that tree has nodes (`differentiate_ends`).
-/

namespace Formula.Term

/-! ### Simplifying makes no tree deeper -/

section Depth

variable {κ : Type} [Constant κ]

@[simp] theorem depth_number (n : Int) : (number n : Tree κ).depth = 1 := rfl

theorem depth_dropNeutral_le (op : Operator) (left right : Tree κ) :
    (dropNeutral op left right).depth ≤ 1 + max left.depth right.depth := by
  have hl := depth_pos left
  have hr := depth_pos right
  cases op <;> grind [dropNeutral, depth, depth_number]

theorem depth_reduce_le (t : Tree κ) : t.reduce.depth ≤ t.depth := by
  induction t with
  | constant c => exact Nat.le_refl _
  | var x => exact Nat.le_refl _
  | binary op left right ihl ihr =>
    rw [reduce, reduceBinary]
    split
    · simp only [depth]
      omega
    · have := depth_dropNeutral_le op left.reduce right.reduce
      simp only [depth]
      omega
  | unary f arg ih =>
    rw [reduce, reduceUnary]
    split <;> simp only [depth] <;> omega

theorem depth_simplify_le (passes : Int) (t : Tree κ) : (t.simplify passes).depth ≤ t.depth :=
  simplify_induction (P := fun u => u.depth ≤ t.depth)
    (fun u hu => Nat.le_trans (depth_reduce_le u) hu) passes (Nat.le_refl _)

end Depth

/-! ### One call of differentiation -/

section Body

variable {κ : Type} [Constant κ]

/-- What differentiation does with a simplified tree when it has something to call for operands. -/
def differentiateBy {m : Type → Type} [Monad m] [MonadExcept (Gap κ) m] (x : String) (passes : Int)
    (call : Tree κ → m (Tree κ)) : Tree κ → m (Tree κ)
  | constant _ => return number 0
  | var y => return number (if y = x then 1 else 0)
  | binary op u v =>
    if (binary op u v).contains x then
      match op with
      | .plus | .minus => do
        let du ← call u
        let dv ← call v
        return (binary op du dv).simplify passes
      | .times => do
        let du ← call u
        let dv ← call v
        return (binary .plus (binary .times du v) (binary .times u dv)).simplify passes
      | .power =>
        match v.integerConstant? with
        | none => throw (.openExponent v)
        | some n => do
          let du ← call u
          let outer := binary .times (constant n) (binary .power u (constant (Constant.pred n)))
          return (binary .times outer du).simplify passes
      | .divide => do
        let du ← call u
        let dv ← call v
        let correction :=
          binary .times (binary .power v (number (-2))) (binary .times u dv)
        return (binary .minus (binary .divide du v) correction).simplify passes
    else return number 0
  | unary f u =>
    if (unary f u).contains x then
      match (f.derivative? : Option (Tree κ → Tree κ)) with
      | none => throw (.noRule f)
      | some rule => do
        let du ← call u
        return (binary .times (rule u) du).simplify passes
    else return number 0

/-- Differentiation does this with the simplified tree, calling itself. -/
theorem differentiate_eq (x : String) (passes : Int) (t : Tree κ) : t.differentiate x passes =
    differentiateBy x passes (·.differentiate x passes) (t.simplify passes) := by
  fun_cases differentiate x passes t with
  | case1 c ht =>
    rw [ht]
    rfl
  | case2 y ht =>
    rw [ht]
    rfl
  | case3 u v ht _ _ hx => rw [ht, differentiateBy, if_pos hx]
  | case4 u v ht _ _ hx => rw [ht, differentiateBy, if_pos hx]
  | case5 u v ht _ _ hx => rw [ht, differentiateBy, if_pos hx]
  | case6 u v ht hn _ _ hx =>
    simp only [ht, differentiateBy, hx, hn, if_true]
    rfl
  | case7 u v ht n hn _ _ hx => simp only [ht, differentiateBy, hx, hn, if_true]
  | case8 u v ht _ _ hx => rw [ht, differentiateBy, if_pos hx]
  | case9 op u v ht _ hx =>
    rw [ht]
    exact (if_neg hx).symm
  | case10 f u ht _ hx hrule =>
    simp only [ht, differentiateBy, hx, hrule, if_true]
    rfl
  | case11 f u ht _ hx rule hrule => simp only [ht, differentiateBy, hx, hrule, if_true]
  | case12 f u ht _ hx =>
    rw [ht]
    exact (if_neg hx).symm

/-! ### Runs that count their calls -/

/-- Computations that may find a gap, count calls, and may give up. -/
abbrev Counted (κ : Type) := ExceptT (Gap κ) (StateT Nat Option)

/-- A run of differentiation that counts its calls.  It gives up where a call would be made inside
as many others as the limit says. -/
def differentiateWithin (x : String) (passes : Int) : Nat → Tree κ → Counted κ (Tree κ)
  | 0, _ => ExceptT.mk fun _ => none
  | limit + 1, t => do
    modify (· + 1)
    differentiateBy x passes (differentiateWithin x passes limit) (t.simplify passes)

/-- What a run ends with and the calls it has made, unless it gives up. -/
def Counted.outcome {κ α : Type} (p : Counted κ α) : Option (Except (Gap κ) α × Nat) := p.run.run 0

/-- Whatever was counted before, the computation ends with a result and counts no more calls than
so many. -/
def EndsWithin {κ α : Type} (bound : Nat) (p : Counted κ α) (r : Except (Gap κ) α) : Prop :=
  ∀ before, ∃ calls ≤ bound, p.run.run before = some (r, before + calls)

section Counts

variable {α β : Type} {b b' : Nat} {p : Counted κ α} {r : Except (Gap κ) α}

omit [Constant κ]

theorem ends_pure (a : α) : EndsWithin 0 (pure a : Counted κ α) (.ok a) :=
  fun _ => ⟨0, Nat.le_refl 0, rfl⟩

theorem ends_throw (gap : Gap κ) : EndsWithin 0 (throw gap : Counted κ α) (.error gap) :=
  fun _ => ⟨0, Nat.le_refl 0, rfl⟩

theorem EndsWithin.mono (h : EndsWithin b p r) (hb : b ≤ b') : EndsWithin b' p r := by
  intro before
  obtain ⟨calls, hcalls, hrun⟩ := h before
  exact ⟨calls, Nat.le_trans hcalls hb, hrun⟩

/-- A chain ends when its parts do, and its calls are theirs. -/
theorem EndsWithin.bind {f : α → Counted κ β} {g : α → Except (Gap κ) β} (h : EndsWithin b p r)
    (hf : ∀ a, EndsWithin b' (f a) (g a)) : EndsWithin (b + b') (p >>= f) (r >>= g) := by
  intro before
  obtain ⟨calls, hcalls, hrun⟩ := h before
  cases r with
  | error gap =>
    refine ⟨calls, by omega, ?_⟩
    rw [ExceptT.run_bind, StateT.run_bind, hrun]
    rfl
  | ok a =>
    obtain ⟨calls', hcalls', hrun'⟩ := hf a (before + calls)
    refine ⟨calls + calls', by omega, ?_⟩
    rw [ExceptT.run_bind, StateT.run_bind, hrun, ← Nat.add_assoc]
    exact hrun'

theorem EndsWithin.count (h : EndsWithin b p r) : EndsWithin (1 + b) (do modify (· + 1); p) r := by
  intro before
  obtain ⟨calls, hcalls, hrun⟩ := h (before + 1)
  refine ⟨1 + calls, by omega, ?_⟩
  rw [← Nat.add_assoc]
  exact hrun

end Counts

/-- One call makes the calls that are made for the operands. -/
theorem ends_differentiateBy {x : String} {passes : Int} {call : Tree κ → Counted κ (Tree κ)}
    {result : Tree κ → Except (Gap κ) (Tree κ)} {t : Tree κ}
    (h : ∀ u ∈ t.children, EndsWithin u.size (call u) (result u)) :
    EndsWithin (totalSize t.children) (differentiateBy x passes call t)
      (differentiateBy x passes result t) := by
  cases t with
  | constant c => exact ends_pure _
  | var y => exact ends_pure _
  | binary op u v =>
    have hu := h u (by simp [children])
    have hv := h v (by simp [children])
    have hboth (f : Tree κ → Tree κ → Tree κ) : EndsWithin (totalSize [u, v])
        (do let du ← call u; let dv ← call v; return f du dv)
        (do let du ← result u; let dv ← result v; return f du dv) :=
      hu.bind fun du => hv.bind fun dv => ends_pure (f du dv)
    by_cases hx : (binary op u v).contains x
    · cases op with
      | plus =>
        simp only [differentiateBy, hx, if_true]
        exact hboth _
      | minus =>
        simp only [differentiateBy, hx, if_true]
        exact hboth _
      | times =>
        simp only [differentiateBy, hx, if_true]
        exact hboth _
      | divide =>
        simp only [differentiateBy, hx, if_true]
        exact hboth _
      | power =>
        simp only [differentiateBy, hx, if_true]
        split
        · exact (ends_throw _).mono (Nat.zero_le _)
        · exact (hu.bind fun du => ends_pure _).mono (by simp only [children, totalSize]; omega)
    · rw [differentiateBy.eq_def, differentiateBy.eq_def]
      simp only [hx]
      exact (ends_pure _).mono (Nat.zero_le _)
  | unary f u =>
    have hu := h u (by simp [children])
    rw [differentiateBy, differentiateBy]
    split
    · split
      · exact (ends_throw _).mono (Nat.zero_le _)
      · exact hu.bind fun du => ends_pure _
    · exact (ends_pure _).mono (Nat.zero_le _)

end Body

/-! ### Runs go down the simplified tree -/

section Lawful

variable {κ : Type} [Constant κ] [Constant.Lawful κ] {x : String} {passes : Int} {t : Tree κ}

theorem simplify_of_mem_children {u : Tree κ} (hu : u ∈ (t.simplify passes).children) :
    u.simplify passes = u := by
  cases ht : t.simplify passes with
  | constant c =>
    rw [ht] at hu
    cases hu
  | var y =>
    rw [ht] at hu
    cases hu
  | binary op left right =>
    obtain ⟨hleft, hright⟩ := simplify_operands ht
    rw [ht] at hu
    rcases List.mem_pair.1 hu with rfl | rfl
    · exact hleft
    · exact hright
  | unary f arg =>
    rw [ht] at hu
    obtain rfl := List.mem_singleton.1 hu
    exact simplify_argument ht

/-- **A run ends with the derivative**, unless the simplified tree is deeper than its limit, and
makes a call for a node of that tree at most once. -/
theorem ends_differentiateWithin {limit : Nat} (h : (t.simplify passes).depth ≤ limit) :
    EndsWithin (t.simplify passes).size (differentiateWithin x passes limit t)
      (t.differentiate x passes) := by
  induction limit generalizing t with
  | zero =>
    have := depth_pos (t.simplify passes)
    omega
  | succ limit ih =>
    rw [differentiate_eq, size_eq_totalSize_children]
    refine (ends_differentiateBy fun u hu => ?_).count
    have hsimple := simplify_of_mem_children hu
    have hdepth := depth_lt_of_mem_children hu
    have hcall := ih (t := u) (by rw [hsimple]; omega)
    rwa [hsimple] at hcall

end Lawful

/-- **Simplification makes no tree larger, and so differentiation ends.**  A simplified tree has no
more nodes and levels and no other variables.  A run of differentiation with no more calls inside
each other than the simplified tree has levels ends with the derivative, or the gap, and has then
made no more calls than that tree has nodes. -/
theorem differentiate_ends {lib : Library} (t : Tree (Marked (Doubles lib))) (passes : Int) :
    (t.simplify passes).size ≤ t.size ∧ (t.simplify passes).depth ≤ t.depth ∧
    (t.simplify passes).variableNames ⊆ t.variableNames ∧
    ∀ x limit, (t.simplify passes).depth ≤ limit → ∃ calls ≤ (t.simplify passes).size,
      (differentiateWithin x passes limit t).outcome = some (t.differentiate x passes, calls) := by
  refine ⟨size_simplify_le passes t, depth_simplify_le passes t, fun y hy => ?_, ?_⟩
  · exact mem_variableNames.2 (occurs_of_simplify (mem_variableNames.1 hy))
  · intro x limit hlimit
    obtain ⟨calls, hcalls, hrun⟩ := ends_differentiateWithin (x := x) hlimit 0
    rw [Nat.zero_add] at hrun
    exact ⟨calls, hcalls, hrun⟩

/-- The formula `sin(x) * (0 - x)`, whose difference becomes a product with minus one. -/
def negatedSample : Tree (Marked (Doubles .least)) :=
  binary .times (unary .sin (var "x")) (binary .minus (number 0) (var "x"))

theorem differentiate_negatedSample : (negatedSample.simplify 1).depth ≤ 3 ∧
    (negatedSample.simplify 1).size = negatedSample.size ∧
    ∃ calls ≤ (negatedSample.simplify 1).size,
      (differentiateWithin "x" 1 3 negatedSample).outcome =
        some (negatedSample.differentiate "x" 1, calls) := by
  have hdepth : (negatedSample.simplify 1).depth ≤ 3 := by decide +kernel
  have hsize : (negatedSample.simplify 1).size = negatedSample.size := by decide +kernel
  exact ⟨hdepth, hsize, (differentiate_ends negatedSample 1).2.2.2 "x" 3 hdepth⟩

/-- A limit below the depth is too low. -/
example : (differentiateWithin "x" 1 1
    (unary .sin (var "x") : Tree (Marked (Doubles .least)))).outcome.isNone := rfl

end Formula.Term
