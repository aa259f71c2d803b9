import Formula.Proofs.Number.Rational
import Formula.Proofs.Tree.Doubles
import Formula.Proofs.Tree.Variables

/-!
Trees without a derivative.  The operands of a simplified tree are simple already, so that
differentiation, which simplifies at every level, goes down the simplified tree itself, every node
before its operands.  Where it fails, it fails for the first node with a gap (`gapAt?`): a function
without a rule or a power with an open exponent, if the variable occurs below it
(`failure?_differentiate`).

Main statement: a tree has no derivative exactly if its simplified tree has such a node, and the
fault names the symbol of the first one (`differentiate_gap`).
-/

namespace Formula

/-! ### Failures -/

section Failure

variable {ε α β : Type}

/-- The fault of a result, if it is one. -/
def failure? : Except ε α → Option ε
  | .ok _ => none
  | .error e => some e

theorem failure?_eq_some {x : Except ε α} {e : ε} : failure? x = some e ↔ x = .error e := by
  cases x with
  | ok a => simp [failure?]
  | error f => simp [failure?]

/-- A chain fails first where its first part fails, and then where the rest does. -/
theorem failure?_bind {x : Except ε α} {f : α → Except ε β} {e : Option ε}
    (h : ∀ a, failure? (f a) = e) : failure? (x >>= f) = (failure? x).or e := by
  cases x with
  | ok a => exact h a
  | error g => rfl

/-- What is computed from one result fails where that fails. -/
theorem failure?_map (x : Except ε α) (f : α → β) :
    failure? (do let a ← x; return f a) = failure? x := by
  cases x <;> rfl

/-- What is computed from two results fails where the first of them fails. -/
theorem failure?_map₂ (x : Except ε α) (y : Except ε β) {γ : Type} (f : α → β → γ) :
    failure? (do let a ← x; let b ← y; return f a b) = (failure? x).or (failure? y) :=
  failure?_bind fun a => failure?_map y (f a)

end Failure

namespace Term

section Gaps

variable {κ : Type} [Constant κ]

/-! ### Nodes with a gap -/

/-- Why a tree has no derivative by a variable because of its root. -/
def gapAt? (x : String) (t : Tree κ) : Option (Gap κ) :=
  if t.contains x then
    match t with
    | constant _ | var _ => none
    | binary .power _ v => if v.integerConstant?.isNone then some (.openExponent v) else none
    | binary _ _ _ => none
    | unary f _ =>
      if (f.derivative? : Option (Tree κ → Tree κ)).isNone then some (.noRule f) else none
  else none

variable {x : String} {t s u v : Tree κ}

theorem gapAt?_of_not_contains (h : t.contains x = false) : gapAt? x t = none := by
  unfold gapAt?
  rw [h]
  rfl

/-- An operation other than a power has no gap of its own. -/
theorem gapAt?_of_not_power {op : Operator} (hx : (binary op u v).contains x = true)
    (hop : op ≠ .power) : gapAt? x (binary op u v) = none := by
  rw [gapAt?, if_pos hx]
  exact hop

theorem gapAt?_power (hx : (binary .power u v).contains x = true) :
    gapAt? x (binary .power u v) =
      if v.integerConstant?.isNone then some (.openExponent v) else none := by
  rw [gapAt?, if_pos hx]

theorem gapAt?_unary {f : Func} (hx : (unary f u).contains x = true) :
    gapAt? x (unary f u) =
      if (f.derivative? : Option (Tree κ → Tree κ)).isNone then some (.noRule f) else none := by
  rw [gapAt?, if_pos hx]

omit [Constant κ] in
/-- What contains the variable makes all above it contain the variable. -/
theorem contains_of_mem (hs : s ∈ t.depthFirst) (h : s.contains x = true) :
    t.contains x = true := by
  induction t with
  | constant c => rwa [← List.mem_singleton.1 hs]
  | var y => rwa [← List.mem_singleton.1 hs]
  | binary op left right ihl ihr =>
    rcases List.mem_cons.1 hs with rfl | hs
    · exact h
    · rcases List.mem_append.1 hs with hs | hs
      · simp [contains, ihl hs]
      · simp [contains, ihr hs]
  | unary f arg ih =>
    rcases List.mem_cons.1 hs with rfl | hs
    · exact h
    · simp [contains, ih hs]

/-- A tree without the variable has no gaps. -/
theorem findSome?_of_not_contains (h : t.contains x = false) :
    t.depthFirst.findSome? (gapAt? x) = none := by
  refine List.findSome?_eq_none_iff.2 fun s hs => gapAt?_of_not_contains ?_
  by_contra hx
  rw [contains_of_mem hs (by simpa using hx)] at h
  cases h

/-- The first gap of an operation is at its root or below one of its operands. -/
theorem findSome?_binary (op : Operator) : (binary op u v).depthFirst.findSome? (gapAt? x) =
    (gapAt? x (binary op u v)).or
      ((u.depthFirst.findSome? (gapAt? x)).or (v.depthFirst.findSome? (gapAt? x))) := by
  rw [depthFirst, List.findSome?_cons, List.findSome?_append]
  cases gapAt? x (binary op u v) <;> rfl

theorem findSome?_unary (f : Func) : (unary f u).depthFirst.findSome? (gapAt? x) =
    (gapAt? x (unary f u)).or (u.depthFirst.findSome? (gapAt? x)) := by
  rw [depthFirst, List.findSome?_cons]
  cases gapAt? x (unary f u) <;> rfl

end Gaps

/-! ### Differentiation stops at the first gap -/

section Lawful

variable {κ : Type} [Constant κ] [Constant.Lawful κ] {x : String} {passes : Int} {t u v : Tree κ}

/-- The operands of a simplified tree are simple. -/
theorem simplify_operands {op : Operator} (h : t.simplify passes = binary op u v) :
    u.simplify passes = u ∧ v.simplify passes = v := by
  rw [simplify_eq_reduce] at h
  obtain ⟨-, hu, hv⟩ := normal_binary.1 (h ▸ normal_reduce t)
  rw [simplify_eq_reduce, simplify_eq_reduce, reduce_of_normal hu, reduce_of_normal hv]
  exact ⟨rfl, rfl⟩

theorem simplify_argument {f : Func} (h : t.simplify passes = unary f u) :
    u.simplify passes = u := by
  rw [simplify_eq_reduce] at h
  obtain ⟨-, hu⟩ := normal_unary.1 (h ▸ normal_reduce t)
  rw [simplify_eq_reduce, reduce_of_normal hu]

/-- The first gap below an operation other than a power is that of one of its operands, which are
simple. -/
theorem findSome?_of_not_power {op : Operator} (ht : t.simplify passes = binary op u v)
    (hx : (binary op u v).contains x = true) (hop : op ≠ .power) :
    (t.simplify passes).depthFirst.findSome? (gapAt? x) =
      ((u.simplify passes).depthFirst.findSome? (gapAt? x)).or
        ((v.simplify passes).depthFirst.findSome? (gapAt? x)) := by
  obtain ⟨hu, hv⟩ := simplify_operands ht
  rw [hu, hv, ht, findSome?_binary, gapAt?_of_not_power hx hop, Option.none_or]

/-- **Differentiation fails for the first gap of the simplified tree.** -/
theorem failure?_differentiate (x : String) (passes : Int) (t : Tree κ) :
    failure? (t.differentiate x passes) =
      (t.simplify passes).depthFirst.findSome? (gapAt? x) := by
  fun_induction differentiate x passes t with
  | case1 t c ht => rw [ht]; rfl
  | case2 t y ht =>
    rw [ht]
    simp [depthFirst, gapAt?, failure?]
  | case3 t u v ht _ _ hx ihu ihv =>
    rw [failure?_map₂, ihu, ihv, findSome?_of_not_power ht hx (by decide)]
  | case4 t u v ht _ _ hx ihu ihv =>
    rw [failure?_map₂, ihu, ihv, findSome?_of_not_power ht hx (by decide)]
  | case5 t u v ht _ _ hx ihu ihv =>
    rw [failure?_map₂, ihu, ihv, findSome?_of_not_power ht hx (by decide)]
  | case6 t u v ht hn _ _ hx =>
    rw [ht, findSome?_binary, gapAt?_power hx, hn]
    rfl
  | case7 t u v ht n hn _ _ hx ihu =>
    obtain ⟨hu, -⟩ := simplify_operands ht
    obtain ⟨rfl, -⟩ := eq_constant_of_integerConstant? hn
    rw [failure?_map, ihu, hu, ht, findSome?_binary, gapAt?_power hx, hn]
    simp [depthFirst, gapAt?]
  | case8 t u v ht _ _ hx ihu ihv =>
    rw [failure?_map₂, ihu, ihv, findSome?_of_not_power ht hx (by decide)]
  | case9 t op u v ht _ hx =>
    rw [ht, findSome?_of_not_contains (by simpa using hx)]
    rfl
  | case10 t f u ht _ hx hrule =>
    rw [ht, findSome?_unary, gapAt?_unary hx, hrule]
    rfl
  | case11 t f u ht _ hx rule hrule ihu =>
    rw [failure?_map, ihu, simplify_argument ht, ht, findSome?_unary, gapAt?_unary hx, hrule]
    rfl
  | case12 t f u ht _ hx =>
    rw [ht, findSome?_of_not_contains (by simpa using hx)]
    rfl

end Lawful

/-! ### The gaps of a tree over the doubles -/

/-- The symbol at the root of a tree. -/
def symbol? {κ : Type} : Tree κ → Option String
  | constant _ | var _ => none
  | binary op _ _ => some op.symbol
  | unary f _ => some f.symbol

/-- A text that is no symbol counts as occurring where it is a variable. -/
theorem contains_iff_occurs {κ : Type} {x : String} (hoperator : isOperator x = false)
    (hfunction : isFunctionName x = false) (t : Tree κ) : t.contains x ↔ Occurs x t := by
  have hop (op : Operator) : op.symbol ≠ x := by
    rintro rfl
    simp [isOperator] at hoperator
  have hf (f : Func) : f.symbol ≠ x := by
    rintro rfl
    simp [isFunctionName] at hfunction
  induction t with
  | constant c => simp [contains]
  | var y =>
    rw [contains, beq_iff_eq, occurs_var]
    exact eq_comm
  | binary op left right ihl ihr => simp [contains, Symbol.text, hop op, ← ihl, ← ihr]
  | unary f arg ih => simp [contains, Symbol.text, hf f, ← ih]

section Doubles

variable {lib : Library} {x : String} {t : Tree (Marked (Doubles lib))}

/-- The subtrees by which a tree has no derivative: functions without a rule, and powers whose
exponent is not a constant with an integral value. -/
inductive HasGap (x : String) : Tree (Marked (Doubles lib)) → Prop
  | noRule {f : Func} {u : Tree (Marked (Doubles lib))} (hf : f ∈ [.abs, .sinh, .cosh, .tanh])
    (hx : Occurs x (unary f u)) : HasGap x (unary f u)
  | openExponent {u v : Tree (Marked (Doubles lib))}
    (hv : ∀ c (n : Int), v = constant c → Double.rational? c.value.view ≠ some (n : ℚ))
    (hx : Occurs x (binary .power u v)) : HasGap x (binary .power u v)

theorem integerConstant?_eq_none {v : Tree (Marked (Doubles lib))} :
    v.integerConstant? = none ↔
      ∀ c (n : Int), v = constant c → Double.rational? c.value.view ≠ some (n : ℚ) := by
  cases v with
  | constant c =>
    have hinteger : Constant.isInteger c = (Double.integer? c.value).isSome := rfl
    simp only [integerConstant?, constant.injEq, ite_eq_right_iff, reduceCtorEq, imp_false,
      hinteger, Option.isSome_iff_exists, not_exists]
    constructor
    · rintro h c n rfl hn
      exact h n (Double.integer?_eq_some.2 hn)
    · intro h n hn
      exact h c n rfl (Double.integer?_eq_some.1 hn)
  | _ => simp [integerConstant?]

theorem derivative?_eq_none {κ : Type} [Constant κ] {f : Func} :
    (f.derivative? : Option (Tree κ → Tree κ)) = none ↔ f ∈ [.abs, .sinh, .cosh, .tanh] := by
  cases f <;> simp [Func.derivative?]

section Symbols

variable (hoperator : isOperator x = false) (hfunction : isFunctionName x = false)

include hoperator hfunction

theorem hasGap_of_gapAt? {gap : Gap (Marked (Doubles lib))} (h : gapAt? x t = some gap) :
    HasGap x t ∧ gap.toFault.symbol? = t.symbol? := by
  have hcontains : t.contains x := by
    by_contra hx
    rw [gapAt?_of_not_contains (by simpa using hx)] at h
    cases h
  have hx := (contains_iff_occurs hoperator hfunction t).1 hcontains
  cases t with
  | constant c => exact absurd hcontains nofun
  | var y =>
    rw [gapAt?, if_pos hcontains] at h
    cases h
  | binary op u v =>
    by_cases hop : op = .power
    · subst hop
      rw [gapAt?_power hcontains, Option.ite_none_right_eq_some, Option.isNone_iff_eq_none] at h
      obtain ⟨hv, ⟨⟩⟩ := h
      exact ⟨.openExponent (integerConstant?_eq_none.1 hv) hx, rfl⟩
    · rw [gapAt?_of_not_power hcontains hop] at h
      cases h
  | unary f u =>
    rw [gapAt?_unary hcontains, Option.ite_none_right_eq_some, Option.isNone_iff_eq_none] at h
    obtain ⟨hf, ⟨⟩⟩ := h
    exact ⟨.noRule (derivative?_eq_none.1 hf) hx, rfl⟩

theorem exists_gapAt? (h : HasGap x t) : ∃ gap, gapAt? x t = some gap := by
  have hcontains := contains_iff_occurs hoperator hfunction t
  cases h with
  | noRule hf hx =>
    rw [gapAt?_unary (hcontains.2 hx), derivative?_eq_none.2 hf]
    exact ⟨_, rfl⟩
  | openExponent hv hx =>
    rw [gapAt?_power (hcontains.2 hx), integerConstant?_eq_none.2 hv]
    exact ⟨_, rfl⟩

theorem gapAt?_eq_none_iff : gapAt? x t = none ↔ ¬ HasGap x t := by
  rw [← not_iff_not, not_not, ← ne_eq, Option.ne_none_iff_exists']
  exact ⟨fun ⟨_, h⟩ => (hasGap_of_gapAt? hoperator hfunction h).1,
    exists_gapAt? hoperator hfunction⟩

/-- **A tree has no derivative exactly if its simplified tree has a gap.**  The fault names the
symbol of the first subtree with a gap, where every tree comes before its operands and these from
the left. -/
theorem differentiate_gap (t : Tree (Marked (Doubles lib))) (passes : Int) :
    ((∃ gap, t.differentiate x passes = .error gap) ↔
      ∃ s ∈ (t.simplify passes).depthFirst, HasGap x s) ∧
    ∀ gap, t.differentiate x passes = .error gap → gap.toFault.kind = .derivation ∧
      ∃ before s after, (t.simplify passes).depthFirst = before ++ s :: after ∧
        (∀ u ∈ before, ¬ HasGap x u) ∧ HasGap x s ∧ gap.toFault.symbol? = s.symbol? := by
  have hfirst (gap) : t.differentiate x passes = .error gap ↔
      (t.simplify passes).depthFirst.findSome? (gapAt? x) = some gap := by
    rw [← failure?_eq_some, failure?_differentiate]
  constructor
  · simp only [hfirst]
    rw [← Option.ne_none_iff_exists', ne_eq, List.findSome?_eq_none_iff]
    simp only [gapAt?_eq_none_iff hoperator hfunction, not_forall, not_not, exists_prop]
  · intro gap h
    obtain ⟨before, s, after, hsplit, hs, hbefore⟩ :=
      List.findSome?_eq_some_iff.1 ((hfirst gap).1 h)
    obtain ⟨hgap, hsymbol⟩ := hasGap_of_gapAt? hoperator hfunction hs
    refine ⟨by cases gap <;> rfl, before, s, after, hsplit, ?_, hgap, hsymbol⟩
    intro u hu
    exact (gapAt?_eq_none_iff hoperator hfunction).1 (hbefore u hu)

end Symbols

end Doubles

/-- The formula `step(abs(x)) - x ^ y`: the jump has the derivative zero, its argument none. -/
def jumpSample : Tree (Marked (Doubles .least)) :=
  binary .minus (unary .step (unary .abs (var "x"))) (binary .power (var "x") (var "y"))

theorem differentiate_jumpSample : isOperator "x" = false ∧ isFunctionName "x" = false ∧
    ∃ gap, jumpSample.differentiate "x" 1 = .error gap ∧ gap.toFault.kind = .derivation := by
  have hgap : HasGap "x" (unary .abs (var "x") : Tree (Marked (Doubles .least))) :=
    .noRule (by decide) (by simp)
  have hmem : unary .abs (var "x") ∈ (jumpSample.simplify 1).depthFirst := by
    have hsimple : jumpSample.simplify 1 = jumpSample := rfl
    rw [hsimple]
    simp [jumpSample, depthFirst]
  obtain ⟨hiff, hfault⟩ := differentiate_gap (x := "x") rfl rfl jumpSample 1
  obtain ⟨gap, h⟩ := hiff.2 ⟨_, hmem, hgap⟩
  exact ⟨rfl, rfl, gap, h, (hfault gap h).1⟩

end Term

end Formula
