import Formula.Proofs.Tree.Congruence
import Formula.Proofs.Tree.Recovery
import Formula.Proofs.Tree.Traversal

/-!
The text of a tree tells it apart.  What a text is read as (`respelt`) does not tell a negative
constant from a difference from zero, but the texts of these two differ in their first characters:
the minus of a constant stands right behind a parenthesis, that of a difference behind the zero.  So
where two texts begin alike and are read alike, the trees are alike, and the texts end at the same
place (`alike_of_placed`).

Main statement: trees with finite constants are equal exactly if they have the same text, and equal
trees have the same measures and variables and equal simplified trees and derivatives
(`equal_iff_toInfix`).
-/

namespace Formula

namespace Doubles

variable {lib : Library} {x : Doubles lib}

/-- A constant that is a finite number. -/
def IsFinite (x : Doubles lib) : Prop := Kernel.isFinite x = true

theorem IsFinite.expressible (h : IsFinite x) : Expressible x := expressible_of_isFinite h

end Doubles

namespace Term

open Double

variable {lib : Library} {t u left right arg : Tree (Doubles lib)} {c d : Doubles lib}
  {op : Operator} {n : Nat}

/-! ### Texts of constants -/

/-- The sign of a zero is not written. -/
theorem constantText_dropZeroSign (x : Float) :
    (toNumeral (dropZeroSign x)).constantText = (toNumeral x).constantText := by
  by_cases h : view x = .zero .negative
  · have hx : x = -0.0 := view_injective h
    rw [hx]
    decide +kernel
  · rw [dropZeroSign_of_ne h]

theorem dropZeroSign_of_isZero {x : Float} (h : IsZero (view x)) : dropZeroSign x = 0.0 :=
  if_pos (beq_zero_iff.2 h)

theorem dropZeroSign_eq_of_eq (h : Kernel.eq c d) : dropZeroSign c = dropZeroSign d := by
  rcases Doubles.eq_iff.1 h with ⟨hview, -⟩ | ⟨hc, hd⟩
  · rw [view_injective hview]
  · exact (dropZeroSign_of_isZero hc).trans (dropZeroSign_of_isZero hd).symm

/-- Equal constants have the same text. -/
theorem constantText_eq_of_eq (h : Kernel.eq c d) :
    (toNumeral c).constantText = (toNumeral d).constantText := by
  rw [← constantText_dropZeroSign c, ← constantText_dropZeroSign d, dropZeroSign_eq_of_eq h]

/-- The minus of a constant stands right behind a parenthesis. -/
theorem exists_constantText_of_isNegative (hc : c.IsFinite) (h : IsNegative c.view) :
    ∃ cs, (toNumeral c).constantText.toList = '(' :: '-' :: cs := by
  rw [Doubles.IsFinite, Doubles.isFinite_iff] at hc
  cases hview : c.view with
  | finite s m e hm =>
    rw [hview] at h
    obtain rfl : s = .negative := h
    exact ⟨_, by rw [constantText_of_negative hview]; simp; rfl⟩
  | zero s =>
    rw [hview] at h
    exact h.elim
  | notANumber =>
    rw [hview] at h
    exact h.elim
  | infinity s =>
    rw [hview] at hc
    cases hc

/-! ### Texts of trees -/

/-- The text of a tree at a place that asks for a rank. -/
def placed (n : Nat) (t : Tree (Doubles lib)) : List Char :=
  (parenthesize (t.rank?.any (· < n)) t.toInfix).toList

theorem placed_zero (t : Tree (Doubles lib)) : placed 0 t = t.toInfix.toList := by
  have hrank : t.rank?.any (· < 0) = false := by cases t <;> rfl
  rw [placed, hrank]
  rfl

theorem placed_constant : placed n (constant c) = (toNumeral c).constantText.toList := rfl

theorem placed_unary (f : Func) (arg : Tree (Doubles lib)) :
    placed n (unary f arg) = f.symbol.toList ++ '(' :: (placed 0 arg ++ [')']) := by
  rw [placed_zero]
  show (f.symbol ++ "(" ++ arg.toInfix ++ ")").toList = _
  simp

theorem toList_toInfix_binary : (binary op left right).toInfix.toList =
    placed op.rank left ++ op.char :: placed (op.rank + 1) right := by
  simp only [toInfix, placed, String.toList_append, toList_symbol, Nat.lt_succ_iff]
  simp

theorem placed_binary : placed n (binary op left right) =
    if op.rank < n then
      '(' :: (placed op.rank left ++ op.char :: (placed (op.rank + 1) right ++ [')']))
    else placed op.rank left ++ op.char :: placed (op.rank + 1) right := by
  have hany : (binary op left right).rank?.any (· < n) = decide (op.rank < n) := rfl
  rw [placed, hany]
  by_cases h : op.rank < n
  · rw [if_pos h, decide_eq_true h, parenthesize, if_pos rfl]
    simp [toList_toInfix_binary]
  · rw [if_neg h, decide_eq_false h, parenthesize, if_neg (by simp), toList_toInfix_binary]

/-- Where two operations are written alike, their operands are, up to what follows them. -/
theorem operands_of_placed {left' right' : Tree (Doubles lib)} {rest rest' : List Char}
    (h : placed n (binary op left right) ++ rest = placed n (binary op left' right') ++ rest') :
    ∃ close close', (close = close' → rest = rest') ∧
      placed op.rank left ++ op.char :: (placed (op.rank + 1) right ++ close) =
        placed op.rank left' ++ op.char :: (placed (op.rank + 1) right' ++ close') := by
  rw [placed_binary, placed_binary] at h
  split at h
  · simp only [List.cons_append, List.append_assoc] at h
    exact ⟨_, _, fun hclose => (List.cons.inj hclose).2, (List.cons.inj h).2⟩
  · simp only [List.cons_append, List.append_assoc] at h
    exact ⟨rest, rest', id, h⟩

/-- Where two calls of a function are written alike, so are the arguments and what follows. -/
theorem argument_of_placed {f : Func} {arg' : Tree (Doubles lib)} {rest rest' : List Char}
    (h : placed n (unary f arg) ++ rest = placed n (unary f arg') ++ rest') :
    placed 0 arg ++ ')' :: rest = placed 0 arg' ++ ')' :: rest' := by
  rw [placed_unary, placed_unary] at h
  simp only [List.cons_append, List.append_assoc] at h
  exact (List.cons.inj (List.append_cancel_left h)).2

/-! ### Trees that are read alike -/

/-- Constants that are read alike are equal. -/
theorem eq_of_respelt (hc : c.IsFinite) (hd : d.IsFinite)
    (h : respelt (constant c) = respelt (constant d)) : Kernel.eq c d := by
  by_cases hcneg : IsNegative c.view <;> by_cases hdneg : IsNegative d.view
  · rw [respelt_of_isNegative hcneg, respelt_of_isNegative hdneg] at h
    have habs : Kernel.abs c = Kernel.abs d := constant.inj (binary.inj h).2.2
    have hcd : c = d := by
      rw [← zero_sub_abs hcneg, ← zero_sub_abs hdneg]
      exact congrArg (0.0 - · : Float → Float) habs
    rw [hcd]
    exact eq_self_of_isFinite hd
  · rw [respelt_of_isNegative hcneg, respelt_of_not_isNegative hd.expressible hdneg] at h
    cases h
  · rw [respelt_of_not_isNegative hc.expressible hcneg, respelt_of_isNegative hdneg] at h
    cases h
  · rw [respelt_of_not_isNegative hc.expressible hcneg,
      respelt_of_not_isNegative hd.expressible hdneg] at h
    have hdrop : dropZeroSign c = dropZeroSign d := constant.inj h
    have hc' := Double.eq_iff.1 (eq_dropZeroSign hc.expressible.1)
    have hd' := Double.eq_iff.1 (eq_dropZeroSign hd.expressible.1)
    rw [hdrop] at hc'
    exact Doubles.eq_iff.2 (hc'.symm.trans hd')

/-- A constant is read as a constant or as a difference. -/
theorem respelt_constant_cases (hc : c.IsFinite) :
    (∃ d, respelt (constant c) = constant d) ∨
      ∃ d e, respelt (constant c) = binary .minus (constant d) (constant e) := by
  by_cases h : IsNegative c.view
  · exact .inr ⟨_, _, respelt_of_isNegative h⟩
  · exact .inl ⟨_, respelt_of_not_isNegative hc.expressible h⟩

theorem respelt_constant_ne_var (hc : c.IsFinite) (x : String) :
    respelt (constant c) ≠ var x := by
  rcases respelt_constant_cases hc with ⟨d, h⟩ | ⟨d, e, h⟩ <;> exact h ▸ nofun

theorem respelt_constant_ne_unary (hc : c.IsFinite) (f : Func) (arg : Tree (Doubles lib)) :
    respelt (constant c) ≠ unary f arg := by
  rcases respelt_constant_cases hc with ⟨d, h⟩ | ⟨d, e, h⟩ <;> exact h ▸ nofun

/-- A tree that is read as zero is written as zero. -/
theorem placed_of_respelt_zero (ht : t.AllConstants Doubles.IsFinite)
    (h : t.respelt = constant 0) : placed n t = ['0'] := by
  cases t with
  | constant c =>
    have hc : c.IsFinite := allConstants_constant.1 ht
    by_cases hneg : IsNegative c.view
    · rw [respelt_of_isNegative hneg] at h
      cases h
    · rw [respelt_of_not_isNegative hc.expressible hneg] at h
      have hzero : dropZeroSign c = 0.0 := constant.inj h
      have htext : (toNumeral c).constantText = "0" := by
        refine (constantText_dropZeroSign c).symm.trans ?_
        rw [hzero]
        decide +kernel
      exact congrArg String.toList htext
  | var x => cases h
  | binary op left right => cases h
  | unary f arg => cases h

/-- A constant is not written like an operation that it is read as. -/
theorem placed_ne_of_respelt (hc : c.IsFinite) (hl : left.AllConstants Doubles.IsFinite)
    (h : respelt (constant c) = respelt (binary op left right)) (rest rest' : List Char) :
    placed n (constant c) ++ rest ≠ placed n (binary op left right) ++ rest' := by
  by_cases hneg : IsNegative c.view
  · rw [respelt_of_isNegative hneg] at h
    obtain ⟨rfl, hleft, -⟩ := binary.inj h
    obtain ⟨cs, hcs⟩ := exists_constantText_of_isNegative hc hneg
    rw [placed_constant, hcs, placed_binary, placed_of_respelt_zero hl hleft.symm]
    split <;> simp
  · rw [respelt_of_not_isNegative hc.expressible hneg] at h
    cases h

/-- **Trees that are read alike and begin with the same characters are alike**, and their texts end
at the same place. -/
theorem alike_of_placed (h : t.respelt = u.respelt) (ht : t.AllConstants Doubles.IsFinite)
    (hu : u.AllConstants Doubles.IsFinite) {rest rest' : List Char}
    (htext : placed n t ++ rest = placed n u ++ rest') : Alike t u ∧ rest = rest' := by
  induction t generalizing u n rest rest' with
  | constant c =>
    have hc : c.IsFinite := allConstants_constant.1 ht
    cases u with
    | constant d =>
      have hd : d.IsFinite := allConstants_constant.1 hu
      have heq := eq_of_respelt hc hd h
      rw [placed_constant, placed_constant, constantText_eq_of_eq heq] at htext
      exact ⟨.constant heq, List.append_cancel_left htext⟩
    | var x => exact absurd h (respelt_constant_ne_var hc x)
    | binary op left right =>
      exact absurd htext (placed_ne_of_respelt hc (allConstants_binary.1 hu).1 h _ _)
    | unary f arg => exact absurd h (respelt_constant_ne_unary hc f _)
  | var x =>
    cases u with
    | constant d =>
      have hd : d.IsFinite := allConstants_constant.1 hu
      exact absurd h.symm (respelt_constant_ne_var hd x)
    | var y =>
      obtain rfl : x = y := var.inj h
      exact ⟨.var x, List.append_cancel_left htext⟩
    | binary op left right => cases h
    | unary f arg => cases h
  | binary op left right ihl ihr =>
    obtain ⟨hleft, hright⟩ := allConstants_binary.1 ht
    cases u with
    | constant d =>
      have hd : d.IsFinite := allConstants_constant.1 hu
      exact absurd htext.symm (placed_ne_of_respelt hd hleft h.symm _ _)
    | var y => cases h
    | binary op' left' right' =>
      obtain ⟨rfl, hl, hr⟩ := binary.inj h
      obtain ⟨hleft', hright'⟩ := allConstants_binary.1 hu
      obtain ⟨close, close', hend, hoperands⟩ := operands_of_placed htext
      -- the left operands end together, so that the operator stands at one place in both texts
      obtain ⟨hl', hrest⟩ := ihl hl hleft hleft' hoperands
      obtain ⟨hr', hclose⟩ := ihr hr hright hright' (List.cons.inj hrest).2
      exact ⟨.binary op hl' hr', hend hclose⟩
    | unary f arg => cases h
  | unary f arg ih =>
    cases u with
    | constant d =>
      have hd : d.IsFinite := allConstants_constant.1 hu
      exact absurd h.symm (respelt_constant_ne_unary hd f _)
    | var y => cases h
    | binary op left right => cases h
    | unary f' arg' =>
      obtain ⟨rfl, harg⟩ := unary.inj h
      obtain ⟨harg', hclose⟩ :=
        ih harg (allConstants_unary.1 ht) (allConstants_unary.1 hu) (argument_of_placed htext)
      exact ⟨.unary f harg', (List.cons.inj hclose).2⟩

/-! ### Equal trees -/

theorem Alike.rank?_eq (h : Alike t u) : t.rank? = u.rank? := by
  cases h <;> rfl

/-- Alike trees have the same text. -/
theorem Alike.toInfix_eq (h : Alike t u) : t.toInfix = u.toInfix := by
  induction h with
  | constant h => exact constantText_eq_of_eq h
  | var x => rfl
  | binary op hl hr ihl ihr => rw [toInfix, toInfix, hl.rank?_eq, hr.rank?_eq, ihl, ihr]
  | unary f _ ih => rw [toInfix, toInfix, ih]

/-- Trees with the same text are alike. -/
theorem alike_of_toInfix_eq (ht : t.hasNames = true) (hu : u.hasNames = true)
    (htc : t.AllConstants Doubles.IsFinite) (huc : u.AllConstants Doubles.IsFinite)
    (h : t.toInfix = u.toInfix) : Alike t u := by
  obtain ⟨sequence, hparse, hbuild⟩ := exists_respelt t ht
  obtain ⟨sequence', hparse', hbuild'⟩ := exists_respelt u hu
  have hread : t.respelt = u.respelt := by
    obtain rfl : sequence = sequence' := Except.ok.inj (hparse.symm.trans (h ▸ hparse'))
    exact Except.ok.inj (hbuild.symm.trans hbuild')
  have htext : placed 0 t ++ [] = placed 0 u ++ [] := by rw [placed_zero, placed_zero, h]
  exact (alike_of_placed hread htc huc htext).1

/-- Equal trees are alike, since finite constants equal themselves. -/
theorem alike_of_beq (ht : t.AllConstants Doubles.IsFinite) (h : t == u) : Alike t u := by
  have hequal : t.equal Constant.same u = true := h
  clear h
  induction t generalizing u with
  | constant c =>
    have hfinite : c.IsFinite := allConstants_constant.1 ht
    have hc : Kernel.eq c c = true := eq_self_of_isFinite hfinite
    cases u with
    | constant d =>
      have hor : (Kernel.eq c d || (!Kernel.eq c c && !Kernel.eq d d)) = true := hequal
      exact .constant (by simpa [hc] using hor)
    | _ => cases hequal
  | var x =>
    cases u with
    | var y =>
      obtain rfl := beq_iff_eq.1 hequal
      exact .var x
    | _ => cases hequal
  | binary op left right ihl ihr =>
    obtain ⟨hleft, hright⟩ := allConstants_binary.1 ht
    cases u with
    | binary op' left' right' =>
      simp only [equal, Bool.and_eq_true, beq_iff_eq] at hequal
      obtain ⟨⟨rfl, hl⟩, hr⟩ := hequal
      exact .binary op (ihl hleft hl) (ihr hright hr)
    | _ => cases hequal
  | unary f arg ih =>
    cases u with
    | unary f' arg' =>
      simp only [equal, Bool.and_eq_true, beq_iff_eq] at hequal
      obtain ⟨rfl, harg⟩ := hequal
      exact .unary f (ih (allConstants_unary.1 ht) harg)
    | _ => cases hequal

/-- **Trees with finite constants are equal exactly if they have the same text.**  Over a library
that does not tell zeros apart, equal trees have the same measures and variables and equal
simplified trees, and their derivatives are equal or fail for the same symbol. -/
theorem equal_iff_toInfix (hlib : lib.Congruent) (ht : t.hasNames = true) (hu : u.hasNames = true)
    (htc : t.AllConstants Doubles.IsFinite) (huc : u.AllConstants Doubles.IsFinite) :
    (t == u ↔ t.toInfix = u.toInfix) ∧
    (t == u →
      t.size = u.size ∧ t.depth = u.depth ∧
      t.variableNames.toFinset = u.variableNames.toFinset ∧
      (∀ n m, t.simplify n == u.simplify m) ∧
      ∀ x n m,
        (∃ r r', t.differentiate x n = .ok r ∧ u.differentiate x m = .ok r' ∧ r == r') ∨
        ∃ gap gap', t.differentiate x n = .error gap ∧ u.differentiate x m = .error gap' ∧
          gap.toFault.kind = .derivation ∧ gap'.toFault.kind = .derivation ∧
          gap.toFault.symbol? = gap'.toFault.symbol?) := by
  refine ⟨⟨fun h => (alike_of_beq htc h).toInfix_eq,
    fun h => (alike_of_toInfix_eq ht hu htc huc h).beq⟩, fun h => ?_⟩
  have halike := alike_of_beq htc h
  refine ⟨halike.size_eq, halike.depth_eq, ?_, fun n m => (halike.simplify hlib n m).beq,
    fun x n m => ?_⟩
  · ext x
    rw [List.mem_toFinset, List.mem_toFinset, mem_variableNames, mem_variableNames,
      halike.occurs_iff]
  · rcases halike.differentiate hlib x n m with ⟨r, r', hr, hr', heq⟩ | ⟨gap, gap', h, h', heq⟩
    · exact .inl ⟨r, r', hr, hr', heq.beq⟩
    · exact .inr ⟨gap, gap', h, h', by cases gap <;> rfl, by cases gap' <;> rfl, heq⟩

/-- The tree of `sin(x)^-2 - z` for a zero `z` of either sign. -/
def zeroSample (z : Float) : Tree (Doubles .least) :=
  binary .minus (binary .power (unary .sin (var "x")) (constant (-2.0 : Float))) (constant z)

theorem equal_zeroSample : Library.least.Congruent ∧ (zeroSample 0.0).hasNames = true ∧
    (zeroSample (-0.0)).hasNames = true ∧
    (zeroSample 0.0).AllConstants Doubles.IsFinite ∧
    (zeroSample (-0.0)).AllConstants Doubles.IsFinite ∧
    zeroSample 0.0 == zeroSample (-0.0) ∧
    (zeroSample 0.0).toInfix = (zeroSample (-0.0)).toInfix ∧
    (zeroSample 0.0).simplify 1 == (zeroSample (-0.0)).simplify 1 := by
  have hlib := Doubles.regular_least.congruent
  have hconstants {z : Float} (hz : Kernel.isFinite z = true) :
      (zeroSample z).AllConstants Doubles.IsFinite := by
    refine allConstants_binary.2 ⟨allConstants_binary.2 ⟨?_, ?_⟩, ?_⟩
    · exact allConstants_unary.2 (allConstants_var _)
    · exact allConstants_constant.2 (by exact (by decide +kernel : Kernel.isFinite (-2.0 : Float)))
    · exact allConstants_constant.2 hz
  have htc := hconstants (by decide +kernel : Kernel.isFinite (0.0 : Float) = true)
  have huc := hconstants (by decide +kernel : Kernel.isFinite (-0.0 : Float) = true)
  obtain ⟨htext, hequal⟩ := equal_iff_toInfix hlib (t := zeroSample 0.0) (u := zeroSample (-0.0))
    rfl rfl htc huc
  have h : zeroSample 0.0 == zeroSample (-0.0) := by
    have hz : Kernel.eq (0.0 : Float) (-0.0) = true := by decide +kernel
    have hn : Kernel.eq (-2.0 : Float) (-2.0) = true := by decide +kernel
    exact Alike.beq (.binary _ (.binary _ (.unary _ (.var _)) (.constant hn)) (.constant hz))
  exact ⟨hlib, rfl, rfl, htc, huc, h, htext.1 h, (hequal h).2.2.2.1 1 1⟩

end Term

end Formula
