import Formula.Proofs.Tree.Listing
import Formula.Proofs.Tree.Variables

/-!
The tokens of a sequence are those of the nodes of its tree.  A listing has one token for each node
(`listing_perm`), so that whatever is said of the tokens of a sequence, up to the texts of its
numbers, is said of the nodes of the tree (`forall_token_iff`).
-/

namespace Formula

section Same

variable {K : Type} [Literal K] {ts us : List Token}

theorem Token.Same.symm {t u : Token} (h : t.Same K u) : u.Same K t := by
  rcases h with rfl | ⟨ht, hu, x, hx, hx'⟩
  · exact .inl rfl
  · exact .inr ⟨hu, ht, x, hx', hx⟩

/-- A token that is no number is the same only as itself. -/
theorem Token.Same.eq {t u : Token} (h : t.Same K u) (hu : u.kind ≠ .number) : t = u := by
  rcases h with h | ⟨-, hkind, -⟩
  · exact h
  · exact absurd hkind hu

theorem forall_mem_of_same {Q : Token → Prop} (hQ : ∀ {t u : Token}, t.Same K u → Q t → Q u)
    (h : List.Forall₂ (Token.Same K) ts us) : (∀ t ∈ ts, Q t) ↔ ∀ u ∈ us, Q u := by
  induction h with
  | nil => exact Iff.rfl
  | cons hsame _ ih =>
    rw [List.forall_mem_cons, List.forall_mem_cons, ih]
    exact and_congr_left' ⟨hQ hsame, hQ hsame.symm⟩

end Same

namespace Term

variable {K : Type} [Literal K]

/-- The token of the root of a tree. -/
def token : Tree K → Token
  | constant c => ⟨.number, (Literal.toNumeral c).plainText⟩
  | var x => ⟨.identifier, x⟩
  | binary op _ _ => Token.ofOperator op
  | unary f _ => Token.ofFunc f

/-- A listing has a token for each node. -/
theorem listing_perm (t : Tree K) : t.listing.Perm (t.depthFirst.map token) := by
  induction t with
  | constant c => exact .refl _
  | var x => exact .refl _
  | binary op left right ihl ihr =>
    have hlisting : (binary op left right).listing =
        left.listing ++ right.listing ++ [Token.ofOperator op] := rfl
    rw [hlisting, depthFirst, List.map_cons, List.map_append]
    exact List.perm_append_comm.trans (.cons _ (ihl.append ihr))
  | unary f arg ih =>
    have hlisting : (unary f arg).listing = arg.listing ++ [Token.ofFunc f] := rfl
    rw [hlisting, depthFirst, List.map_cons]
    exact List.perm_append_comm.trans (.cons _ ih)

variable (hread : ∀ x : K, readScalar (Literal.toNumeral x).plainText = .ok x)
  {sequence : List Token} {t : Tree K} (h : ofPostfix sequence = .ok t)

include hread h

/-- **What holds of all tokens holds of all nodes.** -/
theorem forall_token_iff {Q : Token → Prop} (hQ : ∀ {t u : Token}, t.Same K u → Q t → Q u) :
    (∀ u ∈ sequence, Q u) ↔ ∀ s ∈ t.depthFirst, Q s.token := by
  rw [← forall_mem_of_same hQ (listing_of_ofPostfix hread h)]
  simp only [(listing_perm t).mem_iff, List.forall_mem_map]

/-- A token that is no number stands in a sequence if a node of the tree has it. -/
theorem mem_sequence_iff {u : Token} (hu : u.kind ≠ .number) :
    u ∈ sequence ↔ ∃ s ∈ t.depthFirst, s.token = u := by
  have hnot : (∀ v ∈ sequence, v ≠ u) ↔ ∀ s ∈ t.depthFirst, s.token ≠ u :=
    forall_token_iff hread h (Q := fun v => v ≠ u) fun hsame hne heq => by
      subst heq
      exact hne (hsame.eq hu)
  simpa using not_congr hnot

/-- The variables of a sequence are those of its tree. -/
theorem mem_freeVariables_iff_occurs {x : String} : x ∈ freeVariables sequence ↔ Occurs x t := by
  rw [mem_freeVariables, mem_sequence_iff hread h (by simp), Occurs]
  constructor
  · rintro ⟨s, hs, hx⟩
    cases s with
    | var y =>
      cases hx
      exact hs
    | _ => cases hx
  · intro hx
    exact ⟨var x, hx, rfl⟩

end Term

end Formula
