import Formula.Postfix.Machine
import Formula.Postfix.Parse
import Formula.Proofs.Result

/-!
Replaying sequences that count out.  The number of values that a sequence is counted to leave
(`depthAfter?`) is the height of the stack of any machine that replays it, as long as no token fails
that finds its operands: the count alone then decides that a run succeeds (`Machine.exists_of_run`)
and leaves one value (`Machine.exists_of_replay`).
-/

namespace Formula

theorem depthAfter?_append (depth : Nat) (s t : List Token) :
    depthAfter? depth (s ++ t) = depthAfter? depth s >>= fun n => depthAfter? n t := by
  induction s generalizing depth with
  | nil => rfl
  | cons u s ih =>
    simp only [List.cons_append, depthAfter?]
    cases u.kind.arity? with
    | none => rfl
    | some arity =>
      by_cases hlt : depth < arity
      · simp [hlt]
      · simp [hlt, ih]

namespace Machine

variable {α : Type} {m : Machine α} {P : α → Prop} {sequence : List Token}

/-- A token that finds its operands, values with a property, puts one such value in their place. -/
def Serves (m : Machine α) (P : α → Prop) (t : Token) : Prop :=
  ∀ {stack : List α} {n : Nat}, (∀ v ∈ stack, P v) → t.kind.arity? = some n → n ≤ stack.length →
    ∃ stack', m.step stack t = .ok stack' ∧ stack'.length = stack.length + 1 - n ∧ ∀ v ∈ stack', P v

/-- A token is served if what it stands for always has the property. -/
theorem serves_of_ok {t : Token}
    (hnumber : t.kind = .number → ∃ v, m.number t.text = .ok v ∧ P v)
    (hname : t.kind = .identifier → ∃ v, m.name t.text = .ok v ∧ P v)
    (hoperator : t.kind = .operator → ∀ left right, P left → P right →
      ∃ v, m.operator t.text left right = .ok v ∧ P v)
    (hfunction : t.kind = .function → ∀ arg, P arg → ∃ v, m.function t.text arg = .ok v ∧ P v) :
    m.Serves P t := by
  intro stack n hstack harity hn
  obtain ⟨kind, text⟩ := t
  cases kind with
  | number =>
    cases harity
    obtain ⟨v, hv, hP⟩ := hnumber rfl
    exact ⟨v :: stack, by rw [step, hv, map_ok], rfl, List.forall_mem_cons.2 ⟨hP, hstack⟩⟩
  | identifier =>
    cases harity
    obtain ⟨v, hv, hP⟩ := hname rfl
    exact ⟨v :: stack, by rw [step, hv, map_ok], rfl, List.forall_mem_cons.2 ⟨hP, hstack⟩⟩
  | operator =>
    cases harity
    match stack, hn with
    | right :: left :: stack, _ =>
      obtain ⟨hright, hrest⟩ := List.forall_mem_cons.1 hstack
      obtain ⟨hleft, hstack⟩ := List.forall_mem_cons.1 hrest
      obtain ⟨v, hv, hP⟩ := hoperator rfl left right hleft hright
      exact ⟨v :: stack, by rw [step, hv, map_ok], rfl, List.forall_mem_cons.2 ⟨hP, hstack⟩⟩
  | function =>
    cases harity
    match stack, hn with
    | arg :: stack, _ =>
      obtain ⟨harg, hstack⟩ := List.forall_mem_cons.1 hstack
      obtain ⟨v, hv, hP⟩ := hfunction rfl arg harg
      exact ⟨v :: stack, by rw [step, hv, map_ok], rfl, List.forall_mem_cons.2 ⟨hP, hstack⟩⟩
  | leftParen => cases harity
  | rightParen => cases harity

/-- A run that lacks no operand leaves as many values as it is counted to leave. -/
theorem exists_of_run (hsequence : ∀ t ∈ sequence, m.Serves P t) {stack : List α}
    (hstack : ∀ v ∈ stack, P v) {n : Nat} (hdepth : depthAfter? stack.length sequence = some n) :
    ∃ stack', m.run stack sequence = .ok stack' ∧ stack'.length = n ∧ ∀ v ∈ stack', P v := by
  induction sequence generalizing stack with
  | nil =>
    cases hdepth
    exact ⟨stack, rfl, rfl, hstack⟩
  | cons t ts ih =>
    obtain ⟨ht, hts⟩ := List.forall_mem_cons.1 hsequence
    rw [depthAfter?, Option.bind_eq_bind, Option.bind_eq_some_iff] at hdepth
    obtain ⟨arity, harity, hdepth⟩ := hdepth
    split at hdepth
    · cases hdepth
    · rename_i hlt
      -- the depth that is counted is the length of the stack
      obtain ⟨between, hstep, hlength, hbetween⟩ := ht hstack harity (Nat.not_lt.1 hlt)
      rw [← hlength] at hdepth
      obtain ⟨stack', hrun, hlast, hstack'⟩ := ih hts hbetween hdepth
      refine ⟨stack', ?_, hlast, hstack'⟩
      rw [run_cons, hstep, ok_bind, hrun]

/-- A replay succeeds if the run leaves one value and nothing else. -/
theorem replay_ok_iff {v : α} : m.replay sequence = .ok v ↔ m.run [] sequence = .ok [v] := by
  rw [replay, bind_eq_ok]
  constructor
  · rintro ⟨stack, hrun, hstack⟩
    rcases stack with _ | ⟨w, _ | ⟨u, stack⟩⟩
    · cases hstack
    · cases hstack
      exact hrun
    · cases hstack
  · exact fun hrun => ⟨[v], hrun, rfl⟩

/-- A sequence that counts out to one value makes one. -/
theorem exists_of_replay (hsequence : ∀ t ∈ sequence, m.Serves P t)
    (hwell : isWellFormed sequence = true) : ∃ v, m.replay sequence = .ok v ∧ P v := by
  have hdepth : depthAfter? ([] : List α).length sequence = some 1 := eq_of_beq hwell
  obtain ⟨stack, hrun, hlength, hstack⟩ := exists_of_run hsequence (by simp) hdepth
  obtain ⟨v, rfl⟩ := List.length_eq_one_iff.1 hlength
  exact ⟨v, replay_ok_iff.2 hrun, hstack v List.mem_cons_self⟩

end Machine

end Formula
