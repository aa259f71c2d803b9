import Formula.Postfix.Shader
import Formula.Proofs.Postfix.Variables
import Formula.Proofs.Token.Spelling

/-!
What an accepted text is good for.  Its sequence has a tree, source text in both dialects and a
shader, and it has a value as soon as its variables have one; if some have none, evaluation names
the one that the text mentions first (`evaluate_of_parse`).

Main statement: a text is rejected for its tokens or its grammar, or its sequence can be used for
all of this (`parse_usable`).
-/

namespace Formula

open Token

/-! ### Rejected texts -/

theorem kind_of_tokenize {source : String} {f : Fault} (h : tokenize source = .error f) :
    f.kind = .lexical ∨ f.kind = .grammatical := by
  simp only [tokenize] at h
  split at h
  · split at h
    · cases h
    · cases h
      exact .inl rfl
    · cases h
      exact .inl rfl
  · cases h
    exact .inr rfl

/-- Parsing fails in no other ways than the two that it is said to. -/
theorem kind_of_parse {source : String} {f : Fault} (h : parse source = .error f) :
    f.kind = .lexical ∨ f.kind = .grammatical := by
  cases htokens : tokenize source with
  | error g =>
    rw [parse, htokens] at h
    cases h
    exact kind_of_tokenize htokens
  | ok tokens =>
    rcases parse_eq_ok_or_mismatched htokens with ⟨sequence, hparse⟩ | hparse
    · cases hparse.symm.trans h
    · cases hparse.symm.trans h
      exact .inr rfl

/-! ### The first variable without a value -/

section FirstUnbound

variable {K : Type}

/-- The text mentions a variable that has no value, and none such before it: what stands in front of
the name has its own tokens, and all variables among them have values. -/
def FirstUnbound (source : String) (env : Environment K) (x : String) : Prop :=
  ∃ before after front back, tokenize source = .ok (before ++ ⟨.identifier, x⟩ :: after) ∧
    source.toList = front ++ (x.toList ++ back) ∧ Spelling before front ∧ Spelling after back ∧
    isFunctionName x = false ∧ env.lookup x = none ∧
    ∀ t ∈ before, t.namesVariable = true → (env.lookup t.text).isSome = true

theorem FirstUnbound.lookup_eq {source : String} {env : Environment K} {x : String}
    (h : FirstUnbound source env x) : env.lookup x = none := by
  obtain ⟨-, -, -, -, -, -, -, -, -, hlookup, -⟩ := h
  exact hlookup

/-- A list can be cut at the first of the selected tokens that pass a test. -/
theorem exists_first {selected test : Token → Bool} {ts : List Token} {t : Token}
    (h : (ts.filter selected).find? test = some t) :
    ∃ before after, ts = before ++ t :: after ∧ selected t = true ∧ test t = true ∧
      ∀ u ∈ before, selected u = true → test u = false := by
  rw [List.find?_filter, List.find?_eq_some_iff_append] at h
  obtain ⟨ht, before, after, rfl, hbefore⟩ := h
  obtain ⟨hselected, htest⟩ := of_decide_eq_true ht
  refine ⟨before, after, rfl, hselected, htest, fun u hu hsel => ?_⟩
  simpa [hsel] using hbefore u hu

end FirstUnbound

/-! ### Accepted texts -/

theorem Token.Arranged.isKnown {t : Token} (h : t.Arranged) : t.isKnown = true := by
  cases h with
  | number s =>
    show (Numeral.ofString? (String.ofList s.chars)).isSome = true
    rw [NumberText.ofString?_chars]
    rfl
  | operator op => cases op <;> rfl
  | function f => cases f <;> rfl
  | name h => rfl
  | opening => rfl
  | closing => rfl

theorem known_of_parse {source : String} {sequence : List Token}
    (h : parse source = .ok sequence) :
    (∀ t ∈ sequence, t.isKnown = true) ∧ isWellFormed sequence = true := by
  obtain ⟨harranged, hwell⟩ := arranged_of_parse h
  exact ⟨fun t ht => (harranged t ht).isKnown, hwell⟩

section Accepted

variable {K : Type} [Kernel K] [Literal K] {source : String} {sequence : List Token}

/-- **An accepted text has a value, or else evaluation names the first variable without one.** -/
theorem evaluate_of_parse (h : parse source = .ok sequence) {bindings : Bindings K}
    {env : Environment K} (henv : bindings.toEnvironment = .ok env) :
    ((∀ x ∈ freeVariables sequence, (env.lookup x).isSome = true) ∧
      ∃ z, evaluate sequence bindings = .ok z) ∨
    ∃ x ∈ freeVariables sequence, FirstUnbound source env x ∧
      evaluate sequence bindings = .error (.unbound x) := by
  obtain ⟨hknown, hwell⟩ := known_of_parse h
  obtain ⟨tokens, htokens, hvariables⟩ := variables_of_parse h
  cases hfind : (sequence.filter isVariable).find? fun t => (env.lookup t.text).isNone with
  | none =>
    left
    have hbound : ∀ x ∈ freeVariables sequence, (env.lookup x).isSome = true := by
      intro x hx
      have hmem := List.mem_filter.2 ⟨mem_freeVariables.1 hx, (rfl : isVariable _ = true)⟩
      simpa using List.find?_eq_none.1 hfind _ hmem
    exact ⟨hbound, (decidedBy_evaluate hknown henv hbound).exists_ok hwell⟩
  | some t =>
    right
    -- the same token is the first one in the sequence and in the text
    obtain ⟨front, back, rfl, hvariable, hnone, hfront⟩ := exists_first hfind
    rw [hvariables] at hfind
    obtain ⟨before, after, rfl, hname, -, hbefore⟩ := exists_first hfind
    obtain ⟨kind, x⟩ := t
    obtain rfl : kind = .identifier := beq_iff_eq.1 hvariable
    obtain ⟨head, tail, hsource, hhead, htail⟩ := (tokenize_ok_iff_spelling.1 htokens).2.cut
    have hfree : isFunctionName x = false := by simpa [namesVariable] using hname
    have hlookup : env.lookup x = none := by simpa using hnone
    refine ⟨x, mem_freeVariables.2 (by simp), ?_, ?_⟩
    · refine ⟨before, after, head, tail, htokens, hsource, hhead, htail, hfree, hlookup, ?_⟩
      exact fun u hu hu' => by simpa using hbefore u hu hu'
    · refine evaluate_of_unbound (fun u hu => hknown u (List.mem_append_left _ hu)) hwell henv
        (fun u hu hu' => ?_) hlookup
      simpa using hfront u hu hu'

end Accepted

/-- A sequence can be used for everything that sequences are there for. -/
structure Usable (K : Type) [Kernel K] [Literal K] (source : String) (sequence : List Token) :
    Prop where
  tree : ∃ t : Tree K, Term.ofPostfix sequence = .ok t
  text : ∀ dialect ∈ [Dialect.glsl, Dialect.plain], ∃ s, dialect.render K sequence = .ok s
  shader : ∀ reserved, ∃ s, Shader.ofSequence K reserved sequence = .ok s
  /-- Evaluation fails exactly if some variable has no value. -/
  fails_iff : ∀ (bindings : Bindings K) (env : Environment K),
    bindings.toEnvironment = .ok env → ((∃ f, evaluate sequence bindings = .error f) ↔
      ∃ x ∈ freeVariables sequence, env.lookup x = none)
  /-- It then names the one of them that comes first in the text. -/
  fault : ∀ (bindings : Bindings K) (env : Environment K) (f : Fault),
    bindings.toEnvironment = .ok env → evaluate sequence bindings = .error f →
      f.kind = .evaluation ∧
        ∃ x ∈ freeVariables sequence, f = .unbound x ∧ FirstUnbound source env x
  /-- Values of other names do not matter. -/
  value_congr : ∀ (bindings bindings' : Bindings K) (env env' : Environment K),
    bindings.toEnvironment = .ok env → bindings'.toEnvironment = .ok env' →
      (∀ x ∈ freeVariables sequence, env'.lookup x = env.lookup x) →
        evaluate sequence bindings' = evaluate sequence bindings

theorem usable_of_parse (K : Type) [Kernel K] [Literal K] {source : String}
    {sequence : List Token} (h : parse source = .ok sequence) : Usable K source sequence := by
  obtain ⟨hknown, hwell⟩ := known_of_parse h
  have hrender {d : Dialect} (hd : d.IsComplete) : ∃ s, d.render K sequence = .ok s :=
    (hd.decidedBy_render K hknown).exists_ok hwell
  refine ⟨?_, ?_, ?_, ?_, ?_, ?_⟩
  · obtain ⟨t, ht, -⟩ :=
      Machine.exists_of_replay (fun u hu => Term.serves_known (K := K) (hknown u hu)) hwell
    exact ⟨t, ht⟩
  · intro dialect hdialect
    rcases List.mem_pair.1 hdialect with rfl | rfl
    · exact hrender Dialect.isComplete_glsl
    · exact hrender Dialect.isComplete_plain
  · intro reserved
    obtain ⟨body, hbody⟩ := hrender Dialect.isComplete_glsl
    exact ⟨_, by rw [Shader.ofSequence, hbody]; rfl⟩
  · intro bindings env henv
    rcases evaluate_of_parse h henv with ⟨hbound, z, hz⟩ | ⟨x, hx, hfirst, hfault⟩
    · refine iff_of_false ?_ ?_
      · rintro ⟨f, hf⟩
        cases hz.symm.trans hf
      · rintro ⟨x, hx, hlookup⟩
        have hsome := hbound x hx
        rw [hlookup] at hsome
        cases hsome
    · exact iff_of_true ⟨_, hfault⟩ ⟨x, hx, hfirst.lookup_eq⟩
  · intro bindings env f henv hf
    rcases evaluate_of_parse h henv with ⟨-, z, hz⟩ | ⟨x, hx, hfirst, hfault⟩
    · cases hz.symm.trans hf
    · cases hfault.symm.trans hf
      exact ⟨rfl, x, hx, rfl, hfirst⟩
  · exact fun bindings bindings' env env' henv henv' => evaluate_congr henv henv'

/-- **Parsing fails in the two documented ways only, and what it accepts can be used for
everything.** -/
theorem parse_usable (K : Type) [Kernel K] [Literal K] (source : String) :
    (∃ f, parse source = .error f ∧ (f.kind = .lexical ∨ f.kind = .grammatical)) ∨
      ∃ sequence, parse source = .ok sequence ∧ Usable K source sequence := by
  cases h : parse source with
  | error f => exact .inl ⟨f, rfl, kind_of_parse h⟩
  | ok sequence => exact .inr ⟨sequence, rfl, usable_of_parse K h⟩

end Formula
