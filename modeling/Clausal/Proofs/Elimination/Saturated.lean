import Clausal.Proofs.Elimination.Projected
import Clausal.Proofs.Saturation.WorkingSet

/-!
# Elimination inside the closure

The clauses that elimination works with are resolvents, so it never leaves what resolution derives
from the formula (`WithinClosure`).  What it eliminates does not come back, since a resolvent has
no other variables than the two clauses.

On clauses that are `Closed` under resolution an elimination finds nothing that is new: the
resolvents on a variable are there already, and they do not mention it, so they are among the
clauses that stay.  The clauses that stay are closed again (`Closed.eliminate`).  So a whole
sequence of eliminations only takes clauses away.
-/

namespace Clausal

namespace Elimination

variable {f : Formula} {s : Elimination} {v : Variable} {vs : List Variable} {cs : List Clause}

/-- Eliminate some variables, one after the other: how each elimination ends, and the solver after
them. -/
def eliminateEach (s : Elimination) : List Variable → List Outcome × Elimination
  | [] => ([], s)
  | v :: vs =>
      let (outcome, s) := s.eliminate v
      let (outcomes, s) := s.eliminateEach vs
      (outcome :: outcomes, s)

theorem eliminateEach_cons (s : Elimination) (v : Variable) (vs : List Variable) :
    s.eliminateEach (v :: vs) =
      ((s.eliminate v).1 :: ((s.eliminate v).2.eliminateEach vs).1,
        ((s.eliminate v).2.eliminateEach vs).2) := rfl

/-! ## Inside the closure -/

/-- Resolution derives every clause of the working formula. -/
def WithinClosure (cs : List Clause) (s : Elimination) : Prop :=
  ∀ c ∈ s.working.toList, Derivable cs c

theorem start_withinClosure (f : Formula) : WithinClosure f.clauses (start f) := by
  intro c hc
  obtain ⟨hcf, ht⟩ := List.mem_filter.mp (ClauseSet.mem_ofList.mp hc)
  exact .given hcf (by simpa using ht)

/-- An elimination adds resolvents only, and these are derivable. -/
theorem WithinClosure.eliminate (h : WithinClosure cs s) :
    WithinClosure cs (s.eliminate v).2 := by
  intro c hc
  rcases mem_working_eliminate.mp hc with ho | hr
  · exact h c (mem_others.mp ho).1
  · obtain ⟨a, ha, b, hb, hab, ht⟩ := exists_parents hr
    exact .resolvent (h a ha) (h b hb) hab ht

theorem WithinClosure.eliminateEach (h : WithinClosure cs s) :
    WithinClosure cs (s.eliminateEach vs).2 := by
  induction vs generalizing s with
  | nil => exact h
  | cons v vs ih => exact ih h.eliminate

/-- Variables that have been eliminated do not come back. -/
theorem mem_vars_of_eliminateEach {u : Variable} (h : u ∈ (s.eliminateEach vs).2.vars) :
    u ∈ s.vars ∧ u ∉ vs := by
  induction vs generalizing s with
  | nil => exact ⟨h, List.not_mem_nil⟩
  | cons v vs ih =>
      obtain ⟨hu, hvs⟩ := ih h
      obtain ⟨hs, hv⟩ := mem_vars_of_eliminate hu
      exact ⟨hs, by simp [hv, hvs]⟩

/-- A variable that was eliminated does not come back. -/
theorem mentions_eliminateEach {c : Clause} (hc : c ∈ (s.eliminateEach vs).2.working.toList)
    (hv : v ∈ vs) : c.mentions v = false := by
  rw [Bool.eq_false_iff, ne_eq, Clause.mentions_iff]
  intro ⟨l, hl, hlv⟩
  exact (mem_vars_of_eliminateEach (mem_vars.mpr ⟨c, hc, l, hl, hlv⟩)).2 hv

/-! ## Closed working formulas -/

/-- Every resolvent of two clauses of the working formula is there, and the empty clause is not. -/
structure Closed (s : Elimination) : Prop where
  mem_of_resolve : ∀ a ∈ s.working.toList, ∀ b ∈ s.working.toList, ∀ u c,
    a.resolve b u = some c → c.isTautology = false → c ∈ s.working.toList
  empty_not_mem : Clause.empty ∉ s.working.toList

/-- The resolvents on a variable are among the clauses that do not mention it. -/
theorem Closed.resolvents_subset (h : s.Closed) :
    resolvents v (s.positives v) (s.negatives v) ⊆ s.others v := by
  intro c hc
  obtain ⟨a, ha, b, hb, hab, ht⟩ := exists_parents hc
  exact mem_others.mpr ⟨h.mem_of_resolve a ha b hb v c hab ht,
    fun l hl => Clause.var_ne_of_mem_resolve hab hl⟩

/-- An elimination leaves the clauses that do not mention the variable. -/
theorem Closed.working_eliminate (h : s.Closed) :
    (s.eliminate v).2.working.toList = s.others v := by
  have hadded : ((resolvents v (s.positives v) (s.negatives v)).filter
      fun c => !decide (c ∈ s.others v)) = [] :=
    List.filter_eq_nil_iff.mpr fun c hc => by simpa using h.resolvents_subset hc
  rw [working_eliminate_eq, hadded, List.eraseDups_nil, List.append_nil]

/-- No elimination is refuted among clauses that are closed: its empty resolvent would be one of
them. -/
theorem Closed.outcome_eliminate (h : s.Closed) : (s.eliminate v).1 = .eliminated := by
  cases ho : (s.eliminate v).1 with
  | eliminated => rfl
  | refuted =>
      have hm := h.resolvents_subset (refuted_iff.mp ho)
      exact absurd (mem_others.mp hm).1 h.empty_not_mem

/-- Clauses that are closed under resolution stay so: the resolvent of two that stay is there, and
does not mention the variable. -/
theorem Closed.eliminate (h : s.Closed) : (s.eliminate v).2.Closed where
  mem_of_resolve := by
    intro a ha b hb u c hab ht
    rw [h.working_eliminate, mem_others] at ha hb ⊢
    refine ⟨h.mem_of_resolve a ha.1 b hb.1 u c hab ht, fun l hl => ?_⟩
    exact (Clause.mem_of_mem_resolve hab hl).elim (ha.2 l) (hb.2 l)
  empty_not_mem := by
    rw [h.working_eliminate, mem_others]
    exact fun hm => h.empty_not_mem hm.1

/-- Eliminations on a closed formula leave the clauses that mention none of the variables, in
order. -/
theorem Closed.eliminateEach (h : s.Closed) (vs : List Variable) :
    (s.eliminateEach vs).1 = List.replicate vs.length .eliminated ∧
      (s.eliminateEach vs).2.working.toList =
        s.working.toList.filter fun c => vs.all fun v => !c.mentions v := by
  induction vs generalizing s with
  | nil => exact ⟨rfl, (List.filter_eq_self.mpr fun _ _ => rfl).symm⟩
  | cons v vs ih =>
      obtain ⟨houtcomes, hworking⟩ := ih (h.eliminate (v := v))
      rw [eliminateEach_cons, houtcomes, hworking, h.outcome_eliminate, h.working_eliminate, others,
        List.filter_filter]
      simp [List.replicate_succ, Bool.and_comm]

/-! ## Saturated clauses -/

/-- A solver of distinct clauses that are no tautologies begins with just these. -/
theorem working_start (hnodup : cs.Nodup) (ht : ∀ c ∈ cs, c.isTautology = false) :
    (start (.ofClauses cs)).working.toList = cs :=
  ClauseSet.toList_ofProper_of_nodup hnodup ht

/-- The clauses of a closure without the empty clause make a closed working formula. -/
theorem closed_of_derivable (hempty : ¬ Derivable cs .empty)
    (hs : ∀ c, c ∈ s.working.toList ↔ Derivable cs c) : s.Closed where
  mem_of_resolve := fun a ha b hb _ c hab ht =>
    (hs c).mpr (.resolvent ((hs a).mp ha) ((hs b).mp hb) hab ht)
  empty_not_mem := mt (hs .empty).mp hempty

/-- The clauses that a saturation of the formula ends with. -/
def saturatedClauses (f : Formula) : List Clause :=
  (Saturation.start f).saturate.2.working.toList

/-- A saturation that ends without the empty clause ends with what resolution derives. -/
theorem mem_saturatedClauses (h : (Saturation.start f).saturate.1 = .saturated) :
    ¬ Derivable f.clauses .empty ∧ ∀ c, c ∈ saturatedClauses f ↔ Derivable f.clauses c := by
  rcases Saturation.saturate_cases f with ⟨ho, _⟩ | ⟨_, hd⟩
  · rw [ho] at h; cases h
  · have he : Clause.empty ∉ f.clauses := fun hm => hd (.given hm rfl)
    exact ⟨hd, ((Saturation.Reached.start (f := f)).saturate_iff he).2 h⟩

/-- Elimination from a formula that saturates works with clauses of the saturated set, and none of
them mentions a variable that has been eliminated.  Elimination from the saturated set never finds
the empty clause and only takes away the clauses that mention one of the variables. -/
theorem eliminateEach_of_saturated (h : (Saturation.start f).saturate.1 = .saturated)
    (vs : List Variable) :
    (∀ c ∈ ((start f).eliminateEach vs).2.working.toList,
      c ∈ saturatedClauses f ∧ ∀ v ∈ vs, c.mentions v = false) ∧
    ((start (.ofClauses (saturatedClauses f))).eliminateEach vs).1 =
      List.replicate vs.length .eliminated ∧
    ((start (.ofClauses (saturatedClauses f))).eliminateEach vs).2.working.toList =
      (saturatedClauses f).filter fun c => vs.all fun v => !c.mentions v := by
  obtain ⟨hempty, hderivable⟩ := mem_saturatedClauses h
  refine ⟨fun c hc => ?_, ?_⟩
  · have hd := (start_withinClosure f).eliminateEach c hc
    exact ⟨(hderivable c).mpr hd, fun v hv => mentions_eliminateEach hc hv⟩
  · have hworking : (start (.ofClauses (saturatedClauses f))).working.toList =
        saturatedClauses f :=
      working_start (Saturation.start f).saturate.2.working.toList_nodup
        fun c hc => ((hderivable c).mp hc).isTautology_eq_false
    have hclosed := closed_of_derivable hempty fun c => by rw [hworking]; exact hderivable c
    have heach := hclosed.eliminateEach vs
    rw [hworking] at heach
    exact heach

/-- `(x1 ∨ x2) ∧ (¬x1 ∨ x3)`: one resolvent, on the first variable. -/
def linkedFormula : Formula :=
  .ofClauses [.ofLiterals [⟨.x1, true⟩, ⟨.x2, true⟩], .ofLiterals [⟨.x1, false⟩, ⟨.x3, true⟩]]

/-- From the three saturated clauses the first variable takes two, and nothing the second time. -/
theorem eliminateEach_linkedFormula : ∃ v : Variable,
    (Saturation.start linkedFormula).saturate.1 = .saturated ∧
    (saturatedClauses linkedFormula).map Clause.text = ["(x1 ∨ x2)", "(¬x1 ∨ x3)", "(x2 ∨ x3)"] ∧
    (∀ c ∈ ((start linkedFormula).eliminateEach [v, v]).2.working.toList,
      c ∈ saturatedClauses linkedFormula) ∧
    ((start (.ofClauses (saturatedClauses linkedFormula))).eliminateEach [v, v]).1 =
      [.eliminated, .eliminated] ∧
    ((start (.ofClauses (saturatedClauses linkedFormula))).eliminateEach
      [v, v]).2.working.toList.map Clause.text = ["(x2 ∨ x3)"] := by
  have h : (Saturation.start linkedFormula).saturate.1 = .saturated := by decide +kernel
  refine ⟨.x1, h, by decide +kernel, ?_⟩
  obtain ⟨hwithin, houtcomes, hworking⟩ := eliminateEach_of_saturated h [.x1, .x1]
  refine ⟨fun c hc => (hwithin c hc).1, houtcomes, ?_⟩
  rw [hworking]
  decide +kernel

end Elimination

end Clausal
