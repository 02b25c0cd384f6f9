import Clausal.Algorithm
import Clausal.Proofs.Elimination.Satisfiability
import Clausal.Proofs.Saturation.Closure
import Clausal.Proofs.Search.Refinement

/-!
# Every method gives the verdict that is true

A fresh solver of any method answers without a fault, and its verdict is that of the formula.  For
who only looks at verdicts the three methods are one.
-/

namespace Clausal

/-- The verdict is the true one. -/
def Verdict.IsTrueOf (verdict : Verdict) (f : Formula) : Prop := verdict = .sat ↔ f.Satisfiable

variable {f : Formula} {verdict : Verdict}

theorem Verdict.unsat_isTrueOf (h : ¬ f.Satisfiable) : Verdict.unsat.IsTrueOf f :=
  iff_of_false nofun h

theorem Verdict.sat_isTrueOf (h : f.Satisfiable) : Verdict.sat.IsTrueOf f := iff_of_true rfl h

/-- A true verdict is the expected one just if the expected one is true. -/
theorem Verdict.IsTrueOf.eq_iff (h : verdict.IsTrueOf f) (expected : Verdict) :
    verdict = expected ↔ expected.IsTrueOf f := by
  constructor
  · rintro rfl
    exact h
  · intro he
    cases expected with
    | sat => exact h.mpr (he.mp rfl)
    | unsat =>
        cases verdict with
        | sat => exact absurd (he.mpr (h.mp rfl)) nofun
        | unsat => rfl

namespace Saturation

/-- The verdict of saturation is right. -/
theorem verdict_start (f : Formula) : (start f).solve.1.verdict.IsTrueOf f := by
  have hsolve : (start f).solve.1 = (start f).saturate.1.solution := rfl
  rw [hsolve]
  rcases saturate_cases f with ⟨ho, he⟩ | ⟨ho, he⟩
  · rw [ho]
    exact Verdict.unsat_isTrueOf (derivable_empty_iff.mp he)
  · rw [ho]
    exact Verdict.sat_isTrueOf
      (Classical.not_not.mp fun hn => he (derivable_empty_iff.mpr hn))

end Saturation

namespace Elimination

/-- The verdict of elimination is right. -/
theorem verdict_start (f : Formula) : (start f).solve.1.verdict.IsTrueOf f := by
  obtain ⟨hunsat, hsat⟩ := (start_faithful f).solve_iff
  rcases solve_ends (start f) with ⟨ho, _⟩ | ⟨ho, _⟩
  · rw [ho]
    exact Verdict.sat_isTrueOf (hsat.mp ho)
  · rw [ho]
    exact Verdict.unsat_isTrueOf (hunsat.mp ho)

end Elimination

namespace Search

/-- A search returns, and its verdict is right. -/
theorem verdict_start (f : Formula) : ∃ answer s, (start f).solve = .ok (answer, s) ∧
    answer.verdict.IsTrueOf f := by
  have hdecides : ((Residual.start f).explore 0 {}).1.isSome = true ↔ f.Satisfiable :=
    Residual.explore_isSome_iff
  cases h : (Residual.start f).explore 0 {} with
  | mk result k =>
      rw [h] at hdecides
      cases result with
      | some found =>
          obtain ⟨m, hsolve, _⟩ := solve_of_found h
          exact ⟨_, _, hsolve, Verdict.sat_isTrueOf (hdecides.mp rfl)⟩
      | none =>
          exact ⟨_, _, solve_of_none h, Verdict.unsat_isTrueOf fun hs => nomatch hdecides.mpr hs⟩

end Search

/-- Any method answers, and gives the true verdict. -/
theorem Algorithm.verdict_solve (a : Algorithm) (f : Formula) :
    ∃ answer stats, a.solve f = .ok (answer, stats) ∧ answer.verdict.IsTrueOf f := by
  cases a with
  | resolution => exact ⟨_, _, rfl, Saturation.verdict_start f⟩
  | elimination => exact ⟨_, _, rfl, Elimination.verdict_start f⟩
  | search =>
      obtain ⟨answer, s, hsolve, htrue⟩ := Search.verdict_start f
      refine ⟨answer, s.journal.stats, ?_, htrue⟩
      rw [solve, hsolve]
      rfl

end Clausal
