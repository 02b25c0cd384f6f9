import Clausal.Proofs.Copies
import Clausal.Proofs.Search.Simulation

/-!
# Searches of formulas with copies

A copy has its own row, so it shifts the rows behind it, lengthens the lists of occurrences and
counts once more in both totals.  None of this is left in the simplified formula that a state
mirrors: there a copy is one more clause of the list, behind the clause that it equals, and every
rule looks for the first clause of a kind or for a literal in any clause.  So two simplified
formulas that are `Alike` call for the same step, and they are alike after it (`Alike.assign`).

So the runs of the textbook search from such formulas take the same steps and note the same events
(`simulation_alike`).  The searches that mirror them are `Twins`, and twins that are asked give
answers with the same values and are twins again (`Twins.solve`).
-/

namespace Clausal

open Search (Forced Event)

variable {f g : Formula} {r q : Residual}

namespace Residual

/-! ## Simplified formulas that call for the same steps -/

/-- Tests find the same in both formulas, and the same literals were made true. -/
structure Alike (r q : Residual) : Prop where
  clauses : FindAlike r.clauses q.clauses
  trail_eq : q.trail = r.trail

/-- Whether a literal is pure depends on which literals are left and not on how often. -/
theorem pureOver?_congr {ls ms : List Literal} (h : ∀ l, l ∈ ms ↔ l ∈ ls) :
    pureOver? ms = pureOver? ls := by
  funext v
  simp only [pureOver?, h]

namespace Alike

theorem status_eq (h : Alike r q) : q.status = r.status := by
  rw [Residual.status, Residual.status, h.clauses.any_eq, h.clauses.isEmpty_eq]

theorem vars_eq (h : Alike r q) : q.vars = r.vars := by
  refine Ascending.eq_of_mem_iff (Ascending.ofList_ascending _) (Ascending.ofList_ascending _) ?_
  intro v
  rw [mem_vars, mem_vars]
  simp only [h.clauses.mem_iff]

theorem unitLiteral?_eq (h : Alike r q) : q.unitLiteral? = r.unitLiteral? := by
  rw [unitLiteral?, unitLiteral?, h.clauses]

theorem pureLiteral?_eq (h : Alike r q) : q.pureLiteral? = r.pureLiteral? := by
  have hmem : ∀ l, l ∈ q.literals ↔ l ∈ r.literals := by
    simp only [literals, List.mem_flatMap, h.clauses.mem_iff, implies_true]
  rw [pureLiteral?, pureLiteral?, h.vars_eq, pureOver?_congr hmem]

/-- Formulas in which tests find the same force the same step. -/
theorem forced?_eq (h : Alike r q) : q.forced? = r.forced? := by
  rw [forced?, forced?, h.unitLiteral?_eq, h.pureLiteral?_eq]

theorem branch?_eq (h : Alike r q) : q.branch? = r.branch? := by
  rw [branch?, branch?, h.vars_eq]

/-- Formulas in which tests find the same do so after a literal was made true. -/
theorem assign (h : Alike r q) (l : Literal) : Alike (r.assign l) (q.assign l) where
  clauses := (h.clauses.filter _).map _
  trail_eq := congrArg (l :: ·) h.trail_eq

end Alike

/-- Alike formulas call for the very same steps, so one journal notes them for both. -/
theorem simulation_alike : Simulation Alike Eq Eq :=
  .of_eq Alike.status_eq Alike.forced?_eq Alike.branch?_eq (fun l h => h.assign l)
    (fun _ h => h ▸ rfl) (fun _ _ h => h ▸ rfl) (fun h => h ▸ rfl)

end Residual

namespace Search

open Residual (Reached)

/-! ## Searches that answer the same -/

/-- Searches of two formulas that mirror simplified formulas which are alike, with one journal. -/
inductive Twins (f g : Formula) : Search → Search → Prop where
  | mirror {r q : Residual} (j : Journal Event) : Reached f r → Reached g q → r.Alike q →
      Twins f g (mirror f r j) (mirror g q j)

theorem Twins.start (h : FindAlike f.clauses g.clauses) : Twins f g (start f) (start g) := by
  rw [mirror_start, mirror_start]
  exact .mirror {} (Residual.reached_start f) (Residual.reached_start g) ⟨h, rfl⟩

variable {s t : Search}

theorem Twins.journal_eq (h : Twins f g s t) : t.journal = s.journal := by
  cases h
  rfl

/-- Both answers are the same verdict, and their models give every variable the same value. -/
def SameAnswer (a b : Solution) : Prop :=
  b.verdict = a.verdict ∧ b.model?.map Model.value = a.model?.map Model.value

/-- Twins meet no fault, answer the same and are twins again. -/
theorem Twins.solve (h : Twins f g s t) : ∃ a s' b t', s.solve = .ok (a, s') ∧
    t.solve = .ok (b, t') ∧ SameAnswer a b ∧ Twins f g s' t' := by
  cases h with
  | @mirror r q j hr hq halike =>
      obtain ⟨x, y, hx, hy, hsolved⟩ := solve_simulation Residual.simulation_alike hr hq halike rfl
      cases hsolved with
      | unsat k _ hk =>
          cases hk
          exact ⟨_, _, _, _, hx, hy, ⟨rfl, rfl⟩, .mirror k hr hq halike⟩
      | sat found other k _ m m' hfound hother hrel hk hvalue hvalue' =>
          cases hk
          have hsame : m'.value = m.value := by
            funext v
            apply Option.ext
            intro b
            rw [hvalue, hvalue', hrel.trail_eq]
          exact ⟨_, _, _, _, hx, hy, ⟨rfl, congrArg some hsame⟩, .mirror k hfound hother hrel⟩

end Search

end Clausal
