import Clausal.Clause

/-!
# Resolvents

Two clauses clash on a variable when one of them holds its positive literal and
the other its negative one.  Their resolvent on it holds all other literals of
both.  A resolvent may be a tautology.
-/

namespace Clausal

namespace Clause

/-- The variables on which two clauses clash, in ascending order. -/
def clashingVariables (a b : Clause) : List Variable :=
  Ascending.ofList ((a.literals.filter fun l => decide (-l ∈ b)).map Literal.var)

/-- Whether two clauses hold complementary literals of the variable. -/
def clashesOn (a b : Clause) (v : Variable) : Bool :=
  (decide (⟨v, true⟩ ∈ a) && decide (⟨v, false⟩ ∈ b)) ||
    (decide (⟨v, false⟩ ∈ a) && decide (⟨v, true⟩ ∈ b))

/-- The clause of all literals of `a` and `b` that are not over `v`. -/
def joinWithout (v : Variable) (a b : Clause) : Clause :=
  ofLiterals ((a.literals ++ b.literals).filter fun l => l.var != v)

/-- The resolvent of two clauses on a variable, if they clash on it. -/
def resolve (a b : Clause) (v : Variable) : Option Clause :=
  if a.clashesOn b v then some (joinWithout v a b) else none

@[simp] theorem mem_joinWithout {v : Variable} {a b : Clause} {l : Literal} :
    l ∈ joinWithout v a b ↔ (l ∈ a ∨ l ∈ b) ∧ l.var ≠ v := by
  rw [joinWithout, mem_ofLiterals, List.mem_filter, List.mem_append, bne_iff_ne]
  rfl

@[simp] theorem mem_clashingVariables {a b : Clause} {v : Variable} :
    v ∈ a.clashingVariables b ↔ ∃ l ∈ a, -l ∈ b ∧ l.var = v := by
  simp only [clashingVariables, Ascending.mem_ofList, List.mem_map, List.mem_filter,
    decide_eq_true_eq, mem_literals, and_assoc]

/-- A resolvent holds no literal that its parents do not hold. -/
theorem mem_of_mem_resolve {a b r : Clause} {v : Variable} (h : a.resolve b v = some r)
    {l : Literal} (hl : l ∈ r) : l ∈ a ∨ l ∈ b := by
  unfold resolve at h
  split at h
  · cases h; exact (mem_joinWithout.mp hl).1
  · cases h

/-- A resolvent does not mention its variable. -/
theorem var_ne_of_mem_resolve {a b r : Clause} {v : Variable} (h : a.resolve b v = some r)
    {l : Literal} (hl : l ∈ r) : l.var ≠ v := by
  unfold resolve at h
  split at h
  · cases h; exact (mem_joinWithout.mp hl).2
  · cases h

end Clause

end Clausal
