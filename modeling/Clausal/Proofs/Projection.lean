import Clausal.Proofs.Resolvent

/-!
# Taking a variable out of clauses

When some clauses are asked about all other variables only, a variable can be taken out
of them.  What stays of the clauses that mention it are their resolvents on it.

*Onto the others.*  If clauses that are no tautologies hold, so do their resolvents
(`Clause.holds_resolve`), and neither these nor the clauses without the variable look at
its value (`Clause.holds_set_iff`).

*Back.*  If the clauses without the variable and the resolvents hold, some value of the
variable makes all clauses hold (`exists_holds_set`).  Otherwise one clause would fail for
either value, and the resolvent of the two would fail as well.

The clauses are given by a predicate and not by a list, so that the same two statements
serve a working formula, a level of the closure and the closure itself.
-/

namespace Clausal

variable {w : Valuation} {v : Variable} {b : Bool}

/-! ## Changing one value -/

@[simp] theorem Valuation.set_same : (w.set v b) v = b := if_pos rfl

theorem Valuation.set_of_ne {u : Variable} (h : u ≠ v) : (w.set v b) u = w u := if_neg h

@[simp] theorem Valuation.set_eq_self : w.set v (w v) = w := by
  funext u
  by_cases h : u = v
  · rw [h, Valuation.set_same]
  · exact Valuation.set_of_ne h

theorem Literal.holds_set_iff {l : Literal} (h : l.var ≠ v) :
    l.Holds (w.set v b) ↔ l.Holds w := by
  rw [Literal.Holds, Literal.Holds, Valuation.set_of_ne h]

/-- A clause does not look at the value of a variable that it does not mention. -/
theorem Clause.holds_set_iff {c : Clause} (h : ∀ l ∈ c, l.var ≠ v) :
    c.Holds (w.set v b) ↔ c.Holds w := by
  constructor
  · intro ⟨l, hl, hw⟩
    exact ⟨l, hl, (Literal.holds_set_iff (h l hl)).mp hw⟩
  · intro ⟨l, hl, hw⟩
    exact ⟨l, hl, (Literal.holds_set_iff (h l hl)).mpr hw⟩

theorem Clause.holds_set_of_mem {c : Clause} (h : ⟨v, b⟩ ∈ c) : c.Holds (w.set v b) :=
  ⟨_, h, Valuation.set_same⟩

theorem Clause.holds_set_of_other {c : Clause} {l : Literal} (hl : l ∈ c) (hv : l.var ≠ v)
    (hw : l.Holds w) : c.Holds (w.set v b) :=
  ⟨l, hl, (Literal.holds_set_iff hv).mpr hw⟩

/-- A clause that stops holding with the value of a variable holds its other literal. -/
theorem Clause.mem_of_not_holds_set {c : Clause}
    (hothers : (∀ l ∈ c, l.var ≠ v) → c.Holds w) (h : ¬ c.Holds (w.set v b)) :
    (⟨v, !b⟩ : Literal) ∈ c := by
  by_cases hm : ∃ l ∈ c, l.var = v
  · obtain ⟨⟨u, p⟩, hl, hu⟩ := hm
    cases hu
    by_cases hp : p = b
    · subst hp
      exact absurd (Clause.holds_set_of_mem hl) h
    · rw [← Bool.eq_not.mpr hp]
      exact hl
  · have hv : ∀ l ∈ c, l.var ≠ v := fun l hl he => hm ⟨l, hl, he⟩
    exact absurd ((Clause.holds_set_iff hv).mpr (hothers hv)) h

/-! ## The resolvents of a variable -/

/-- If the clauses without a variable hold and the resolvents on it do, a value of the
variable makes all clauses hold. -/
theorem exists_holds_set {P : Clause → Prop}
    (hothers : ∀ c, P c → (∀ l ∈ c, l.var ≠ v) → c.Holds w)
    (hresolvents : ∀ a c r, P a → P c → a.resolve c v = some r → r.isTautology = false →
      r.Holds w) :
    ∃ b, ∀ c, P c → c.Holds (w.set v b) := by
  by_cases htrue : ∀ c, P c → c.Holds (w.set v true)
  · exact ⟨true, htrue⟩
  · refine ⟨false, fun c hc => Classical.byContradiction fun hcw => ?_⟩
    simp only [Classical.not_forall] at htrue
    obtain ⟨a, ha, haw⟩ := htrue
    have hav : (⟨v, false⟩ : Literal) ∈ a := Clause.mem_of_not_holds_set (hothers a ha) haw
    have hcv : (⟨v, true⟩ : Literal) ∈ c := Clause.mem_of_not_holds_set (hothers c hc) hcw
    have hclash : a.resolve c v = some (Clause.joinWithout v a c) :=
      Clause.resolve_eq_some_iff.mpr ⟨Clause.clashesOn_iff.mpr (.inr ⟨hav, hcv⟩), rfl⟩
    have hr : (Clause.joinWithout v a c).Holds w := by
      cases ht : (Clause.joinWithout v a c).isTautology with
      | true => exact Clause.holds_of_isTautology w ht
      | false => exact hresolvents a c _ ha hc hclash ht
    obtain ⟨l, hl, hlw⟩ := hr
    obtain ⟨hlac, hlv⟩ := Clause.mem_joinWithout.mp hl
    rcases hlac with hla | hlc
    · exact haw (Clause.holds_set_of_other hla hlv hlw)
    · exact hcw (Clause.holds_set_of_other hlc hlv hlw)

end Clausal
