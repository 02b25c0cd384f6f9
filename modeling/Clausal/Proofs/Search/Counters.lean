import Clausal.Proofs.Extensions
import Clausal.Proofs.Search.Simplified

/-!
# What the counters count

A search keeps four things that could be computed from the values and the clauses: two counts
for every clause and two totals.  A state is `Consistent` if they are what they would be
computed to be, and if the trail tells the same values.  It says so by the values alone, and
not by the trail that the state came along.

Where the search stands is read off the totals, so in a consistent state it is what the values
make of the clauses (`Consistent.status_conflict_iff`, `Consistent.status_satisfied_iff`).  A
clause without literals has no true one and only false ones, and it counts like that.

The state along a trail is consistent if the trail `Fits` (`Fits.consistent`).  There are no other
consistent states: one of them is the state along its own trail (`Consistent.eq_along`).
-/

namespace Clausal

namespace PartialAssignment

/-- How many literals of the clause are given their polarity. -/
def countTrue (p : PartialAssignment) (c : Clause) : Nat :=
  c.literals.countP fun l => p.value l.var == some l.positive

/-- How many literals of the clause are given the opposite polarity. -/
def countFalse (p : PartialAssignment) (c : Clause) : Nat :=
  c.literals.countP fun l => p.value l.var == some (!l.positive)

/-- Whether all literals of the clause are given the opposite polarity. -/
def falsifies (p : PartialAssignment) (c : Clause) : Bool :=
  c.literals.all fun l => p.value l.var == some (!l.positive)

variable {p : PartialAssignment} {c : Clause}

/-- A clause counts a true literal just if it is satisfied. -/
theorem countTrue_ne_zero_iff : p.countTrue c ≠ 0 ↔ p.satisfies c = true := by
  rw [countTrue, ← Nat.pos_iff_ne_zero, List.countP_pos_iff, satisfies, List.any_eq_true]

/-- A clause counts all its literals as false just if it is falsified. -/
theorem countFalse_eq_size_iff : p.countFalse c = c.size ↔ p.falsifies c = true := by
  rw [countFalse, Clause.size, List.countP_eq_length, falsifies, List.all_eq_true]

/-- No clause has a true literal and only false ones. -/
theorem not_falsifies_of_satisfies (h : p.satisfies c = true) : ¬ p.falsifies c = true := by
  intro hf
  obtain ⟨l, hl, ht⟩ := satisfies_iff.mp h
  have hn := beq_iff_eq.mp (List.all_eq_true.mp hf l hl)
  rw [ht, Option.some.injEq] at hn
  exact (Bool.eq_not_self l.positive).mp hn

end PartialAssignment

namespace Search

variable {f : Formula} {s : Search} {t : List Literal} {j : Journal Event}

/-! ## Consistent states -/

/-- The row of a clause: how many of its literals have a value that makes them true, and how
many one that makes them false. -/
def rowUnder (p : PartialAssignment) (c : Clause) : Row := ⟨c, p.countTrue c, p.countFalse c⟩

/-- The tables, the trail, the counts and the totals of a search say the same. -/
structure Consistent (f : Formula) (s : Search) : Prop where
  /-- The search is one of the formula. -/
  formula_eq : s.formula = f
  /-- The occurrences are those of its clauses. -/
  occurrences_eq : s.occurrences = .ofClauses (tableWidth f.clauses) f.clauses
  /-- Every variable up to the greatest that occurs has an entry. -/
  size_eq : s.values.size = tableWidth f.clauses
  /-- The literals of the trail are over distinct variables. -/
  distinct : s.trail.Pairwise fun l m => l.var ≠ m.var
  /-- The values are the polarities of the literals of the trail. -/
  value_iff : ∀ v b, s.values.value v = some b ↔ (⟨v, b⟩ : Literal) ∈ s.trail
  /-- Every clause has its row, with the numbers of its true and of its false literals. -/
  rows_eq : s.rows.toList = f.clauses.map (rowUnder s.values)
  /-- The first total is the number of clauses with a true literal. -/
  satisfiedClauses_eq : s.satisfiedClauses = f.clauses.countP s.values.satisfies
  /-- The second total is the number of clauses with only false literals. -/
  falsifiedClauses_eq : s.falsifiedClauses = f.clauses.countP s.values.falsifies

/-- The search stands at a conflict when some clause has only false literals. -/
theorem Consistent.status_conflict_iff (h : Consistent f s) :
    s.status = .conflict ↔ ∃ c ∈ f.clauses, s.values.falsifies c = true := by
  rw [← List.countP_pos_iff, ← h.falsifiedClauses_eq, status]
  split
  · next hpos => exact iff_of_true rfl hpos
  · next hpos =>
      refine iff_of_false (fun he => ?_) hpos
      split at he
      · cases he
      · cases he

/-- The search is satisfied when every clause has a true literal. -/
theorem Consistent.status_satisfied_iff (h : Consistent f s) :
    s.status = .satisfied ↔ ∀ c ∈ f.clauses, s.values.satisfies c = true := by
  have hsize : s.rows.size = f.clauses.length := by
    rw [← Array.length_toList, h.rows_eq, List.length_map]
  have htotal : s.satisfiedClauses = s.rows.size ↔
      ∀ c ∈ f.clauses, s.values.satisfies c = true := by
    rw [h.satisfiedClauses_eq, hsize, List.countP_eq_length]
  rw [← htotal, status]
  split
  · next hpos =>
      -- A conflict comes first, and it leaves a clause without a true literal.
      rw [h.falsifiedClauses_eq, List.countP_pos_iff] at hpos
      obtain ⟨c, hc, hf⟩ := hpos
      refine iff_of_false (by decide) fun hall => ?_
      exact PartialAssignment.not_falsifies_of_satisfies (htotal.mp hall c hc) hf
  · split
    · next heq => exact iff_of_true rfl heq
    · next hne => exact iff_of_false (by decide) hne

/-! ## The state along a trail -/

/-- The table of values gives a variable the value that the trail gives it. -/
theorem Fits.value_eq (h : Fits f t) (v : Variable) (b : Bool) :
    ((valuesAlong (tableWidth f.clauses) t).value v == some b) =
      decide ((⟨v, b⟩ : Literal) ∈ t) := by
  rw [Bool.eq_iff_iff, beq_iff_eq, decide_eq_true_eq]
  exact value_valuesAlong h

theorem Fits.countTrue_eq (h : Fits f t) (c : Clause) :
    (valuesAlong (tableWidth f.clauses) t).countTrue c = (tally t t c).satisfied := by
  rw [PartialAssignment.countTrue, tally]
  exact List.countP_congr fun l _ => by rw [h.value_eq]

theorem Fits.countFalse_eq (h : Fits f t) (c : Clause) :
    (valuesAlong (tableWidth f.clauses) t).countFalse c = (tally t t c).falsified := by
  rw [PartialAssignment.countFalse, tally]
  exact List.countP_congr fun l _ => by rw [h.value_eq]; rfl

/-- The row that the values make of a clause is the one that the trail makes of it. -/
theorem Fits.rowUnder_eq (h : Fits f t) (c : Clause) :
    rowUnder (valuesAlong (tableWidth f.clauses) t) c = tally t t c := by
  rw [rowUnder, h.countTrue_eq, h.countFalse_eq]
  rfl

theorem Fits.satisfies_eq (h : Fits f t) (c : Clause) :
    (valuesAlong (tableWidth f.clauses) t).satisfies c = !(tally t t c).isOpen := by
  rw [Bool.eq_iff_iff, ← PartialAssignment.countTrue_ne_zero_iff, h.countTrue_eq, Row.isOpen,
    Bool.not_eq_true', beq_eq_false_iff_ne]

theorem Fits.falsifies_eq (h : Fits f t) (c : Clause) :
    (valuesAlong (tableWidth f.clauses) t).falsifies c = (tally t t c).isFalsified := by
  rw [Bool.eq_iff_iff, ← PartialAssignment.countFalse_eq_size_iff, h.countFalse_eq,
    Row.isFalsified, beq_iff_eq]
  rfl

/-- The state along a trail counts what the trail makes true and false. -/
theorem Fits.consistent (h : Fits f t) (j : Journal Event) : Consistent f (along f t j) where
  formula_eq := rfl
  occurrences_eq := rfl
  size_eq := size_valuesAlong _ t
  distinct := h.distinct
  value_iff := fun _ _ => value_valuesAlong h
  rows_eq := by
    show f.clauses.map (tally t t) = _
    exact List.map_congr_left fun c _ => (h.rowUnder_eq c).symm
  satisfiedClauses_eq := by
    show (f.clauses.map (tally t t)).countP (fun r => !r.isOpen) = _
    rw [List.countP_map]
    exact List.countP_congr fun c _ => by rw [Function.comp_apply, ← h.satisfies_eq]; rfl
  falsifiedClauses_eq := by
    show (f.clauses.map (tally t t)).countP Row.isFalsified = _
    rw [List.countP_map]
    exact List.countP_congr fun c _ => by rw [Function.comp_apply, ← h.falsifies_eq]; rfl

/-! ## Consistent states are those along a trail -/

theorem Consistent.fits (h : Consistent f s) : Fits f s.trail where
  distinct := h.distinct
  hasEntry hl := by
    rw [← h.size_eq]
    exact PartialAssignment.index_lt_of_value ((h.value_iff _ _).mpr hl)

/-- The values of a consistent state are those of its trail. -/
theorem Consistent.values_eq (h : Consistent f s) :
    s.values = valuesAlong (tableWidth f.clauses) s.trail := by
  refine PartialAssignment.ext_value (h.size_eq.trans (size_valuesAlong _ _).symm) ?_ fun v b => ?_
  · rw [h.size_eq]
    exact Nat.le_trans (tableWidth_le_numVariables f) f.numVariables_le
  · rw [h.value_iff, value_valuesAlong h.fits]

/-- A consistent state is determined by its trail and its journal. -/
theorem Consistent.eq_along (h : Consistent f s) : s = along f s.trail s.journal := by
  have hrow : ∀ c, rowUnder s.values c = tally s.trail s.trail c := by
    intro c
    rw [h.values_eq]
    exact h.fits.rowUnder_eq c
  have hrows : s.rows = (f.clauses.map (tally s.trail s.trail)).toArray := by
    rw [← Array.toList_inj, h.rows_eq]
    exact List.map_congr_left fun c _ => hrow c
  have halong := h.fits.consistent s.journal
  have hsatisfied : s.satisfiedClauses = (along f s.trail s.journal).satisfiedClauses := by
    rw [h.satisfiedClauses_eq, halong.satisfiedClauses_eq, h.values_eq]
    rfl
  have hfalsified : s.falsifiedClauses = (along f s.trail s.journal).falsifiedClauses := by
    rw [h.falsifiedClauses_eq, halong.falsifiedClauses_eq, h.values_eq]
    rfl
  calc s = ⟨s.formula, s.occurrences, s.values, s.rows, s.satisfiedClauses, s.falsifiedClauses,
        s.trail, s.journal⟩ := rfl
    _ = along f s.trail s.journal := by
        rw [hsatisfied, hfalsified, hrows, h.values_eq, h.occurrences_eq, h.formula_eq]
        rfl

end Search

end Clausal
