import Clausal.Model

/-!
# Extensions of a partial assignment

A valuation extends a partial assignment if it gives every variable the value that the
assignment gives it.  Some valuation does: any one is turned into such an extension by
`PartialAssignment.overwrite`, and it keeps its values elsewhere.

A partial assignment is a table by position, and the positions are those of variables as long as
the table is not longer than there are variables.  Two such tables of one length are equal if
they give all variables the same values (`PartialAssignment.ext_value`).
-/

namespace Clausal

/-- The valuation gives every variable the value that the partial assignment gives it, if there is
one. -/
def Valuation.Extends (w : Valuation) (p : PartialAssignment) : Prop :=
  ∀ v b, p.value v = some b → w v = b

/-- The formula is satisfied by a valuation that extends the partial assignment. -/
def PartialAssignment.Extensible (p : PartialAssignment) (f : Formula) : Prop :=
  ∃ w : Valuation, w.Extends p ∧ f.SatisfiedBy w

namespace PartialAssignment

variable {p q : PartialAssignment} {f : Formula} {c : Clause} {v : Variable} {b : Bool}
variable {w : Valuation}

/-! ### True literals -/

theorem satisfies_iff : p.satisfies c = true ↔ ∃ l ∈ c, p.value l.var = some l.positive := by
  simp [satisfies, Clause.mem_literals]

theorem satisfiesAll_iff : p.satisfiesAll f = true ↔ ∀ c ∈ f.clauses, p.satisfies c = true := by
  simp [satisfiesAll]

/-! ### Valuations that extend an assignment -/

/-- The valuation with the values of a partial assignment put over its own. -/
def overwrite (p : PartialAssignment) (w : Valuation) : Valuation := fun v => (p.value v).getD (w v)

theorem overwrite_extends (p : PartialAssignment) (w : Valuation) : (p.overwrite w).Extends p := by
  intro v b h
  rw [overwrite, h, Option.getD_some]

theorem overwrite_of_none (h : p.value v = none) : p.overwrite w v = w v := by
  rw [overwrite, h, Option.getD_none]

/-! ### Values by position -/

theorem value_eq_getElem (h : v.index < p.values.size) : p.value v = p.values[v.index] := by
  rw [value, Array.getElem?_eq_getElem h]
  rfl

/-- Only variables with an entry have a value. -/
theorem index_lt_of_value (h : p.value v = some b) : v.index < p.size := by
  refine Nat.lt_of_not_le fun hle => ?_
  rw [value, Array.getElem?_eq_none hle] at h
  cases h

theorem exists_index {i : Nat} (h : i < p.size) (hsize : p.size ≤ Variable.maxId) :
    ∃ v : Variable, v.index = i :=
  ⟨⟨i + 1, Nat.le_add_left 1 i, Nat.le_trans h hsize⟩, rfl⟩

/-- Tables of one length that give all variables the same values are equal. -/
theorem ext_value (hsize : p.size = q.size) (hle : p.size ≤ Variable.maxId)
    (h : ∀ v b, p.value v = some b ↔ q.value v = some b) : p = q := by
  cases p with
  | mk ps =>
      cases q with
      | mk qs =>
          refine congrArg PartialAssignment.mk (Array.ext hsize fun i hi hi' => ?_)
          obtain ⟨v, rfl⟩ := exists_index (p := ⟨ps⟩) hi hle
          rw [← value_eq_getElem (p := ⟨ps⟩) hi, ← value_eq_getElem (p := ⟨qs⟩) hi']
          exact Option.ext (h v)

end PartialAssignment

end Clausal
