import Clausal.Proofs.Extensions
import Clausal.Proofs.Resolution

/-!
# What the check of a model tells

A table is a model of a formula if every clause has a literal that is given its polarity
(`PartialAssignment.satisfiesAll`).  The check looks at the table only, and says something about all
valuations that extend it (`Model.check_tells`).

*If it succeeds*, they all satisfy the formula, for a value that is given is kept.

*If it fails*, some clause has no true literal, and unless that clause is a tautology the variables
without a value can be given those that make its other literals false
(`PartialAssignment.exists_extends_not_holds`).  Tautologies are the only exception
(`PartialAssignment.forall_extends_satisfiedBy_iff`): they hold everywhere, also where none of their
literals is given its polarity.

A table may be shorter than the declared range.  It is read as if it had positions without a value
up to the end of the range (`PartialAssignment.value_padded` and the lemmas that follow it).
-/

namespace Clausal

namespace PartialAssignment

variable {p : PartialAssignment} {f : Formula} {c : Clause} {v : Variable} {b : Bool}
variable {w : Valuation} {n k : Nat}

/-! ## All extensions -/

/-- A clause with a true literal holds in every extension. -/
theorem holds_of_satisfies (h : p.satisfies c = true) (hw : w.Extends p) : c.Holds w := by
  obtain ⟨l, hl, hvalue⟩ := satisfies_iff.mp h
  exact ⟨l, hl, hw _ _ hvalue⟩

theorem satisfiedBy_of_extends (h : p.satisfiesAll f = true) (hw : w.Extends p) :
    f.SatisfiedBy w :=
  fun c hc => holds_of_satisfies (satisfiesAll_iff.mp h c hc) hw

/-- A clause without a true literal fails in some extension, unless it is a tautology: the values of
the assignment are put over those of a valuation in which it fails. -/
theorem exists_extends_not_holds (ht : c.isTautology = false) (h : ¬p.satisfies c = true) :
    ∃ w : Valuation, w.Extends p ∧ ¬c.Holds w := by
  obtain ⟨w, hw⟩ := Clause.exists_not_holds ht
  refine ⟨p.overwrite w, overwrite_extends p w, ?_⟩
  intro ⟨l, hl, hlw⟩
  -- A literal without a value is as false as it was, and one with a value would be a true one.
  cases hvalue : p.value l.var with
  | none => exact hw ⟨l, hl, (overwrite_of_none hvalue).symm.trans hlw⟩
  | some b =>
      have hb : p.overwrite w l.var = b := overwrite_extends p w _ _ hvalue
      have hpositive : b = l.positive := hb.symm.trans hlw
      exact h (satisfies_iff.mpr ⟨l, hl, hpositive ▸ hvalue⟩)

/-- A clause holds whatever the values that are missing just if some value makes it true already, or
if it holds in any case. -/
theorem forall_extends_holds_iff : (∀ w : Valuation, w.Extends p → c.Holds w) ↔
    p.satisfies c = true ∨ c.isTautology = true := by
  constructor
  · intro hall
    cases ht : c.isTautology with
    | true => exact .inr rfl
    | false =>
        refine .inl (Classical.byContradiction fun h => ?_)
        obtain ⟨w, hw, hnot⟩ := exists_extends_not_holds ht h
        exact hnot (hall w hw)
  · rintro (h | ht) w hw
    · exact holds_of_satisfies h hw
    · exact Clause.holds_of_isTautology w ht

/-- All extensions satisfy a formula just if each of its clauses has a true literal or is a
tautology. -/
theorem forall_extends_satisfiedBy_iff : (∀ w : Valuation, w.Extends p → f.SatisfiedBy w) ↔
    ∀ c ∈ f.clauses, p.satisfies c = true ∨ c.isTautology = true := by
  simp only [← forall_extends_holds_iff]
  constructor
  · intro h c hc w hw
    exact h w hw c hc
  · intro h w hw c hc
    exact h c hc w hw

/-- An empty table makes no literal of a tautology true. -/
example : (⟨#[]⟩ : PartialAssignment).satisfies (.ofLiterals [⟨.x1, true⟩, ⟨.x1, false⟩]) = false :=
  rfl

/-! ## Total values -/

theorem length_totalUpTo : (p.totalUpTo n).length = n := by
  simp [totalUpTo]

/-- The table has an entry for every variable in range: its value, or true if it has none. -/
theorem totalUpTo_getElem? (h : v.index < n) :
    (p.totalUpTo n)[v.index]? = some (p.complete v) := by
  rw [totalUpTo, List.getElem?_map, List.getElem?_range h]
  rfl

theorem complete_of_some (h : p.value v = some b) : p.complete v = b := by
  rw [complete, h, Option.getD_some]

theorem complete_of_none (h : p.value v = none) : p.complete v = true := by
  rw [complete, h, Option.getD_none]

theorem totalUpTo_of_some (hsize : p.size ≤ n) (h : p.value v = some b) :
    (p.totalUpTo n)[v.index]? = some b := by
  rw [totalUpTo_getElem? (Nat.lt_of_lt_of_le (index_lt_of_value h) hsize), complete_of_some h]

/-- A valuation that reads the first variables off the total values extends the assignment, if no
other variable has a value. -/
theorem extends_of_totalUpTo (hsize : p.size ≤ n)
    (h : ∀ v, v.index < n → (p.totalUpTo n)[v.index]? = some (w v)) : w.Extends p := by
  intro v b hb
  have hv : v.index < n := Nat.lt_of_lt_of_le (index_lt_of_value hb) hsize
  have hw := h v hv
  rw [totalUpTo_of_some hsize hb, Option.some.injEq] at hw
  exact hw.symm

/-! ## Short tables -/

theorem value_eq_none (h : p.size ≤ v.index) : p.value v = none := by
  rw [value, Array.getElem?_eq_none h]
  rfl

/-- The table with `k` more positions, none of which has a value. -/
def padded (p : PartialAssignment) (k : Nat) : PartialAssignment :=
  ⟨p.values ++ Array.replicate k none⟩

theorem join_padded (i : Nat) : (p.padded k).values[i]?.join = p.values[i]?.join := by
  rw [padded, Array.getElem?_append]
  split
  · rfl
  · next h =>
      rw [Array.getElem?_eq_none (Nat.le_of_not_lt h), Array.getElem?_replicate]
      split
      · rfl
      · rfl

/-- Slots without a value, put behind a table, give no variable a value. -/
theorem value_padded : (p.padded k).value = p.value :=
  funext fun v => join_padded v.index

theorem satisfiesAll_padded : (p.padded k).satisfiesAll f = p.satisfiesAll f := by
  have hsatisfies : (p.padded k).satisfies = p.satisfies := by
    funext c
    rw [satisfies, value_padded, satisfies]
  rw [satisfiesAll, hsatisfies, satisfiesAll]

theorem totalUpTo_padded : (p.padded k).totalUpTo n = p.totalUpTo n := by
  simp only [totalUpTo, join_padded]

end PartialAssignment

namespace Model

variable {f : Formula} {p : PartialAssignment} {m : Model}

/-! ## The check -/

/-- The check gives the model with just this formula and this assignment. -/
theorem check_eq_ok_iff : check f p = .ok m ↔ m.formula = f ∧ m.assignment = p := by
  constructor
  · intro h
    rw [check] at h
    split at h
    · split at h
      · cases h
        exact ⟨rfl, rfl⟩
      · cases h
    · cases h
  · rintro ⟨rfl, rfl⟩
    rw [check, dif_pos m.size_le, dif_pos m.satisfied]

/-- What the check of a table tells of a formula. -/
structure CheckTells (f : Formula) (p : PartialAssignment) : Prop where
  /-- There is a model just if every clause has a literal that is given its polarity. -/
  exists_model_iff : (∃ m, check f p = .ok m) ↔ p.satisfiesAll f = true
  /-- The model has the values of the table. -/
  model_eq : ∀ m, check f p = .ok m →
    m.formula = f ∧ m.value = p.value ∧ m.total = p.totalUpTo f.numVariables
  /-- If the check succeeds, every extension satisfies the formula. -/
  extensions : p.satisfiesAll f = true → ∀ w : Valuation, w.Extends p → f.SatisfiedBy w
  /-- The total values are those of an extension, whatever the undeclared variables are given. -/
  total_extends : ∀ w : Valuation, (∀ v, v.index < f.numVariables →
    (p.totalUpTo f.numVariables)[v.index]? = some (w v)) → w.Extends p
  /-- Without tautologies the check succeeds if every extension satisfies the formula. -/
  satisfiesAll_of_extensions : (∀ c ∈ f.clauses, c.isTautology = false) →
    (∀ w : Valuation, w.Extends p → f.SatisfiedBy w) → p.satisfiesAll f = true
  /-- A variable past the end of the table has no value. -/
  value_past_end : ∀ v, p.size ≤ v.index → p.value v = none
  /-- Positions without a value at the end of the table change nothing. -/
  padded_eq : ∀ k, (p.padded k).value = p.value ∧ (p.padded k).satisfiesAll f = p.satisfiesAll f ∧
    (p.padded k).totalUpTo f.numVariables = p.totalUpTo f.numVariables
  /-- There is a total value for each declared variable. -/
  length_total : (p.totalUpTo f.numVariables).length = f.numVariables
  /-- It is that of the valuation that makes true what has no value. -/
  total_complete : ∀ v, v.index < f.numVariables →
    (p.totalUpTo f.numVariables)[v.index]? = some (p.complete v)
  /-- It is the value of the variable, if it has one. -/
  total_of_some : ∀ v b, p.value v = some b → (p.totalUpTo f.numVariables)[v.index]? = some b
  /-- It is true if a declared variable has none. -/
  total_of_none : ∀ v, p.value v = none → v.index < f.numVariables →
    (p.totalUpTo f.numVariables)[v.index]? = some true

/-- The check of a table that is not longer than the declared range means what it says. -/
theorem check_tells (hsize : p.size ≤ f.numVariables) : CheckTells f p where
  exists_model_iff := by
    constructor
    · intro ⟨m, hm⟩
      obtain ⟨rfl, rfl⟩ := check_eq_ok_iff.mp hm
      exact m.satisfied
    · intro h
      exact ⟨⟨f, p, hsize, h⟩, check_eq_ok_iff.mpr ⟨rfl, rfl⟩⟩
  model_eq := by
    intro m hm
    obtain ⟨rfl, rfl⟩ := check_eq_ok_iff.mp hm
    exact ⟨rfl, rfl, rfl⟩
  extensions := fun h _ => PartialAssignment.satisfiedBy_of_extends h
  total_extends := fun _ => PartialAssignment.extends_of_totalUpTo hsize
  satisfiesAll_of_extensions := by
    intro ht hall
    refine PartialAssignment.satisfiesAll_iff.mpr fun c hc => ?_
    have hc' := PartialAssignment.forall_extends_satisfiedBy_iff.mp hall c hc
    exact hc'.resolve_right (by rw [ht c hc]; exact Bool.false_ne_true)
  value_past_end := fun _ => PartialAssignment.value_eq_none
  padded_eq := fun _ => ⟨PartialAssignment.value_padded, PartialAssignment.satisfiesAll_padded,
    PartialAssignment.totalUpTo_padded⟩
  length_total := PartialAssignment.length_totalUpTo
  total_complete := fun _ => PartialAssignment.totalUpTo_getElem?
  total_of_some := fun _ _ => PartialAssignment.totalUpTo_of_some hsize
  total_of_none := by
    intro v hnone hv
    rw [PartialAssignment.totalUpTo_getElem? hv, PartialAssignment.complete_of_none hnone]

/-- Of five declared variables a table gives the second one the value false.  The total values
satisfy `¬x2` and `x1 ∨ x3`, but the check does not succeed: another extension falsifies the second
clause. -/
theorem check_tells_shortTable : ∃ (f : Formula) (p : PartialAssignment),
    f.numVariables = 5 ∧
    f.clauses.map Clause.literals = [[⟨.x2, false⟩], [⟨.x1, true⟩, ⟨.x3, true⟩]] ∧
    p.values = #[none, some false] ∧ p.size ≤ f.numVariables ∧
    p.totalUpTo f.numVariables = [true, false, true, true, true] ∧
    p.satisfiesAll f = false ∧ CheckTells f p := by
  refine ⟨(Formula.empty 5 (by decide)).addAll [.ofLiterals [⟨.x2, false⟩],
    .ofLiterals [⟨.x1, true⟩, ⟨.x3, true⟩]], ⟨#[none, some false]⟩, rfl, rfl, rfl, by decide, rfl,
    rfl, ?_⟩
  exact check_tells (by decide)

end Model

end Clausal
