import Clausal.Saturation.Closure

/-!
# Resolvents in both directions

Resolving is symmetric: the two clauses clash on the same variables and have the same
resolvent, whichever comes first (`Clause.resolve_comm`).  A procedure that tries an earlier
clause with a later one misses nothing for that reason, and it misses nothing by leaving
out a clause with itself, for only tautologies clash with themselves
(`Clause.resolve_self`).
-/

namespace Clausal

namespace Clause

variable {a b r : Clause} {v : Variable}

theorem clashesOn_iff : a.clashesOn b v = true ↔
    ((⟨v, true⟩ : Literal) ∈ a ∧ (⟨v, false⟩ : Literal) ∈ b) ∨
      ((⟨v, false⟩ : Literal) ∈ a ∧ (⟨v, true⟩ : Literal) ∈ b) := by
  simp only [clashesOn, Bool.or_eq_true, Bool.and_eq_true, decide_eq_true_eq]

theorem resolve_eq_some_iff :
    a.resolve b v = some r ↔ a.clashesOn b v = true ∧ joinWithout v a b = r := by
  rw [resolve]
  split
  · next h => simp [h]
  · next h => simp [h]

theorem clashesOn_comm : a.clashesOn b v = b.clashesOn a v := by
  rw [Bool.eq_iff_iff, clashesOn_iff, clashesOn_iff]
  constructor
  · rintro (⟨ha, hb⟩ | ⟨ha, hb⟩)
    · exact .inr ⟨hb, ha⟩
    · exact .inl ⟨hb, ha⟩
  · rintro (⟨hb, ha⟩ | ⟨hb, ha⟩)
    · exact .inr ⟨ha, hb⟩
    · exact .inl ⟨ha, hb⟩

theorem joinWithout_comm : joinWithout v a b = joinWithout v b a := by
  refine ext_mem fun l => ?_
  rw [mem_joinWithout, mem_joinWithout, Or.comm]

theorem resolve_comm : a.resolve b v = b.resolve a v := by
  rw [resolve, resolve, clashesOn_comm, joinWithout_comm]

/-- A clause that is no tautology has no resolvent with itself. -/
theorem resolve_self (ht : a.isTautology = false) : a.resolve a v = none := by
  have hc : ¬ a.clashesOn a v = true := by
    rw [clashesOn_iff]
    rintro (⟨hp, hn⟩ | ⟨hn, hp⟩)
    · exact not_mem_of_mem ht hp hn
    · exact not_mem_of_mem ht hp hn
  rw [resolve, if_neg hc]

/-- Two clauses clash on the variables that they have resolvents on. -/
theorem mem_clashingVariables_iff : v ∈ a.clashingVariables b ↔ a.clashesOn b v = true := by
  rw [mem_clashingVariables, clashesOn_iff]
  constructor
  · intro ⟨⟨u, p⟩, ha, hb, hu⟩
    cases hu
    cases p with
    | true => exact .inl ⟨ha, hb⟩
    | false => exact .inr ⟨ha, hb⟩
  · rintro (⟨ha, hb⟩ | ⟨ha, hb⟩)
    · exact ⟨_, ha, hb, rfl⟩
    · exact ⟨_, ha, hb, rfl⟩

theorem clashingVariables_comm : a.clashingVariables b = b.clashingVariables a := by
  refine Ascending.eq_of_mem_iff (Ascending.ofList_ascending _) (Ascending.ofList_ascending _) ?_
  intro v
  show v ∈ a.clashingVariables b ↔ v ∈ b.clashingVariables a
  rw [mem_clashingVariables_iff, mem_clashingVariables_iff, clashesOn_comm]

/-- A resolvent of clauses that are no tautologies is one if they clash on a second variable. -/
theorem isTautology_resolve_iff (ha : a.isTautology = false) (hb : b.isTautology = false)
    (h : a.resolve b v = some r) :
    r.isTautology = true ↔ ∃ u ∈ a.clashingVariables b, u ≠ v := by
  obtain ⟨_, rfl⟩ := resolve_eq_some_iff.mp h
  rw [isTautology_iff]
  constructor
  · intro ⟨l, hl, hn⟩
    obtain ⟨hl, hv⟩ := mem_joinWithout.mp hl
    obtain ⟨hn, _⟩ := mem_joinWithout.mp hn
    -- A literal and its complement are not in one of the clauses.
    rcases hl with hl | hl
    · have hnb : -l ∈ b := hn.resolve_left fun hna => not_mem_of_mem ha hl hna
      exact ⟨l.var, mem_clashingVariables.mpr ⟨l, hl, hnb, rfl⟩, hv⟩
    · have hna : -l ∈ a := hn.resolve_right fun hnb => not_mem_of_mem hb hl hnb
      rw [clashingVariables_comm]
      exact ⟨l.var, mem_clashingVariables.mpr ⟨l, hl, hna, rfl⟩, hv⟩
  · intro ⟨u, hu, huv⟩
    obtain ⟨l, hl, hn, rfl⟩ := mem_clashingVariables.mp hu
    exact ⟨l, mem_joinWithout.mpr ⟨.inl hl, huv⟩, mem_joinWithout.mpr ⟨.inr hn, huv⟩⟩

/-- It is none if they clash on the one variable only. -/
theorem isTautology_resolve_eq_false_iff (ha : a.isTautology = false) (hb : b.isTautology = false)
    (h : a.resolve b v = some r) :
    r.isTautology = false ↔ a.clashingVariables b = [v] := by
  have hv : v ∈ a.clashingVariables b :=
    mem_clashingVariables_iff.mpr (resolve_eq_some_iff.mp h).1
  rw [← Bool.not_eq_true, isTautology_resolve_iff ha hb h]
  constructor
  · intro hnone
    refine Ascending.eq_of_mem_iff (Ascending.ofList_ascending _) (Ascending.singleton v) ?_
    intro u
    rw [List.mem_singleton]
    exact ⟨fun hu => Classical.byContradiction fun huv => hnone ⟨u, hu, huv⟩, fun hu => hu ▸ hv⟩
  · rintro hv ⟨u, hu, huv⟩
    rw [hv] at hu
    exact huv (List.mem_singleton.mp hu)

end Clause

end Clausal
