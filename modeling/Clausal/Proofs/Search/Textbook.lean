import Clausal.Proofs.Projection
import Clausal.Proofs.Search.Choice
import Clausal.Semantics

/-!
# What the textbook search decides

Satisfiability is the same before and after a forced step, and a formula is satisfiable if it is
so for one of the two values of a variable.  Both follow from what it means to make a literal
true: the simplified formula is satisfiable if some valuation satisfies the formula *and* makes
the literal true (`satisfiable_assign_iff`).  A satisfying valuation makes the literal of a unit
clause true anyway, and that of a pure literal can be changed to do so, since no clause holds
the complement (`exists_holds_of_forced?`).

By induction along the search it succeeds just on satisfiable formulas
(`explore_isSome_iff`).  The search always has a variable to branch on when it wants one, for a
formula without variables is decided (`exists_branch?`).
-/

namespace Clausal

namespace Residual

open Search (Status Forced Event)

variable {r s : Residual} {l : Literal} {v : Variable} {w : Valuation} {depth : Nat}
  {j k : Journal Event}

/-- Some valuation makes all clauses that are left hold. -/
def Satisfiable (r : Residual) : Prop := ∃ w, HoldAll w r.clauses

/-! ## Making a literal true -/

/-- A valuation that makes the literal true does not tell the simplified formula from the one
before. -/
theorem holdAll_assign_iff (hl : l.Holds w) :
    HoldAll w (r.assign l).clauses ↔ HoldAll w r.clauses := by
  constructor
  · intro h c hc
    by_cases hlc : l ∈ c
    · exact ⟨l, hlc, hl⟩
    · have hmem : c.erase (-l) ∈ (r.assign l).clauses :=
        List.mem_map_of_mem (List.mem_filter.mpr ⟨hc, by simpa using hlc⟩)
      obtain ⟨m, hm, hmw⟩ := h _ hmem
      exact ⟨m, (Clause.mem_erase.mp hm).1, hmw⟩
  · intro h d hd
    obtain ⟨c, hc, rfl⟩ := List.mem_map.mp hd
    obtain ⟨m, hm, hmw⟩ := h c (List.mem_filter.mp hc).1
    have hne : m ≠ -l := fun he => Literal.holds_neg.mp (he ▸ hmw) hl
    exact ⟨m, Clause.mem_erase.mpr ⟨hm, hne⟩, hmw⟩

/-- The variable of a literal that was made true does not matter any more. -/
theorem holdAll_set_assign (h : HoldAll w (r.assign l).clauses) (b : Bool) :
    HoldAll (w.set l.var b) (r.assign l).clauses := by
  intro d hd
  have hother : ∀ m ∈ d, m.var ≠ l.var := fun m hm =>
    (mem_vars_of_assign (mem_vars.mpr ⟨d, hd, m, hm, rfl⟩)).2
  exact (Clause.holds_set_iff hother).mpr (h d hd)

/-- The simplified formula is satisfiable if the one before is so with the literal true. -/
theorem satisfiable_assign_iff :
    (r.assign l).Satisfiable ↔ ∃ w, l.Holds w ∧ HoldAll w r.clauses := by
  constructor
  · intro ⟨w, hw⟩
    have hl : l.Holds (w.set l.var l.positive) := Valuation.set_same
    exact ⟨_, hl, (holdAll_assign_iff hl).mp (holdAll_set_assign hw _)⟩
  · intro ⟨w, hl, hw⟩
    exact ⟨w, (holdAll_assign_iff hl).mpr hw⟩

/-- A formula is satisfiable if it is so with one of the two values of a variable. -/
theorem satisfiable_branch_iff (v : Variable) : r.Satisfiable ↔
    (r.assign ⟨v, true⟩).Satisfiable ∨ (r.assign ⟨v, false⟩).Satisfiable := by
  rw [satisfiable_assign_iff, satisfiable_assign_iff]
  constructor
  · intro ⟨w, hw⟩
    cases hv : w v with
    | true => exact .inl ⟨w, hv, hw⟩
    | false => exact .inr ⟨w, hv, hw⟩
  · intro h
    rcases h with h | h
    · exact ⟨h.choose, h.choose_spec.2⟩
    · exact ⟨h.choose, h.choose_spec.2⟩

/-! ## Forced steps -/

/-- The literal of a unit clause is true wherever the clauses hold. -/
theorem holds_of_unitLiteral? (h : r.unitLiteral? = some l) (hw : HoldAll w r.clauses) :
    l.Holds w := by
  obtain ⟨c, hfind, hl⟩ := Option.bind_eq_some_iff.mp h
  have hunit := List.find?_some hfind
  obtain ⟨m, hm, hmw⟩ := hw c (List.mem_of_find?_eq_some hfind)
  obtain ⟨n, hn⟩ := List.length_eq_one_iff.mp (beq_iff_eq.mp hunit)
  rw [hn, List.head?_cons, Option.some.injEq] at hl
  rw [← Clause.mem_literals, hn, List.mem_singleton] at hm
  rw [← hl, ← hm]
  exact hmw

/-- A pure literal can be made true without harm. -/
theorem holdAll_set_of_pureLiteral? (h : r.pureLiteral? = some l) (hw : HoldAll w r.clauses) :
    HoldAll (w.set l.var l.positive) r.clauses := by
  obtain ⟨v, _, hv⟩ := List.exists_of_findSome?_eq_some h
  obtain ⟨_, _, hneg⟩ := Search.pureOver?_eq_some.mp hv
  intro c hc
  obtain ⟨m, hm, hmw⟩ := hw c hc
  by_cases hvar : m.var = l.var
  · rcases Literal.eq_or_eq_neg hvar with he | he
    · exact ⟨m, hm, he ▸ Valuation.set_same⟩
    · exact absurd (List.mem_flatMap.mpr ⟨c, hc, he ▸ hm⟩) hneg
  · exact Clause.holds_set_of_other hm hvar hmw

/-- A forced literal may be made true: clauses that hold can hold with it. -/
theorem exists_holds_of_forced? {step : Forced} (h : r.forced? = some step)
    (hw : HoldAll w r.clauses) : ∃ w, (literal step).Holds w ∧ HoldAll w r.clauses := by
  rw [forced?] at h
  split at h
  · next hunit =>
      cases h
      exact ⟨w, holds_of_unitLiteral? hunit hw, hw⟩
  · obtain ⟨l, hpure, rfl⟩ := Option.map_eq_some_iff.mp h
    exact ⟨_, Valuation.set_same, holdAll_set_of_pureLiteral? hpure hw⟩

/-- A forced step does not change satisfiability. -/
theorem satisfiable_forced_iff {step : Forced} (h : r.forced? = some step) :
    (r.assign (literal step)).Satisfiable ↔ r.Satisfiable := by
  rw [satisfiable_assign_iff]
  constructor
  · intro ⟨w, _, hw⟩
    exact ⟨w, hw⟩
  · intro ⟨w, hw⟩
    exact exists_holds_of_forced? h hw

/-! ## Where the search stands -/

/-- The three ways in which a formula can stand, each with what it means. -/
theorem status_cases (r : Residual) :
    (r.status = .conflict ∧ Clause.empty ∈ r.clauses) ∨
    (r.status = .satisfied ∧ r.clauses = []) ∨
    (r.status = .undecided ∧ Clause.empty ∉ r.clauses ∧ r.clauses ≠ []) := by
  have hany : r.clauses.any Clause.isEmpty = true ↔ Clause.empty ∈ r.clauses := by
    simp only [List.any_eq_true, Clause.isEmpty_iff, exists_eq_right]
  rw [status]
  split
  · next h => exact .inl ⟨rfl, hany.mp h⟩
  · next h =>
      have he : Clause.empty ∉ r.clauses := fun hm => h (hany.mpr hm)
      split
      · next hnil => exact .inr (.inl ⟨rfl, List.isEmpty_iff.mp hnil⟩)
      · next hne => exact .inr (.inr ⟨rfl, he, fun hnil => hne (List.isEmpty_iff.mpr hnil)⟩)

theorem clauses_of_satisfied (h : r.status = .satisfied) : r.clauses = [] := by
  rcases r.status_cases with ⟨hs, _⟩ | ⟨_, hnil⟩ | ⟨hs, _⟩
  · rw [hs] at h; cases h
  · exact hnil
  · rw [hs] at h; cases h

theorem satisfiable_of_satisfied (h : r.status = .satisfied) : r.Satisfiable := by
  refine ⟨fun _ => true, fun c hc => ?_⟩
  rw [clauses_of_satisfied h] at hc
  exact absurd hc List.not_mem_nil

theorem not_satisfiable_of_conflict (h : r.status = .conflict) : ¬ r.Satisfiable := by
  rcases r.status_cases with ⟨_, he⟩ | ⟨hs, _⟩ | ⟨hs, _⟩
  · intro ⟨w, hw⟩
    exact Clause.not_holds_empty w (hw _ he)
  · rw [hs] at h; cases h
  · rw [hs] at h; cases h

/-- An undecided formula has a variable left. -/
theorem exists_branch? (h : r.status = .undecided) : ∃ v, r.branch? = some v := by
  rcases r.status_cases with ⟨hs, _⟩ | ⟨hs, _⟩ | ⟨_, he, hne⟩
  · rw [hs] at h; cases h
  · rw [hs] at h; cases h
  · obtain ⟨c, hc⟩ := List.exists_mem_of_ne_nil _ hne
    have hsome : c.literals ≠ [] := fun hnil =>
      he (Clause.isEmpty_iff.mp (List.isEmpty_iff.mpr hnil) ▸ hc)
    obtain ⟨l, hl⟩ := List.exists_mem_of_ne_nil _ hsome
    have hv : l.var ∈ r.vars := mem_vars.mpr ⟨c, hc, l, hl, rfl⟩
    rw [branch?]
    cases hvs : r.vars with
    | nil => rw [hvs] at hv; exact absurd hv List.not_mem_nil
    | cons v vs => exact ⟨v, rfl⟩

/-! ## Formulas without a forced step -/

theorem forced?_eq_none_iff :
    r.forced? = none ↔ r.unitLiteral? = none ∧ r.pureLiteral? = none := by
  rw [forced?]
  split
  · next l hl => simp [hl]
  · next hl => simp [hl]

/-- No clause is down to a single literal. -/
theorem size_ne_one_of_stuck (hf : r.forced? = none) {c : Clause} (hc : c ∈ r.clauses) :
    c.size ≠ 1 := by
  intro hsize
  have hunit := (forced?_eq_none_iff.mp hf).1
  rw [unitLiteral?, Option.bind_eq_none_iff] at hunit
  have hfind : (r.clauses.find? fun c => c.size == 1).isSome :=
    List.find?_isSome.mpr ⟨c, hc, by rw [hsize]; rfl⟩
  obtain ⟨d, hd⟩ := Option.isSome_iff_exists.mp hfind
  have hone := List.find?_some hd
  rw [beq_iff_eq, Clause.size, List.head?_eq_none_iff.mp (hunit d hd)] at hone
  cases hone

/-- The variables that are left are left with both polarities. -/
theorem mem_literals_of_stuck (hf : r.forced? = none) (hv : v ∈ r.vars) (b : Bool) :
    (⟨v, b⟩ : Literal) ∈ r.literals := by
  obtain ⟨l, hl, rfl⟩ := List.mem_map.mp (Ascending.mem_ofList.mp hv)
  have hpure := List.findSome?_eq_none_iff.mp (forced?_eq_none_iff.mp hf).2 l.var hv
  have hneg : -l ∈ r.literals := by
    refine Classical.byContradiction fun hn => ?_
    rw [Search.pureOver?_eq_some.mpr ⟨rfl, hl, hn⟩] at hpure
    cases hpure
  rcases Literal.eq_or_eq_neg (l := ⟨l.var, b⟩) (m := l) rfl with he | he
  · exact he ▸ hl
  · exact he ▸ hneg

theorem empty_not_mem_of_undecided (hs : r.status = .undecided) : Clause.empty ∉ r.clauses := by
  rcases r.status_cases with ⟨h, _⟩ | ⟨h, _⟩ | ⟨_, he, _⟩
  · rw [hs] at h; cases h
  · rw [hs] at h; cases h
  · exact he

theorem clauses_ne_nil_of_undecided (hs : r.status = .undecided) : r.clauses ≠ [] := by
  rcases r.status_cases with ⟨h, _⟩ | ⟨h, _⟩ | ⟨_, _, hne⟩
  · rw [hs] at h; cases h
  · rw [hs] at h; cases h
  · exact hne

/-! ## Runs -/

variable {status : Status} {found : Residual}

/-- Propagation keeps what every literal of a variable that is left keeps when it is made true. -/
theorem propagate_keeps {P : Residual → Prop}
    (hassign : ∀ r l, P r → l.var ∈ r.vars → P (r.assign l)) (h : P r)
    (hp : r.propagate j = (status, s, k)) : P s := by
  fun_induction Residual.propagate r j with
  | case1 => cases hp; exact h
  | case2 => cases hp; exact h
  | case3 => cases hp; exact h
  | case4 r j _ step hstep _ ih => exact ih (hassign _ _ h (mem_vars_of_forced? hstep)) hp

/-- So does a search that succeeds. -/
theorem explore_keeps {P : Residual → Prop}
    (hassign : ∀ r l, P r → l.var ∈ r.vars → P (r.assign l)) (h : P r)
    (hfound : r.explore depth j = (some found, k)) : P found := by
  fun_induction Residual.explore depth r j generalizing found k with
  | case1 depth r j s k' hp => cases hfound; exact propagate_keeps hassign h hp
  | case2 => cases hfound
  | case3 => cases hfound
  | case4 depth r j s k' hp v hb hs hv htrue hfalse found' k'' he ih =>
      cases hfound
      exact ih (hassign _ _ (propagate_keeps hassign h hp) hv) he
  | case5 depth r j s k' hp v hb hs hv htrue hfalse k'' he ih₁ ih₂ =>
      exact ih₂ (hassign _ _ (propagate_keeps hassign h hp) hv) hfound

/-- Propagation that leaves the formula undecided has no step left to take. -/
theorem forced?_of_undecided (hp : r.propagate j = (.undecided, s, k)) : s.forced? = none := by
  fun_induction Residual.propagate r j with
  | case1 => cases hp
  | case2 => cases hp
  | case3 r j hs hf => cases hp; exact hf
  | case4 r j _ step hstep _ ih => exact ih hp

/-- How the formula that propagation ends in relates to the one that it began with. -/
structure Propagated (r : Residual) (status : Status) (s : Residual) : Prop where
  /-- The status is that of the formula. -/
  status_eq : s.status = status
  /-- Literals were only added to the trail. -/
  suffix : r.trail <:+ s.trail
  /-- The formulas are satisfiable alike. -/
  satisfiable_iff : s.Satisfiable ↔ r.Satisfiable

theorem propagated (hp : r.propagate j = (status, s, k)) :
    Propagated r status s := by
  fun_induction Residual.propagate r j with
  | case1 r j h =>
      cases hp
      exact ⟨h, List.suffix_rfl, Iff.rfl⟩
  | case2 r j h =>
      cases hp
      exact ⟨h, List.suffix_rfl, Iff.rfl⟩
  | case3 r j h =>
      cases hp
      exact ⟨h, List.suffix_rfl, Iff.rfl⟩
  | case4 r j _ step hstep _ ih =>
      have hrest := ih hp
      exact ⟨hrest.status_eq, (List.suffix_cons _ _).trans hrest.suffix,
        hrest.satisfiable_iff.trans (satisfiable_forced_iff hstep)⟩

theorem clauses_of_found (hfound : r.explore depth j = (some found, k)) : found.clauses = [] := by
  fun_induction Residual.explore depth r j generalizing found k with
  | case1 depth r j s k' hp => cases hfound; exact clauses_of_satisfied (propagated hp).status_eq
  | case2 => cases hfound
  | case3 => cases hfound
  | case4 depth r j s k' hp v hb hs hv htrue hfalse found' k'' he ih => cases hfound; exact ih he
  | case5 depth r j s k' hp v hb hs hv htrue hfalse k'' he ih₁ ih₂ => exact ih₂ hfound

/-- The search succeeds just on satisfiable formulas. -/
theorem explore_isSome_iff : (r.explore depth j).1.isSome = true ↔ r.Satisfiable := by
  fun_induction Residual.explore depth r j with
  | case1 depth r j s k hp =>
      have hs := propagated hp
      exact iff_of_true rfl (hs.satisfiable_iff.mp (satisfiable_of_satisfied hs.status_eq))
  | case2 depth r j s k hp =>
      have hs := propagated hp
      refine iff_of_false (by simp) fun hr => ?_
      exact not_satisfiable_of_conflict hs.status_eq (hs.satisfiable_iff.mpr hr)
  | case3 depth r j s k hp hb =>
      obtain ⟨v, hv⟩ := exists_branch? (propagated hp).status_eq
      rw [hb] at hv
      cases hv
  | case4 depth r j s k hp v hb hs hv htrue hfalse found k' he ih =>
      rw [he] at ih
      have hsat : s.Satisfiable := (satisfiable_branch_iff v).mpr (.inl (ih.mp rfl))
      exact iff_of_true rfl ((propagated hp).satisfiable_iff.mp hsat)
  | case5 depth r j s k hp v hb hs hv htrue hfalse k' he ih₁ ih₂ =>
      rw [he] at ih₁
      have hnot : ¬ (s.assign ⟨v, true⟩).Satisfiable := fun h => by simpa using ih₁.mpr h
      rw [ih₂, ← (propagated hp).satisfiable_iff, satisfiable_branch_iff (r := s) v]
      constructor
      · intro h
        exact .inr h
      · intro h
        exact h.resolve_left hnot

end Residual

end Clausal
