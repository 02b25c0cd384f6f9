import Clausal.Proofs.ClauseSet
import Clausal.Proofs.Saturation.Closure

/-!
# The working set of a saturation

At every point of a saturation the working set holds clauses once and no tautologies, and it
begins with the clauses of the formula (`Begins`).  Between two rounds it is a level of the
closure, the one of as many rounds as have found something (`Reached.atLevel`).  While the
clauses of a round are added it lies between two levels.

A solver may be asked again after an answer.  It goes on where it was, so the states of several
runs in a row are `Reached` like those of the first, and a run from any of them answers alike
(`Reached.saturate_iff`).
-/

namespace Clausal

namespace Saturation

variable {f : Formula} {s t : Saturation} {n : Nat} {w : ClauseSet} {r : Round}

/-! ## One step -/

/-- The solver that a step leads to. -/
def Step.state : Step → Saturation
  | .ended _ s => s
  | .grown s => s

theorem hasEmptyClause_step (s : Saturation) :
    s.step.state.hasEmptyClause = s.hasEmptyClause := by
  unfold step
  split
  · rfl
  · dsimp only
    split
    · rfl
    · rfl

/-- A round that goes on has found something, and adds it. -/
theorem exists_round_of_grown (h : s.step = .grown t) : ∃ r, round s.working = .ok r ∧
    r.fresh.toList ≠ [] ∧ t.working = s.working.insertAll r.fresh.toList := by
  unfold step at h
  split at h
  · cases h
  · next r hr =>
      dsimp only at h
      split at h
      · cases h
      · next hne =>
          cases h
          exact ⟨r, hr, fun hnil => hne (ClauseSet.isEmpty_iff.mpr hnil), rfl⟩

/-- The round that ends a run adds nothing. -/
theorem working_of_ended {outcome : Outcome} (h : s.step = .ended outcome t) :
    t.working = s.working := by
  rcases step_cases s with ⟨_, u, hs, hw⟩ | ⟨_, _, u, hs, hw⟩ | ⟨_, u, hs, _⟩
  · rw [hs] at h; cases h; exact hw
  · rw [hs] at h; cases h; exact hw
  · rw [hs] at h; cases h

/-- A round that goes on has not met the empty clause, and adds all resolvents. -/
theorem mem_of_grown (h : s.step = .grown t) : Clause.empty ∉ resolvents s.working.toList ∧
    ∀ c, c ∈ t.working.toList ↔ c ∈ s.working.toList ∨ c ∈ resolvents s.working.toList := by
  rcases step_cases s with ⟨_, u, hs, _⟩ | ⟨_, _, u, hs, _⟩ | ⟨he, u, hs, hw⟩
  · rw [hs] at h; cases h
  · rw [hs] at h; cases h
  · rw [hs] at h; cases h; exact ⟨he, hw⟩

/-- What a round keeps are resolvents. -/
theorem mem_resolvents_of_fresh {c : Clause} (h : round w = .ok r) (hc : c ∈ r.fresh.toList) :
    c ∈ resolvents w.toList := by
  by_cases he : Clause.empty ∈ resolvents w.toList
  · obtain ⟨x, hx⟩ := round_error he
    rw [hx] at h
    cases h
  · rw [round_ok he, Except.ok.injEq] at h
    subst h
    exact (mem_takeAll.mp hc).1

/-! ## States of a saturation -/

/-- The states of a solver of the formula between two rounds, and how many of the rounds before
have found something. -/
inductive Reached (f : Formula) : Nat → Saturation → Prop where
  /-- Before the first round. -/
  | start : Reached f 0 (start f)
  /-- A round finds something. -/
  | grown {n : Nat} {s t : Saturation} : Reached f n s → s.step = .grown t → Reached f (n + 1) t
  /-- A round finds the empty clause, or nothing. -/
  | ended {n : Nat} {s t : Saturation} {outcome : Outcome} : Reached f n s →
      s.step = .ended outcome t → Reached f n t

/-- Between two rounds the working set is the level of as many rounds as have found something. -/
theorem Reached.atLevel (h : Reached f n s) : AtLevel f n s := by
  induction h with
  | start => exact start_atLevel f
  | grown _ hs ih => exact ih.succ (mem_of_grown hs).2
  | ended _ hs ih =>
      intro c
      rw [working_of_ended hs]
      exact ih c

theorem Reached.hasEmptyClause_eq (h : Reached f n s) : s.hasEmptyClause = f.hasEmptyClause := by
  induction h with
  | start => rfl
  | @grown _ s _ _ hs ih =>
      have hstep := hasEmptyClause_step s
      rw [hs] at hstep
      exact hstep.trans ih
  | @ended _ s _ _ _ hs ih =>
      have hstep := hasEmptyClause_step s
      rw [hs] at hstep
      exact hstep.trans ih

/-- The empty clause never goes to the working set. -/
theorem Reached.empty_not_mem (h : Reached f n s) (he : Clause.empty ∉ f.clauses) :
    Clause.empty ∉ s.working.toList := by
  induction h with
  | start => exact fun hm => he ((start_atLevel f _).mp hm).1
  | grown _ hs ih =>
      intro hm
      obtain ⟨hnot, hw⟩ := mem_of_grown hs
      rcases (hw _).mp hm with hm | hm
      · exact ih hm
      · exact hnot hm
  | ended _ hs ih =>
      rw [working_of_ended hs]
      exact ih

/-! ## How the working set begins -/

/-- The distinct clauses of the formula that are no tautologies, in order of first occurrence. -/
def properClauses (f : Formula) : List Clause :=
  (f.clauses.filter fun c => !c.isTautology).eraseDups

/-- The set lists clauses once and finds just these, none of them is a tautology, and those of
the formula come first. -/
structure Begins (f : Formula) (w : ClauseSet) : Prop where
  /-- No clause comes twice. -/
  nodup : w.toList.Nodup
  /-- The index finds exactly the clauses of the list. -/
  contains_iff : ∀ c, w.contains c = true ↔ c ∈ w.toList
  /-- No clause is a tautology. -/
  noTautology : ∀ c ∈ w.toList, c.isTautology = false
  /-- The list begins with the clauses of the formula. -/
  isPrefix : properClauses f <+: w.toList

theorem begins (hfirst : properClauses f <+: w.toList)
    (hw : ∀ c ∈ w.toList, WithinRounds f.clauses n c) : Begins f w where
  nodup := w.toList_nodup
  contains_iff := fun _ => ClauseSet.contains_iff
  noTautology := fun c hc => (derivable_iff.mpr ⟨n, hw c hc⟩).isTautology_eq_false
  isPrefix := hfirst

/-- The working set begins with the clauses of the formula, however many rounds there were. -/
theorem Reached.isPrefix (h : Reached f n s) : properClauses f <+: s.working.toList := by
  induction h with
  | start =>
      show properClauses f <+: (ClauseSet.ofList _).toList
      rw [ClauseSet.toList_ofList]
      exact List.prefix_rfl
  | grown _ hs ih =>
      obtain ⟨r, _, _, hw⟩ := exists_round_of_grown hs
      rw [hw]
      exact ih.trans ClauseSet.prefix_insertAll
  | ended _ hs ih =>
      rw [working_of_ended hs]
      exact ih

theorem Reached.begins (h : Reached f n s) : Begins f s.working :=
  Saturation.begins h.isPrefix fun c hc => (h.atLevel c).mp hc

/-- While the clauses of a round are added, the set lies between two levels. -/
theorem Reached.begins_insertAll (h : Reached f n s) (hr : round s.working = .ok r) (k : Nat) :
    Begins f (s.working.insertAll (r.fresh.toList.take k)) := by
  refine Saturation.begins (n := n + 1) (h.isPrefix.trans ClauseSet.prefix_insertAll) ?_
  intro c hc
  rcases ClauseSet.mem_insertAll.mp hc with hc | hc
  · exact .inl ((h.atLevel c).mp hc)
  · exact .inr (h.atLevel.mem_resolvents_iff.mp
      (mem_resolvents_of_fresh hr (List.mem_of_mem_take hc)))

/-! ## Runs -/

/-- A run goes from a state that is reached to one that is, and never back. -/
theorem Reached.rounds (h : Reached f n s) : ∃ m, n ≤ m ∧ Reached f m s.rounds.2 := by
  induction hroom : s.working.room using Nat.strongRecOn generalizing n s with
  | ind room ih =>
      cases hs : s.step with
      | ended outcome t =>
          rw [rounds_of_ended hs]
          exact ⟨n, Nat.le_refl n, h.ended hs⟩
      | grown t =>
          rw [rounds_of_grown hs]
          obtain ⟨m, hm, ht⟩ := ih _ (hroom ▸ room_lt_of_step hs) (h.grown hs) rfl
          exact ⟨m, Nat.le_of_succ_le hm, ht⟩

/-- A run ends in a state that can be reached, after the rounds before and some more. -/
theorem Reached.saturate (h : Reached f n s) : ∃ m, n ≤ m ∧ Reached f m s.saturate.2 := by
  rw [Saturation.saturate]
  split
  · exact ⟨n, Nat.le_refl n, h⟩
  · exact h.rounds

/-- A run on a formula without the empty clause ends saturated if resolution does not derive it,
and then with all that resolution derives. -/
theorem Reached.saturate_iff (h : Reached f n s) (he : Clause.empty ∉ f.clauses) :
    (s.saturate.1 = .saturated ↔ ¬ Derivable f.clauses .empty) ∧
      (s.saturate.1 = .saturated →
        ∀ c, c ∈ s.saturate.2.working.toList ↔ Derivable f.clauses c) := by
  have hflag : ¬ s.hasEmptyClause = true := by
    rw [h.hasEmptyClause_eq, hasEmptyClause_iff]
    exact he
  rw [Saturation.saturate, if_neg hflag]
  rcases h.atLevel.rounds_cases (h.empty_not_mem he) with ⟨ho, hd⟩ | ⟨ho, hd, hw⟩
  · rw [ho]
    exact ⟨iff_of_false (by decide) fun hn => hn hd, fun he => by cases he⟩
  · rw [ho]
    exact ⟨iff_of_true rfl hd, fun _ => hw⟩

/-- Between two rounds the working set is the level of the closure that the rounds have come to,
and also while a round adds its clauses it begins with those of the formula.  A run goes on from
there.  On a formula without the empty clause it ends saturated just if resolution does not derive
that clause, and then the working set is the closure. -/
theorem working_eq_level (h : Reached f n s) :
    Begins f s.working ∧
    (∀ c, c ∈ s.working.toList ↔ WithinRounds f.clauses n c) ∧
    (∀ r k, round s.working = .ok r → Begins f (s.working.insertAll (r.fresh.toList.take k))) ∧
    (∃ m, n ≤ m ∧ Reached f m s.saturate.2) ∧
    (Clause.empty ∉ f.clauses →
      (s.saturate.1 = .saturated ↔ ¬ Derivable f.clauses .empty) ∧
      (s.saturate.1 = .saturated →
        ∀ c, c ∈ s.saturate.2.working.toList ↔ Derivable f.clauses c)) :=
  ⟨h.begins, h.atLevel, fun _ k hr => h.begins_insertAll hr k, h.saturate, h.saturate_iff⟩

/-- `(x1 ∨ x2) ∧ (x1 ∨ ¬x1) ∧ (x1 ∨ x2) ∧ (¬x1 ∨ x2)`: a tautology, and a clause that comes
twice. -/
def repeatingFormula : Formula :=
  let both : Clause := .ofLiterals [⟨.x1, true⟩, ⟨.x2, true⟩]
  .ofClauses [both, .ofLiterals [⟨.x1, true⟩, ⟨.x1, false⟩], both,
    .ofLiterals [⟨.x1, false⟩, ⟨.x2, true⟩]]

/-- One round finds the resolvent of the two proper clauses. -/
theorem reached_after_round : ∃ t, (start repeatingFormula).step = .grown t ∧
    Reached repeatingFormula 1 t ∧ Begins repeatingFormula t.working ∧
    (properClauses repeatingFormula).map Clause.text = ["(x1 ∨ x2)", "(¬x1 ∨ x2)"] ∧
    t.working.toList.map Clause.text = ["(x1 ∨ x2)", "(¬x1 ∨ x2)", "(x2)"] ∧
    (t.saturate.1 = .saturated ↔ ¬ Derivable repeatingFormula.clauses .empty) := by
  have he : Clause.empty ∉ repeatingFormula.clauses := by decide
  refine ⟨_, rfl, ?_⟩
  have h := Reached.start.grown (f := repeatingFormula) rfl
  exact ⟨h, (working_eq_level h).1, by decide, by decide, ((working_eq_level h).2.2.2.2 he).1⟩

end Saturation

end Clausal
