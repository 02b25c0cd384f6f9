import Clausal.Proofs.Saturation.Runs

/-!
# The order of the clauses does not matter

A round goes through pairs of clauses, so the order of the working set decides which clause of a
pair comes first and where a round that meets the empty clause stops.  It does not decide what
there is to find: the resolvents of the same clauses in another order are the same resolvents in
another order (`resolvents_perm`).

Two solvers are `Alike` if their working sets hold the same clauses and they have counted alike.
A round leads from such a pair to such a pair and ends for both or for none (`Alike.step_cases`),
so their runs end after the same round (`Alike.rounds`).  What they have counted differs only if
that round has met the empty clause.
-/

namespace Clausal

namespace Saturation

variable {f g : Formula} {s t : Saturation}

/-! ## The resolvents of a round -/

/-- The same clauses in another order have the same resolvents in another order. -/
theorem resolvents_perm {cs ds : List Clause} (h : cs.Perm ds) :
    (resolvents cs).Perm (resolvents ds) := by
  induction h with
  | nil => exact .nil
  | cons a h ih =>
      rw [resolvents_cons, resolvents_cons]
      exact (h.flatMap_right _).append ih
  | swap a b cs =>
      -- The pair of the two heads is met from either side, and the other pairs change places.
      simp only [resolvents_cons, List.flatMap_cons, List.append_assoc]
      rw [derivations_comm]
      refine List.Perm.append_left _ ?_
      simp only [← List.append_assoc]
      exact List.perm_append_comm.append_right _
  | trans _ _ ih₁ ih₂ => exact ih₁.trans ih₂

/-! ## Solvers with the same clauses -/

/-- The working sets hold the same clauses, and the counters agree. -/
structure Alike (s t : Saturation) : Prop where
  perm : s.working.toList.Perm t.working.toList
  rounds_eq : s.journal.stats.rounds = t.journal.stats.rounds
  resolvents_eq : s.journal.stats.resolvents = t.journal.stats.resolvents

/-- How two runs agree that have ended: on the outcome, the number of rounds and the clauses, and
on the resolvents counted unless the empty clause was met. -/
structure Agree (x y : Outcome × Saturation) : Prop where
  outcome_eq : x.1 = y.1
  perm : x.2.working.toList.Perm y.2.working.toList
  rounds_eq : x.2.journal.stats.rounds = y.2.journal.stats.rounds
  resolvents_eq : x.1 = .saturated →
    x.2.journal.stats.resolvents = y.2.journal.stats.resolvents

/-- Sets with the same clauses list them in another order at most. -/
theorem perm_of_mem_iff {v w : ClauseSet} (h : ∀ c, c ∈ v.toList ↔ c ∈ w.toList) :
    v.toList.Perm w.toList :=
  (List.perm_ext_iff_of_nodup v.toList_nodup w.toList_nodup).mpr h

theorem Alike.mem_iff (h : Alike s t) {c : Clause} :
    c ∈ s.working.toList ↔ c ∈ t.working.toList := h.perm.mem_iff

theorem Alike.mem_resolvents_iff (h : Alike s t) {c : Clause} :
    c ∈ resolvents s.working.toList ↔ c ∈ resolvents t.working.toList :=
  (resolvents_perm h.perm).mem_iff

/-- Rounds over the same clauses are counted alike. -/
theorem Alike.rounds_step_eq (h : Alike s t) :
    s.step.state.journal.stats.rounds = t.step.state.journal.stats.rounds := by
  rw [rounds_step, rounds_step, h.rounds_eq]

/-- Rounds that do not meet the empty clause compute as many resolvents. -/
theorem Alike.resolvents_step_eq (h : Alike s t)
    (he : Clause.empty ∉ resolvents s.working.toList) :
    s.step.state.journal.stats.resolvents = t.step.state.journal.stats.resolvents := by
  rw [resolvents_step he, resolvents_step (mt h.mem_resolvents_iff.mpr he), h.resolvents_eq,
    (resolvents_perm h.perm).length_eq]

/-- A round ends for both solvers, and then they agree, or it goes on for both, and then they are
alike again. -/
theorem Alike.step_cases (h : Alike s t) :
    (∃ outcome s' t', s.step = .ended outcome s' ∧ t.step = .ended outcome t' ∧
      Agree (outcome, s') (outcome, t')) ∨
    (∃ s' t', s.step = .grown s' ∧ t.step = .grown t' ∧ Alike s' t') := by
  have hrounds := h.rounds_step_eq
  by_cases he : Clause.empty ∈ resolvents s.working.toList
  · obtain ⟨s', hs, hsw⟩ := step_of_empty he
    obtain ⟨t', ht, htw⟩ := step_of_empty (h.mem_resolvents_iff.mp he)
    rw [hs, ht] at hrounds
    exact .inl ⟨_, s', t', hs, ht, rfl, hsw ▸ htw ▸ h.perm, hrounds, nofun⟩
  · have he' : Clause.empty ∉ resolvents t.working.toList :=
      mt h.mem_resolvents_iff.mpr he
    have hresolvents := h.resolvents_step_eq he
    by_cases hclosed : ∀ c ∈ resolvents s.working.toList, c ∈ s.working.toList
    · have hclosed' : ∀ c ∈ resolvents t.working.toList, c ∈ t.working.toList := fun c hc =>
        h.mem_iff.mp (hclosed c (h.mem_resolvents_iff.mpr hc))
      obtain ⟨s', hs, hsw⟩ := step_of_closed he hclosed
      obtain ⟨t', ht, htw⟩ := step_of_closed he' hclosed'
      rw [hs, ht] at hrounds hresolvents
      exact .inl ⟨_, s', t', hs, ht, rfl, hsw ▸ htw ▸ h.perm, hrounds, fun _ => hresolvents⟩
    · have hopen : ¬ ∀ c ∈ resolvents t.working.toList, c ∈ t.working.toList := fun hall =>
        hclosed fun c hc => h.mem_iff.mpr (hall c (h.mem_resolvents_iff.mp hc))
      obtain ⟨s', hs, hsw⟩ := step_of_new he hclosed
      obtain ⟨t', ht, htw⟩ := step_of_new he' hopen
      rw [hs, ht] at hrounds hresolvents
      refine .inr ⟨s', t', hs, ht, perm_of_mem_iff fun c => ?_, hrounds, hresolvents⟩
      rw [hsw, htw, h.mem_iff, h.mem_resolvents_iff]

/-! ## Runs -/

/-- Rounds from solvers that are alike end in the same round, in agreement. -/
theorem Alike.rounds (h : Alike s t) : Agree s.rounds t.rounds := by
  induction hroom : s.working.room using Nat.strongRecOn generalizing s t with
  | ind room ih =>
      rcases h.step_cases with ⟨outcome, s', t', hs, ht, hagree⟩ | ⟨s', t', hs, ht, halike⟩
      · rw [rounds_of_ended hs, rounds_of_ended ht]
        exact hagree
      · rw [rounds_of_grown hs, rounds_of_grown ht]
        exact ih _ (hroom ▸ room_lt_of_step hs) halike rfl

theorem Alike.saturate (h : Alike s t) (he : s.hasEmptyClause = t.hasEmptyClause) :
    Agree s.saturate t.saturate := by
  rw [Saturation.saturate, Saturation.saturate, he]
  split
  · exact ⟨rfl, h.perm, h.rounds_eq, fun _ => h.resolvents_eq⟩
  · exact h.rounds

/-- The formulas have the same clauses that are no tautologies. -/
def SameProper (f g : Formula) : Prop :=
  ∀ c : Clause, c.isTautology = false → (c ∈ f.clauses ↔ c ∈ g.clauses)

/-- Formulas with the same clauses, tautologies aside, start solvers that are alike. -/
theorem SameProper.start (h : SameProper f g) : Alike (start f) (start g) := by
  refine ⟨perm_of_mem_iff fun c => ?_, rfl, rfl⟩
  rw [start_atLevel f c, start_atLevel g c]
  exact and_congr_left fun ht => h c ht

theorem SameProper.hasEmptyClause_eq (h : SameProper f g) :
    f.hasEmptyClause = g.hasEmptyClause := by
  rw [Bool.eq_iff_iff, hasEmptyClause_iff, hasEmptyClause_iff]
  exact h _ rfl

/-- What a saturation finds depends only on the set of clauses that are no tautologies: neither on
their order, nor on how often they come, nor on the tautologies among them. -/
theorem saturate_congr (h : SameProper f g) :
    (start f).saturate.1 = (start g).saturate.1 ∧
      (start f).saturate.2.journal.stats.rounds = (start g).saturate.2.journal.stats.rounds ∧
      (∀ c, c ∈ (start f).saturate.2.working.toList ↔
        c ∈ (start g).saturate.2.working.toList) ∧
      ((start f).saturate.1 = .saturated →
        (start f).saturate.2.journal.stats.resolvents =
          (start g).saturate.2.journal.stats.resolvents) := by
  have hagree := h.start.saturate h.hasEmptyClause_eq
  exact ⟨hagree.outcome_eq, hagree.rounds_eq, fun _ => hagree.perm.mem_iff, hagree.resolvents_eq⟩

/-- `(¬x1 ∨ x2) ∧ (x1 ∨ x2)`: the clauses of `repeatingFormula` that are no tautologies, in another
order and each of them once. -/
def reorderedFormula : Formula :=
  .ofClauses [.ofLiterals [⟨.x1, false⟩, ⟨.x2, true⟩], .ofLiterals [⟨.x1, true⟩, ⟨.x2, true⟩]]

/-- Both formulas are saturated after two rounds, which compute one resolvent each. -/
theorem saturate_repeatingFormula : SameProper repeatingFormula reorderedFormula ∧
    (start reorderedFormula).saturate.1 = .saturated ∧
    (start repeatingFormula).saturate.1 = .saturated ∧
    (start repeatingFormula).saturate.2.journal.stats.rounds = 2 ∧
    (start repeatingFormula).saturate.2.journal.stats.resolvents = 2 := by
  have hsame : SameProper repeatingFormula reorderedFormula := by
    intro c hc
    simp only [repeatingFormula, reorderedFormula, Formula.clauses_ofClauses, List.mem_cons,
      List.not_mem_nil, or_false]
    constructor
    · rintro (h | rfl | h | h)
      · exact .inr h
      · cases hc
      · exact .inr h
      · exact .inl h
    · rintro (h | h)
      · exact .inr (.inr (.inr h))
      · exact .inl h
  obtain ⟨houtcome, hrounds, _, hresolvents⟩ := saturate_congr hsame
  have hsaturated : (start reorderedFormula).saturate.1 = .saturated := by decide +kernel
  refine ⟨hsame, hsaturated, houtcome.trans hsaturated, hrounds.trans (by decide +kernel), ?_⟩
  exact (hresolvents (houtcome.trans hsaturated)).trans (by decide +kernel)

end Saturation

end Clausal
