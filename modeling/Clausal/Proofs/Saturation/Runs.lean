import Clausal.Proofs.Saturation.WorkingSet

/-!
# Runs of a saturation, round by round

A run is some rounds that go on and one that ends it.  `Grows` counts the former, so a run is
spelled out by `exists_grows`: it ends, and it tells after which round.

Two counters go along with the rounds.  Every round counts as one (`rounds_step`).  Unless it
meets the empty clause it computes all resolvents of its working set and counts them
(`resolvents_step`).  A round that does meet it stops there, and what it has counted depends on the
order of the clauses.
-/

namespace Clausal

namespace Saturation

variable {s t u : Saturation} {n : Nat}

/-! ## The counters of a round -/

theorem rounds_step (s : Saturation) :
    s.step.state.journal.stats.rounds = s.journal.stats.rounds + 1 := by
  unfold step
  split
  · rfl
  · dsimp only
    split
    · rfl
    · rfl

/-- A round that does not meet the empty clause counts all resolvents. -/
theorem resolvents_step (he : Clause.empty ∉ resolvents s.working.toList) :
    s.step.state.journal.stats.resolvents =
      s.journal.stats.resolvents + (resolvents s.working.toList).length := by
  have hcount : (Round.takeAll s.working {} (resolvents s.working.toList)).resolvents =
      (resolvents s.working.toList).length := Nat.zero_add _
  simp only [step, round_ok he]
  split
  · simp only [Step.state, Journal.note, countRound, Journal.count, hcount]
  · simp only [Step.state, Journal.note, countRound, Journal.count, hcount]

/-! ## Which way a round goes -/

/-- A round that goes on has found a clause that is new. -/
theorem exists_new_of_grown (h : s.step = .grown t) :
    ∃ c ∈ resolvents s.working.toList, c ∉ s.working.toList ∧ s.working.size < t.working.size := by
  obtain ⟨r, hr, hne, hw⟩ := exists_round_of_grown h
  obtain ⟨c, hc⟩ := List.exists_mem_of_ne_nil _ hne
  have hnew := (round_fresh hr c hc).1
  exact ⟨c, mem_resolvents_of_fresh hr hc, hnew, hw ▸ ClauseSet.size_insertAll_lt hc hnew⟩

theorem step_of_empty (he : Clause.empty ∈ resolvents s.working.toList) :
    ∃ t, s.step = .ended .refuted t ∧ t.working = s.working := by
  rcases step_cases s with ⟨_, h⟩ | ⟨hn, _⟩ | ⟨hn, _⟩
  · exact h
  · exact absurd he hn
  · exact absurd he hn

theorem step_of_closed (he : Clause.empty ∉ resolvents s.working.toList)
    (hclosed : ∀ c ∈ resolvents s.working.toList, c ∈ s.working.toList) :
    ∃ t, s.step = .ended .saturated t ∧ t.working = s.working := by
  rcases step_cases s with ⟨hn, _⟩ | ⟨_, _, h⟩ | ⟨_, t, ht, _⟩
  · exact absurd hn he
  · exact h
  · obtain ⟨c, hc, hnew, _⟩ := exists_new_of_grown ht
    exact absurd (hclosed c hc) hnew

theorem step_of_new (he : Clause.empty ∉ resolvents s.working.toList)
    (hnew : ¬ ∀ c ∈ resolvents s.working.toList, c ∈ s.working.toList) :
    ∃ t, s.step = .grown t ∧
      ∀ c, c ∈ t.working.toList ↔ c ∈ s.working.toList ∨ c ∈ resolvents s.working.toList := by
  rcases step_cases s with ⟨hn, _⟩ | ⟨_, hclosed, _⟩ | ⟨_, h⟩
  · exact absurd hn he
  · exact absurd hclosed hnew
  · exact h

/-! ## Rounds in a row -/

/-- So many rounds in a row lead from one solver to another, and each of them goes on. -/
inductive Grows : Nat → Saturation → Saturation → Prop where
  | refl (s : Saturation) : Grows 0 s s
  | tail {n : Nat} {s t u : Saturation} : Grows n s t → t.step = .grown u → Grows (n + 1) s u

theorem Grows.rounds_eq (h : Grows n s t) :
    t.journal.stats.rounds = s.journal.stats.rounds + n := by
  induction h with
  | refl => rfl
  | @tail n s t u _ hs ih =>
      have hstep := rounds_step t
      rw [hs, ih] at hstep
      exact hstep

/-- The rounds of a formula before one has ended lead to states that can be reached. -/
theorem Grows.reached {f : Formula} {m : Nat} (h : Grows n s t) (hs : Reached f m s) :
    Reached f (m + n) t := by
  induction h with
  | refl => exact hs
  | tail _ hgrown ih => exact (ih hs).grown hgrown

/-- Rounds come to an end, wherever they have come to. -/
theorem Grows.exists_ended (h : Grows n s t) :
    ∃ m u, Grows m s u ∧ u.step = .ended t.rounds.1 t.rounds.2 := by
  induction hroom : t.working.room using Nat.strongRecOn generalizing n t with
  | ind room ih =>
      cases hs : t.step with
      | ended outcome u => exact ⟨n, t, h, by rw [hs, rounds_of_ended hs]⟩
      | grown u =>
          rw [rounds_of_grown hs]
          exact ih _ (hroom ▸ room_lt_of_step hs) (h.tail hs) rfl

/-- Rounds until one ends are some that go on and a last one, and all of them are counted. -/
theorem exists_grows (s : Saturation) :
    ∃ n t, Grows n s t ∧ t.step = .ended s.rounds.1 s.rounds.2 ∧
      s.rounds.2.journal.stats.rounds = s.journal.stats.rounds + n + 1 := by
  obtain ⟨n, t, hgrows, hlast⟩ := (Grows.refl s).exists_ended
  have hstep := rounds_step t
  rw [hlast, hgrows.rounds_eq] at hstep
  exact ⟨n, t, hgrows, hlast, hstep⟩

end Saturation

end Clausal
