import Clausal.Proofs.Saturation.Runs

/-!
# Asking a saturation again

The round that ends a run adds nothing to the working set: it has met the empty clause, which is
not kept, or it has found nothing new.  So the round after it goes through the same clauses.  It
ends in the same way (`exists_ended_of_toList_eq`) and computes as many resolvents
(`stats_step`), and by induction so does every call after the first one (`Settled.callAll`).

A solver of a formula with the empty clause does not come to any round.
-/

namespace Clausal

/-- The counters after `n` further rounds that computed `k` resolvents each. -/
def Stats.afterRounds (s : Stats) (n k : Nat) : Stats :=
  { s with rounds := s.rounds + n, resolvents := s.resolvents + n * k }

theorem Stats.afterRounds_zero (s : Stats) (k : Nat) : s.afterRounds 0 k = s := by
  simp [afterRounds]

theorem Stats.afterRounds_add (s : Stats) (m n k : Nat) :
    (s.afterRounds m k).afterRounds n k = s.afterRounds (m + n) k := by
  simp [afterRounds, Nat.add_mul, Nat.add_assoc]

namespace Saturation

variable {f : Formula} {s t u : Saturation} {o : Outcome} {k n : Nat}

/-! ## Rounds over the same clauses -/

/-- How many resolvents a round over the working set computes. -/
def roundResolvents (w : ClauseSet) : Nat :=
  match round w with
  | .error x => x.resolvents
  | .ok r => r.resolvents

/-- A round counts itself and what it computes, and that depends on the working set only. -/
theorem stats_step (s : Saturation) : s.step.state.journal.stats =
    s.journal.stats.afterRounds 1 (roundResolvents s.working) := by
  cases hr : round s.working with
  | error x =>
      simp [step, roundResolvents, hr, Step.state, Journal.note, Journal.count, countRound,
        Stats.afterRounds]
  | ok r =>
      simp only [step, roundResolvents, hr]
      split <;> simp [Step.state, Journal.note, Journal.count, countRound, Stats.afterRounds]

/-- Whether a round ends, and how, depends on the list of the working set only. -/
theorem exists_ended_of_toList_eq (h : s.step = .ended o u)
    (hw : t.working.toList = s.working.toList) :
    ∃ v, t.step = .ended o v ∧ v.working = t.working := by
  rcases step_cases s with ⟨he, _, hs, _⟩ | ⟨he, hclosed, _, hs, _⟩ | ⟨_, _, hs, _⟩
  · rw [hs] at h
    cases h
    exact step_of_empty (hw ▸ he)
  · rw [hs] at h
    cases h
    exact step_of_closed (hw ▸ he) (hw ▸ hclosed)
  · rw [hs] at h
    cases h

/-! ## Further calls -/

/-- The calls that saturate. -/
inductive Call where
  | saturate
  | solve
deriving DecidableEq, Repr

/-- What a call returns. -/
inductive Reply where
  | outcome (o : Outcome)
  | solution (x : Solution)

/-- Carry out a call. -/
def call (s : Saturation) : Call → Reply × Saturation
  | .saturate => (.outcome s.saturate.1, s.saturate.2)
  | .solve => (.solution s.solve.1, s.solve.2)

/-- Carry out calls, one after the other: what they return, and the solver after the last one. -/
def callAll (s : Saturation) : List Call → List Reply × Saturation
  | [] => ([], s)
  | c :: calls =>
      let (reply, t) := s.call c
      let (replies, u) := t.callAll calls
      (reply :: replies, u)

/-- What a call returns that ends with an outcome. -/
def replyOf (o : Outcome) : Call → Reply
  | .saturate => .outcome o
  | .solve => .solution o.solution

/-- A solver whose next call runs one round, which ends with the outcome and computes `k`
resolvents. -/
structure Settled (o : Outcome) (k : Nat) (s : Saturation) : Prop where
  hasEmptyClause_eq : s.hasEmptyClause = false
  ends : ∃ u, s.step = .ended o u
  resolvents_eq : roundResolvents s.working = k

theorem Settled.saturate (h : Settled o k s) : s.saturate.1 = o ∧ Settled o k s.saturate.2 ∧
    s.saturate.2.working = s.working ∧
    s.saturate.2.journal.stats = s.journal.stats.afterRounds 1 k := by
  obtain ⟨u, hu⟩ := h.ends
  have hsaturate : s.saturate = (o, u) := by
    rw [Saturation.saturate, h.hasEmptyClause_eq]
    exact rounds_of_ended hu
  have hw := working_of_ended hu
  have hflag := hasEmptyClause_step s
  have hstats := stats_step s
  rw [hu] at hflag hstats
  obtain ⟨v, hv, _⟩ := exists_ended_of_toList_eq hu (congrArg ClauseSet.toList hw)
  rw [hsaturate, ← h.resolvents_eq]
  exact ⟨rfl, ⟨hflag.trans h.hasEmptyClause_eq, ⟨v, hv⟩, by rw [hw]⟩, hw, hstats⟩

theorem call_eq (s : Saturation) (c : Call) :
    s.call c = (replyOf s.saturate.1 c, s.saturate.2) := by
  cases c <;> rfl

/-- Every call of a settled solver gives the answer that was given and counts one more round. -/
theorem Settled.callAll (h : Settled o k s) (calls : List Call) :
    (s.callAll calls).1 = calls.map (replyOf o) ∧
    (s.callAll calls).2.working = s.working ∧
    (s.callAll calls).2.journal.stats = s.journal.stats.afterRounds calls.length k := by
  induction calls generalizing s with
  | nil => exact ⟨rfl, rfl, (Stats.afterRounds_zero _ k).symm⟩
  | cons c calls ih =>
      obtain ⟨houtcome, hsettled, hworking, hstats⟩ := h.saturate
      obtain ⟨hreplies, hworking', hstats'⟩ := ih hsettled
      rw [hstats, Stats.afterRounds_add, Nat.add_comm] at hstats'
      rw [Saturation.callAll, call_eq, houtcome]
      exact ⟨congrArg (replyOf o c :: ·) hreplies, hworking'.trans hworking, hstats'⟩

theorem Settled.of_ended (h : t.step = .ended o s) (hflag : s.hasEmptyClause = false) :
    Settled o (roundResolvents t.working) s := by
  have hw := working_of_ended h
  obtain ⟨u, hu, _⟩ := exists_ended_of_toList_eq h (congrArg ClauseSet.toList hw)
  exact ⟨hflag, ⟨u, hu⟩, congrArg roundResolvents hw⟩

/-- A formula with the empty clause is refuted by any call, and none of them changes anything. -/
theorem callAll_of_hasEmptyClause (h : s.hasEmptyClause = true) (calls : List Call) :
    s.callAll calls = (calls.map (replyOf .refuted), s) := by
  have hsaturate : s.saturate = (.refuted, s) := if_pos h
  induction calls with
  | nil => rfl
  | cons c calls ih =>
      rw [callAll, call_eq, hsaturate]
      simp only [ih, List.map_cons]

/-! ## The first call -/

/-- The solver of a formula without the empty clause runs rounds until one ends, and after it the
solver is settled. -/
theorem exists_settled (he : Clause.empty ∉ f.clauses) : ∃ n t k, Grows n (start f) t ∧
    t.step = .ended (start f).saturate.1 (start f).saturate.2 ∧
    (start f).saturate.2.journal.stats = t.journal.stats.afterRounds 1 k ∧
    Settled (start f).saturate.1 k (start f).saturate.2 := by
  have hflag : ¬ (start f).hasEmptyClause = true := mt hasEmptyClause_iff.mp he
  obtain ⟨n, t, hgrows, hlast, _⟩ := exists_grows (start f)
  have hsaturate : (start f).saturate = (start f).rounds := if_neg hflag
  rw [← hsaturate] at hlast
  obtain ⟨m, _, hreached⟩ := (Reached.start (f := f)).saturate
  have hclear : (start f).saturate.2.hasEmptyClause = false :=
    hreached.hasEmptyClause_eq.trans (Bool.eq_false_iff.mpr hflag)
  have hstats := stats_step t
  rw [hlast] at hstats
  exact ⟨n, t, _, hgrows, hlast, hstats, .of_ended hlast hclear⟩

/-- The formula of the clauses that a saturation ends with. -/
def resultFormula (f : Formula) : Formula := .ofClauses (start f).saturate.2.working.toList

/-- The formula of the result starts a solver with the working set that the run ended with. -/
theorem working_start_result (f : Formula) :
    (start (resultFormula f)).working.toList = (start f).saturate.2.working.toList := by
  obtain ⟨m, _, hreached⟩ := (Reached.start (f := f)).saturate
  exact ClauseSet.toList_ofProper_of_nodup hreached.begins.nodup hreached.begins.noTautology

theorem empty_mem_result_iff :
    Clause.empty ∈ (resultFormula f).clauses ↔ Clause.empty ∈ f.clauses := by
  obtain ⟨m, _, hreached⟩ := (Reached.start (f := f)).saturate
  constructor
  · intro hm
    exact Classical.not_not.mp fun he => hreached.empty_not_mem he hm
  · intro he
    exact (hreached.atLevel .empty).mpr (WithinRounds.mono (Nat.zero_le m) ⟨he, rfl⟩)

theorem saturate_of_empty_mem (he : Clause.empty ∈ f.clauses) :
    (start f).saturate = (.refuted, start f) :=
  if_pos (hasEmptyClause_iff.mpr he)

/-- The clauses that a saturation ends with are saturated again in one round with the same outcome,
or in none if the empty clause is among them. -/
theorem saturate_result (f : Formula) :
    (start (resultFormula f)).saturate.1 = (start f).saturate.1 ∧
    (start (resultFormula f)).saturate.2.working.toList = (start f).saturate.2.working.toList ∧
    (start (resultFormula f)).saturate.2.journal.stats.rounds =
      if Clause.empty ∈ f.clauses then 0 else 1 := by
  have hworking := working_start_result f
  split
  · next he =>
      rw [saturate_of_empty_mem (empty_mem_result_iff.mpr he)]
      refine ⟨?_, hworking, rfl⟩
      rw [saturate_of_empty_mem he]
  · next he =>
      obtain ⟨_, _, _, _, _, _, hsettled⟩ := exists_settled he
      obtain ⟨u, hu⟩ := hsettled.ends
      obtain ⟨v, hv, _⟩ := exists_ended_of_toList_eq hu hworking
      have hflag : (start (resultFormula f)).hasEmptyClause = false :=
        Bool.eq_false_iff.mpr (mt hasEmptyClause_iff.mp (mt empty_mem_result_iff.mp he))
      have hresult : Settled (start f).saturate.1 _ (start (resultFormula f)) :=
        ⟨hflag, ⟨v, hv⟩, rfl⟩
      obtain ⟨houtcome, _, hsame, hstats⟩ := hresult.saturate
      exact ⟨houtcome, (congrArg ClauseSet.toList hsame).trans hworking,
        congrArg Stats.rounds hstats⟩

/-! ## Any call after the first one -/

/-- After the first saturation every call returns the same outcome and leaves the working set as it
is.  If the formula has the empty clause a call changes nothing at all.  Otherwise it counts one
round, which computes as many resolvents as the last round of the first saturation.  A new solver of
the clauses that the first one ended with comes to the same end, with the clauses in the same
order. -/
theorem saturate_repeated (f : Formula) : ∃ o s, (start f).saturate = (o, s) ∧
    (∀ calls, (s.callAll calls).1 = calls.map (replyOf o) ∧
      (s.callAll calls).2.working = s.working) ∧
    (Clause.empty ∈ f.clauses → ∀ calls, (s.callAll calls).2 = s) ∧
    (Clause.empty ∉ f.clauses → ∃ n t k, Grows n (start f) t ∧ t.step = .ended o s ∧
      s.journal.stats = t.journal.stats.afterRounds 1 k ∧
      ∀ calls, (s.callAll calls).2.journal.stats =
        s.journal.stats.afterRounds calls.length k) ∧
    (start (.ofClauses s.working.toList)).saturate.1 = o ∧
    (start (.ofClauses s.working.toList)).saturate.2.working.toList = s.working.toList ∧
    (start (.ofClauses s.working.toList)).saturate.2.journal.stats.rounds =
      if Clause.empty ∈ f.clauses then 0 else 1 := by
  refine ⟨(start f).saturate.1, (start f).saturate.2, rfl, ?_, ?_, ?_, saturate_result f⟩
  · intro calls
    by_cases he : Clause.empty ∈ f.clauses
    · rw [saturate_of_empty_mem he, callAll_of_hasEmptyClause (hasEmptyClause_iff.mpr he)]
      exact ⟨rfl, rfl⟩
    · obtain ⟨_, _, _, _, _, _, hsettled⟩ := exists_settled he
      obtain ⟨hreplies, hworking, _⟩ := hsettled.callAll calls
      exact ⟨hreplies, hworking⟩
  · intro he calls
    rw [saturate_of_empty_mem he, callAll_of_hasEmptyClause (hasEmptyClause_iff.mpr he)]
  · intro he
    obtain ⟨n, t, k, hgrows, hlast, hstats, hsettled⟩ := exists_settled he
    exact ⟨n, t, k, hgrows, hlast, hstats, fun calls => (hsettled.callAll calls).2.2⟩

end Saturation

end Clausal
