import Clausal.Proofs.Renaming
import Clausal.Proofs.Saturation.Closure

/-!
# Saturation over other variables

Two saturations whose working sets match go the same way.  The pairs of clauses match, in order, and
so do the variables on which they clash, so a round computes resolvents that match, in order
(`rel_attempts`).  It meets the empty clause at the same place or keeps clauses that match
(`matches_round`).  Every step leads from such a pair to such a pair and counts alike
(`Matches.step`), and a run is some steps (`Matches.rounds`).
-/

namespace Clausal

open List (Forall₂)

variable {R : Variable → Variable → Prop}

/-! ## Loops that may end early -/

/-- Both computations end early, in ways that match, or neither does, and their values match. -/
inductive ExceptRel {ε δ α β : Type} (E : ε → δ → Prop) (P : α → β → Prop) :
    Except ε α → Except δ β → Prop where
  | error {x : ε} {y : δ} : E x y → ExceptRel E P (.error x) (.error y)
  | ok {a : α} {b : β} : P a b → ExceptRel E P (.ok a) (.ok b)

/-- Loops whose steps are related end in related states or with related errors. -/
theorem rel_foldlM {ε δ σ τ α β : Type} {E : ε → δ → Prop} {P : σ → τ → Prop} {S : α → β → Prop}
    {f : σ → α → Except ε σ} {g : τ → β → Except δ τ}
    (hfg : ∀ s t a b, P s t → S a b → ExceptRel E P (f s a) (g t b)) {as : List α} {bs : List β}
    (hs : Forall₂ S as bs) {s : σ} {t : τ} (h : P s t) :
    ExceptRel E P (as.foldlM f s) (bs.foldlM g t) := by
  induction hs generalizing s t with
  | nil => exact .ok h
  | @cons a b as bs hab _ ih =>
      have hfirst := hfg s t a b h hab
      rw [List.foldlM_cons, List.foldlM_cons]
      generalize f s a = x, g t b = y at hfirst
      cases hfirst with
      | error he => exact .error he
      | ok h => exact ih h

namespace Saturation

variable {v w : ClauseSet} {cs ds : List Clause}

/-! ## One round -/

theorem rel_derivations (h : KeepsRank R) {a a' b b' : Clause} (ha : a.Matches R a')
    (hb : b.Matches R b') : Forall₂ (Clause.Matches R) (a.derivations b) (a'.derivations b') :=
  List.rel_filterMap (fun _ _ hv => Clause.matches_proper_resolve h ha hb hv)
    (Clause.rel_clashingVariables h ha hb)

/-- The attempts give resolvents that match. -/
def Attempt.Matches (R : Variable → Variable → Prop) (x y : Attempt) : Prop :=
  x.clause.Matches R y.clause

theorem rel_attemptsOf (h : KeepsRank R) {a a' b b' : Clause} (ha : a.Matches R a')
    (hb : b.Matches R b') : Forall₂ (Attempt.Matches R) (attemptsOf a b) (attemptsOf a' b') :=
  List.rel_map (P := Attempt.Matches R) (fun _ _ hc => hc) (rel_derivations h ha hb)

/-- The attempts of two rounds match, in order. -/
theorem rel_attempts (h : KeepsRank R) (hs : Forall₂ (Clause.Matches R) cs ds) :
    Forall₂ (Attempt.Matches R) (attempts cs) (attempts ds) := by
  induction hs with
  | nil => exact .nil
  | cons ha hs ih =>
      exact List.rel_append (List.rel_flatMap hs fun _ _ hb => rel_attemptsOf h ha hb) ih

/-- The rounds have counted as many resolvents, and what they keep matches. -/
structure Round.Matches (R : Variable → Variable → Prop) (r q : Round) : Prop where
  resolvents_eq : q.resolvents = r.resolvents
  fresh : r.fresh.Matches R q.fresh

/-- The rounds end with the empty clause after as many resolvents, or what they find matches. -/
def RoundsMatch (R : Variable → Variable → Prop) :
    Except Refutation Round → Except Refutation Round → Prop :=
  ExceptRel (fun x y => y.resolvents = x.resolvents) (Round.Matches R)

theorem matches_attempt (h : KeepsRank R) (hw : v.Matches R w) {r q : Round} {x y : Attempt}
    (hr : r.Matches R q) (hx : x.Matches R y) :
    RoundsMatch R (r.attempt v x) (q.attempt w y) := by
  rw [Round.attempt, Round.attempt, Round.add, Round.add, hx.isEmpty_eq, hr.resolvents_eq,
    hw.contains_eq h hx]
  split
  · exact .error rfl
  · refine .ok ⟨rfl, ?_⟩
    split
    · exact hr.fresh
    · exact hr.fresh.insert h hx

/-- Rounds over clauses that match find clauses that match, in the same order. -/
theorem matches_round (h : KeepsRank R) (hw : v.Matches R w) :
    RoundsMatch R (round v) (round w) := by
  have hempty : Round.Matches R {} {} := ⟨rfl, .empty⟩
  rw [round_eq_foldlM, round_eq_foldlM]
  exact rel_foldlM (S := Attempt.Matches R) (fun _ _ _ _ hr hx => matches_attempt h hw hr hx)
    (rel_attempts h hw) hempty

/-! ## Solvers that match -/

variable {f g : Formula} {s t : Saturation}

/-- The working sets match, both solvers look out for the empty clause or neither does, and they
have counted alike. -/
structure Matches (R : Variable → Variable → Prop) (s t : Saturation) : Prop where
  working : s.working.Matches R t.working
  hasEmptyClause_eq : t.hasEmptyClause = s.hasEmptyClause
  stats_eq : t.journal.stats = s.journal.stats

/-- The steps lead to the same end or both go on, to solvers that match. -/
inductive Step.Matches (R : Variable → Variable → Prop) : Step → Step → Prop where
  | ended (outcome : Outcome) {s t : Saturation} : s.Matches R t →
      Step.Matches R (.ended outcome s) (.ended outcome t)
  | grown {s t : Saturation} : s.Matches R t → Step.Matches R (.grown s) (.grown t)

theorem matches_start (h : KeepsRank R) (hc : Forall₂ (Clause.Matches R) f.clauses g.clauses) :
    (start f).Matches R (start g) where
  working := .ofProper h hc
  hasEmptyClause_eq := (rel_any (fun _ _ hc => hc.isEmpty_eq) hc).symm
  stats_eq := rfl

namespace Matches

theorem countRound_eq (hs : s.Matches R t) (n : Nat) :
    (t.countRound n).stats = (s.countRound n).stats := by
  simp only [countRound, Journal.count, hs.stats_eq]

theorem step (hs : s.Matches R t) (h : KeepsRank R) : Step.Matches R s.step t.step := by
  have hround := matches_round h hs.working
  unfold Saturation.step
  generalize round s.working = x, round t.working = y at hround
  cases hround with
  | error he =>
      simp only [he]
      exact .ended _ ⟨hs.working, hs.hasEmptyClause_eq, hs.countRound_eq _⟩
  | ok hr =>
      simp only [hr.resolvents_eq, hr.fresh.isEmpty_eq]
      split
      · exact .ended _ ⟨hs.working, hs.hasEmptyClause_eq, hs.countRound_eq _⟩
      · exact .grown ⟨hs.working.insertAll h hr.fresh, hs.hasEmptyClause_eq, hs.countRound_eq _⟩

/-- Runs over clauses that match end alike, after as many rounds. -/
theorem rounds (hs : s.Matches R t) (h : KeepsRank R) :
    t.rounds.1 = s.rounds.1 ∧ s.rounds.2.Matches R t.rounds.2 := by
  induction hroom : s.working.room using Nat.strongRecOn generalizing s t with
  | ind room ih =>
      have hstep := hs.step h
      generalize hx : s.step = x, hy : t.step = y at hstep
      cases hstep with
      | ended outcome hs' =>
          rw [rounds_of_ended hx, rounds_of_ended hy]
          exact ⟨rfl, hs'⟩
      | grown hs' =>
          rw [rounds_of_grown hx, rounds_of_grown hy]
          exact ih _ (hroom ▸ room_lt_of_step hx) hs' rfl

theorem saturate (hs : s.Matches R t) (h : KeepsRank R) :
    t.saturate.1 = s.saturate.1 ∧ s.saturate.2.Matches R t.saturate.2 := by
  rw [Saturation.saturate, Saturation.saturate, hs.hasEmptyClause_eq]
  split
  · exact ⟨rfl, hs⟩
  · exact hs.rounds h

/-- Solvers that match answer the same and match again. -/
theorem solve (hs : s.Matches R t) (h : KeepsRank R) :
    t.solve.1 = s.solve.1 ∧ s.solve.2.Matches R t.solve.2 :=
  ⟨congrArg Outcome.solution (hs.saturate h).1, (hs.saturate h).2⟩

end Matches

end Saturation

end Clausal
