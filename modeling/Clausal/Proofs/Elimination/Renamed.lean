import Clausal.Elimination
import Clausal.Proofs.Renaming

/-!
# Elimination over other variables

Two working formulas that match mention variables that correspond, so they have the same next
variable.  The clauses that hold it, positively or not, match in order, and so do their resolvents
(`rel_resolvents`) and the working formulas after the elimination (`Matches.eliminate`).  A run is
some eliminations, and it ends for both formulas after the same one (`Matches.eliminateAll`).
-/

namespace Clausal

namespace Elimination

open List (Forall₂)

variable {R : Variable → Variable → Prop} {f g : Formula} {s t : Elimination} {v w : Variable}
  {as bs cs ds : List Clause}

/-! ## Elimination, step by step -/

theorem eliminateAll_of_none (hn : s.nextVariable? = none) : s.eliminateAll = (.sat none, s) := by
  rw [eliminateAll.eq_def]
  split
  · rfl
  · next h => rw [hn] at h; cases h

theorem eliminateAll_of_refuted (hn : s.nextVariable? = some v)
    (he : (s.eliminate v).1 = .refuted) : s.eliminateAll = (.unsat, (s.eliminate v).2) := by
  rw [eliminateAll.eq_def]
  split
  · next h => rw [hn] at h; cases h
  · next h =>
      rw [hn] at h
      cases h
      split
      · next h => rw [h]
      · next h => rw [h] at he; cases he

theorem eliminateAll_of_eliminated (hn : s.nextVariable? = some v)
    (he : (s.eliminate v).1 = .eliminated) :
    s.eliminateAll = (s.eliminate v).2.eliminateAll := by
  rw [eliminateAll.eq_def]
  split
  · next h => rw [hn] at h; cases h
  · next h =>
      rw [hn] at h
      cases h
      split
      · next h => rw [h] at he; cases he
      · next h => exact congrArg (fun x => x.2.eliminateAll) h.symm

/-! ## Working formulas that match -/

/-- The working formulas match, and the solvers have counted alike. -/
structure Matches (R : Variable → Variable → Prop) (s t : Elimination) : Prop where
  working : s.working.Matches R t.working
  stats_eq : t.journal.stats = s.journal.stats

theorem matches_start (h : KeepsRank R) (hc : Forall₂ (Clause.Matches R) f.clauses g.clauses) :
    (start f).Matches R (start g) where
  working := .ofProper h hc
  stats_eq := rfl

/-- Clauses that match have resolvents that match, on variables that match. -/
theorem rel_resolvents (h : KeepsRank R) (hv : R v w) (ha : Forall₂ (Clause.Matches R) as bs)
    (hc : Forall₂ (Clause.Matches R) cs ds) :
    Forall₂ (Clause.Matches R) (resolvents v as cs) (resolvents w bs ds) :=
  List.rel_flatMap ha fun _ _ ha =>
    List.rel_filterMap (fun _ _ hc => Clause.matches_proper_resolve h ha hc hv) hc

namespace Matches

theorem mentioning (hs : s.Matches R t) (h : KeepsRank R) (hv : R v w) :
    Forall₂ (Clause.Matches R) (s.mentioning v) (t.mentioning w) :=
  rel_filter_of_eq (fun _ _ hc => hc.mentions_eq h hv) hs.working

theorem positives (hs : s.Matches R t) (h : KeepsRank R) (hv : R v w) :
    Forall₂ (Clause.Matches R) (s.positives v) (t.positives w) :=
  rel_filter_of_eq (fun _ _ hc => by rw [decide_eq_decide, hc.mem_mk_iff h hv])
    (hs.mentioning h hv)

theorem negatives (hs : s.Matches R t) (h : KeepsRank R) (hv : R v w) :
    Forall₂ (Clause.Matches R) (s.negatives v) (t.negatives w) :=
  rel_filter_of_eq (fun _ _ hc => by simp only [hc.mem_mk_iff h hv]) (hs.mentioning h hv)

theorem others (hs : s.Matches R t) (h : KeepsRank R) (hv : R v w) :
    Forall₂ (Clause.Matches R) (s.others v) (t.others w) :=
  rel_filter_of_eq (fun _ _ hc => by rw [hc.mentions_eq h hv]) hs.working

/-- The least variables that are left match. -/
theorem nextVariable? (hs : s.Matches R t) (h : KeepsRank R) :
    Option.Rel R s.nextVariable? t.nextVariable? :=
  h.min? (List.rel_filterMap (fun _ _ hc => hc.leastVariable?) hs.working)

/-- Eliminating variables that correspond has the same outcome and leaves solvers that match. -/
theorem eliminate (hs : s.Matches R t) (h : KeepsRank R) (hv : R v w) :
    (t.eliminate w).1 = (s.eliminate v).1 ∧ (s.eliminate v).2.Matches R (t.eliminate w).2 := by
  have hr := rel_resolvents h hv (hs.positives h hv) (hs.negatives h hv)
  refine ⟨?_, (ClauseSet.Matches.ofList h (hs.others h hv)).insertAll h hr, ?_⟩
  · simp only [Elimination.eliminate, rel_any (fun _ _ hc => hc.isEmpty_eq) hr]
  · simp only [Elimination.eliminate, Journal.note, Journal.count, hs.stats_eq, hr.length_eq]

/-- Loops over clauses that match eliminate variables that match and end alike. -/
theorem eliminateAll (hs : s.Matches R t) (h : KeepsRank R) :
    t.eliminateAll.1 = s.eliminateAll.1 ∧ s.eliminateAll.2.Matches R t.eliminateAll.2 := by
  fun_induction Elimination.eliminateAll s generalizing t with
  | case1 s hn =>
      rw [eliminateAll_of_none (eq_none_of_rel (hs.nextVariable? h) hn)]
      exact ⟨rfl, hs⟩
  | case2 s v hn left he =>
      obtain ⟨w, hw, hv⟩ := exists_of_rel (hs.nextVariable? h) hn
      obtain ⟨houtcome, hleft⟩ := hs.eliminate h hv
      rw [he] at houtcome hleft
      rw [eliminateAll_of_refuted hw houtcome]
      exact ⟨rfl, hleft⟩
  | case3 s v hn left he hlt ih =>
      obtain ⟨w, hw, hv⟩ := exists_of_rel (hs.nextVariable? h) hn
      obtain ⟨houtcome, hleft⟩ := hs.eliminate h hv
      rw [he] at houtcome hleft
      rw [eliminateAll_of_eliminated hw houtcome]
      exact ih hleft

theorem solve (hs : s.Matches R t) (h : KeepsRank R) :
    t.solve.1 = s.solve.1 ∧ s.solve.2.Matches R t.solve.2 := by
  rw [Elimination.solve, Elimination.solve, rel_any (fun _ _ hc => hc.isEmpty_eq) hs.working]
  split
  · exact ⟨rfl, hs⟩
  · exact hs.eliminateAll h

end Matches

end Elimination

end Clausal
