import Clausal.Elimination
import Clausal.Proofs.Canonical
import Clausal.Proofs.Projection

/-!
# Elimination decides the formula it began with

A solver can be called in any order: variables may be eliminated that do not occur, that
are not the least or that are gone already, and it may be asked for an answer in between
and after a refutation.  What all these calls keep is `Faithful`: the working formula has
no tautologies, and it is satisfiable exactly when the original one is.

An elimination keeps it because the new working formula holds exactly where some value of
the variable makes the old one hold (`holdAll_eliminate_iff`).  A refuted elimination needs
no case of its own, for the empty clause goes to the working formula like every resolvent.
That is what a later answer sees: a solver that is asked ends with no clauses or with the
empty one (`solve_ends`).
-/

namespace Clausal

namespace Elimination

variable {f : Formula} {s : Elimination} {v : Variable} {w : Valuation}

/-! ## Calls -/

/-- A call of the solver. -/
inductive Call where
  /-- Eliminate a variable, whichever it is. -/
  | eliminate (v : Variable)
  /-- Decide satisfiability. -/
  | solve
deriving DecidableEq

/-- The solver after a call. -/
def call (s : Elimination) : Call → Elimination
  | .eliminate v => (s.eliminate v).2
  | .solve => s.solve.2

/-- The solver after some calls, one after the other. -/
def callAll (s : Elimination) (calls : List Call) : Elimination := calls.foldl call s

/-! ## One elimination -/

theorem mem_others {c : Clause} :
    c ∈ s.others v ↔ c ∈ s.working.toList ∧ ∀ l ∈ c, l.var ≠ v := by
  simp only [others, List.mem_filter, Bool.not_eq_true', Bool.eq_false_iff, ne_eq,
    Clause.mentions_iff, not_exists, not_and]

theorem mem_positives {c : Clause} :
    c ∈ s.positives v ↔ c ∈ s.working.toList ∧ (⟨v, true⟩ : Literal) ∈ c := by
  simp only [positives, mentioning, List.mem_filter, decide_eq_true_eq, Clause.mentions_iff]
  constructor
  · intro ⟨⟨hc, _⟩, hv⟩
    exact ⟨hc, hv⟩
  · intro ⟨hc, hv⟩
    exact ⟨⟨hc, _, hv, rfl⟩, hv⟩

/-- The clauses without the positive literal of a variable that they mention hold the negative one,
unless they are tautologies. -/
theorem mem_negatives {c : Clause} (ht : c.isTautology = false) :
    c ∈ s.negatives v ↔ c ∈ s.working.toList ∧ (⟨v, false⟩ : Literal) ∈ c := by
  simp only [negatives, mentioning, List.mem_filter, Clause.mentions_iff, Bool.not_eq_true',
    decide_eq_false_iff_not]
  constructor
  · intro ⟨⟨hc, ⟨u, p⟩, hl, hu⟩, hn⟩
    cases hu
    cases p with
    | true => exact absurd hl hn
    | false => exact ⟨hc, hl⟩
  · intro ⟨hc, hv⟩
    exact ⟨⟨hc, _, hv, rfl⟩, Clause.not_mem_of_mem ht hv⟩

/-- No clause of the working formula is a tautology. -/
def NoTautology (s : Elimination) : Prop := ∀ c ∈ s.working.toList, c.isTautology = false

/-- The resolvents of an elimination are those of any two clauses of the working formula. -/
theorem mem_resolvents_working {c : Clause} (ht : s.NoTautology) :
    c ∈ resolvents v (s.positives v) (s.negatives v) ↔
      ∃ a ∈ s.working.toList, ∃ b ∈ s.working.toList,
        a.resolve b v = some c ∧ c.isTautology = false := by
  constructor
  · exact exists_parents
  · intro ⟨a, ha, b, hb, hab, hc⟩
    rw [mem_resolvents]
    rcases Clause.clashesOn_iff.mp (Clause.resolve_eq_some_iff.mp hab).1 with h | h
    · exact ⟨a, mem_positives.mpr ⟨ha, h.1⟩, b, (mem_negatives (ht b hb)).mpr ⟨hb, h.2⟩, hab, hc⟩
    · rw [Clause.resolve_comm] at hab
      exact ⟨b, mem_positives.mpr ⟨hb, h.2⟩, a, (mem_negatives (ht a ha)).mpr ⟨ha, h.1⟩, hab, hc⟩

theorem NoTautology.eliminate (ht : s.NoTautology) : (s.eliminate v).2.NoTautology := by
  intro c hc
  rcases mem_working_eliminate.mp hc with h | h
  · exact ht c (mem_others.mp h).1
  · obtain ⟨_, _, _, _, _, hc⟩ := mem_resolvents.mp h
    exact hc

/-- The working formula after an elimination holds exactly where some value of the
variable makes the one before it hold. -/
theorem holdAll_eliminate_iff (ht : s.NoTautology) :
    HoldAll w (s.eliminate v).2.working.toList ↔ ∃ b, HoldAll (w.set v b) s.working.toList := by
  constructor
  · intro hw
    refine exists_holds_set (P := (· ∈ s.working.toList)) (fun c hc hv => ?_)
      (fun a b r ha hb hr hrt => ?_)
    · exact hw c (mem_working_eliminate.mpr (.inl (mem_others.mpr ⟨hc, hv⟩)))
    · exact hw r (mem_working_eliminate.mpr
        (.inr ((mem_resolvents_working ht).mpr ⟨a, ha, b, hb, hr, hrt⟩)))
  · intro ⟨b, hw⟩ c hc
    have hv : ∀ l ∈ c, l.var ≠ v := fun l hl =>
      (mem_vars_of_eliminate (mem_vars.mpr ⟨c, hc, l, hl, rfl⟩)).2
    rw [← Clause.holds_set_iff (b := b) hv]
    rcases mem_working_eliminate.mp hc with h | h
    · exact hw c (mem_others.mp h).1
    · obtain ⟨a, ha, d, hd, hr, _⟩ := (mem_resolvents_working ht).mp h
      exact Clause.holds_resolve (ht a ha) (ht d hd) hr (hw a ha) (hw d hd)

/-! ## What all calls keep -/

/-- The working formula stands for the original one. -/
structure Faithful (f : Formula) (s : Elimination) : Prop where
  noTautology : s.NoTautology
  satisfiable_iff : (∃ w, HoldAll w s.working.toList) ↔ f.Satisfiable

/-- Leaving out the tautologies does not change where the formula holds. -/
theorem start_faithful (f : Formula) : Faithful f (start f) where
  noTautology := by
    intro c hc
    simpa [start] using (List.mem_filter.mp (ClauseSet.mem_ofList.mp hc)).2
  satisfiable_iff := by
    refine exists_congr fun w => ⟨fun hw c hc => ?_, fun hw c hc => ?_⟩
    · cases ht : c.isTautology with
      | true => exact Clause.holds_of_isTautology w ht
      | false => exact hw c (ClauseSet.mem_ofList.mpr (List.mem_filter.mpr ⟨hc, by simp [ht]⟩))
    · exact hw c (List.mem_filter.mp (ClauseSet.mem_ofList.mp hc)).1

theorem Faithful.eliminate (h : Faithful f s) : Faithful f (s.eliminate v).2 where
  noTautology := h.noTautology.eliminate
  satisfiable_iff := by
    rw [← h.satisfiable_iff]
    constructor
    · intro ⟨w, hw⟩
      obtain ⟨b, hb⟩ := (holdAll_eliminate_iff h.noTautology).mp hw
      exact ⟨_, hb⟩
    · intro ⟨w, hw⟩
      refine ⟨w, (holdAll_eliminate_iff h.noTautology).mpr ⟨w v, ?_⟩⟩
      rw [Valuation.set_eq_self]
      exact hw

theorem Faithful.eliminateAll (h : Faithful f s) : Faithful f s.eliminateAll.2 := by
  fun_induction Elimination.eliminateAll s with
  | case1 s hv => exact h
  | case2 s v hv left he =>
      have hleft : (s.eliminate v).2 = left := by rw [he]
      exact hleft ▸ h.eliminate
  | case3 s v hv left he hlt ih =>
      have hleft : (s.eliminate v).2 = left := by rw [he]
      exact ih (hleft ▸ h.eliminate)

theorem Faithful.solve (h : Faithful f s) : Faithful f s.solve.2 := by
  rw [Elimination.solve]
  split
  · exact h
  · exact h.eliminateAll

theorem Faithful.call (h : Faithful f s) : ∀ c : Call, Faithful f (s.call c)
  | .eliminate _ => h.eliminate
  | .solve => h.solve

/-- Calls in any order keep the working formula as satisfiable as the original one. -/
theorem Faithful.callAll (h : Faithful f s) (calls : List Call) : Faithful f (s.callAll calls) := by
  induction calls generalizing s with
  | nil => exact h
  | cons c calls ih => exact ih (h.call c)

/-! ## How an answer leaves the working formula -/

/-- An elimination is refuted just if one of its resolvents is empty. -/
theorem refuted_iff : (s.eliminate v).1 = .refuted ↔
    Clause.empty ∈ resolvents v (s.positives v) (s.negatives v) := by
  simp only [eliminate, List.any_eq_true, Clause.isEmpty_iff]
  split
  · next h =>
      obtain ⟨c, hc, he⟩ := h
      exact ⟨fun _ => he ▸ hc, fun _ => rfl⟩
  · next h =>
      refine iff_of_false (fun he => ?_) fun hc => h ⟨_, hc, rfl⟩
      cases he

/-- No variable is next only where every clause is empty. -/
theorem eq_empty_of_nextVariable? (h : s.nextVariable? = none) {c : Clause}
    (hc : c ∈ s.working.toList) : c = Clause.empty := by
  rw [nextVariable?, List.min?_eq_none_iff, List.filterMap_eq_nil_iff] at h
  exact Clause.leastVariable?_eq_none.mp (h c hc)

/-- Without an empty clause at the start the loop ends with no clauses or with the empty one. -/
theorem eliminateAll_ends (hs : Clause.empty ∉ s.working.toList) :
    (s.eliminateAll.1 = .sat none ∧ s.eliminateAll.2.working.toList = []) ∨
      (s.eliminateAll.1 = .unsat ∧ Clause.empty ∈ s.eliminateAll.2.working.toList) := by
  fun_induction Elimination.eliminateAll s with
  | case1 s hv =>
      refine .inl ⟨rfl, List.eq_nil_iff_forall_not_mem.mpr fun c hc => hs ?_⟩
      exact eq_empty_of_nextVariable? hv hc ▸ hc
  | case2 s v hv left he =>
      refine .inr ⟨rfl, ?_⟩
      have hr : (s.eliminate v).1 = .refuted := congrArg Prod.fst he
      have hm := mem_working_eliminate.mpr (.inr (refuted_iff.mp hr))
      rw [he] at hm
      exact hm
  | case3 s v hv left he hlt ih =>
      have hleft : (s.eliminate v).2 = left := by rw [he]
      refine ih fun hm => ?_
      rw [← hleft] at hm
      rcases mem_working_eliminate.mp hm with h | h
      · exact hs (mem_others.mp h).1
      · have hr := refuted_iff.mpr h
        rw [he] at hr
        cases hr

/-- A solver that is asked ends with no clauses, or with the empty one. -/
theorem solve_ends (s : Elimination) :
    (s.solve.1 = .sat none ∧ s.solve.2.working.toList = []) ∨
      (s.solve.1 = .unsat ∧ Clause.empty ∈ s.solve.2.working.toList) := by
  rw [Elimination.solve]
  split
  · next h =>
      obtain ⟨c, hc, he⟩ := List.any_eq_true.mp h
      exact .inr ⟨rfl, Clause.isEmpty_iff.mp he ▸ hc⟩
  · next h =>
      refine eliminateAll_ends fun hm => h (List.any_eq_true.mpr ⟨_, hm, rfl⟩)

/-- A solver that is asked answers right, whatever was called before. -/
theorem Faithful.solve_iff (h : Faithful f s) :
    (s.solve.1 = .unsat ↔ ¬ f.Satisfiable) ∧ (s.solve.1 = .sat none ↔ f.Satisfiable) := by
  rw [← h.solve.satisfiable_iff]
  rcases solve_ends s with he | he
  · have hsat : ∃ w, HoldAll w s.solve.2.working.toList :=
      ⟨fun _ => true, fun c hc => absurd (he.2 ▸ hc) List.not_mem_nil⟩
    rw [he.1]
    exact ⟨⟨nofun, fun hn => absurd hsat hn⟩, ⟨fun _ => hsat, fun _ => rfl⟩⟩
  · have hunsat : ¬ ∃ w, HoldAll w s.solve.2.working.toList :=
      fun ⟨w, hw⟩ => Clause.not_holds_empty w (hw _ he.2)
    rw [he.1]
    exact ⟨⟨fun _ => hunsat, fun _ => rfl⟩, ⟨nofun, fun hs => absurd hs hunsat⟩⟩

/-- Whatever was eliminated and asked before, the answer is about the formula that the
solver began with. -/
theorem solve_after_calls (f : Formula) (calls : List Call) :
    (((start f).callAll calls).solve.1 = .unsat ↔ ¬ f.Satisfiable) ∧
      (((start f).callAll calls).solve.1 = .sat none ↔ f.Satisfiable) :=
  ((start_faithful f).callAll calls).solve_iff

end Elimination

end Clausal
