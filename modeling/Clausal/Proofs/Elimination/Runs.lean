import Clausal.Proofs.Elimination.Satisfiability
import Clausal.Proofs.Saturation.Bound

/-!
# The order of eliminations

A solver that is asked eliminates the least variable of its working formula, then the least of what
is left, and so on.  `Loop` spells these eliminations out, each with the solver it began with, and
`run_solve` says that they are what the solver does.

Everything here comes from one fact about a single elimination: its variable is gone, and no other
one has come.  So the variables only become fewer along a run, the least of them rises, and there
are no more eliminations than variables in the beginning.  The next variable is found from the
first literals alone, which are over the least variables since clauses are ascending
(`id_le_of_nextVariable?`).
-/

namespace Clausal

namespace Elimination

variable {f : Formula} {s t : Elimination} {v w : Variable}
  {steps : List (Elimination × Variable)} {result : Solution × Elimination}

/-! ## The next variable -/

theorem mem_vars_iff : v ∈ s.vars ↔ ∃ c ∈ s.working.toList, c.mentions v = true := by
  simp only [mem_vars, Clause.mentions_iff]

theorem mentions_eq_false_of_not_mem (h : v ∉ s.vars) {c : Clause} (hc : c ∈ s.working.toList) :
    c.mentions v = false :=
  Bool.eq_false_iff.mpr fun hm => h (mem_vars_iff.mpr ⟨c, hc, hm⟩)

/-- The next variable is the least of all that the working formula mentions. -/
theorem id_le_of_nextVariable? (h : s.nextVariable? = some v) (hw : w ∈ s.vars) : v.id ≤ w.id := by
  obtain ⟨c, hc, l, hl, rfl⟩ := mem_vars.mp hw
  cases hu : c.leastVariable? with
  | none =>
      rw [Clause.leastVariable?_eq_none.mp hu] at hl
      exact absurd hl Clause.not_mem_empty
  | some u =>
      have hmem : u ∈ s.working.toList.filterMap Clause.leastVariable? :=
        List.mem_filterMap.mpr ⟨c, hc, hu⟩
      exact Nat.le_trans ((Variable.min?_spec h).2 u hmem) (Clause.id_le_of_leastVariable? hu hl)

/-! ## Runs -/

/-- The eliminations of the least variable, each with the solver it begins with, until one of them
is refuted or no variable is left. -/
inductive Loop : Elimination → List (Elimination × Variable) → Solution × Elimination → Prop
  | finished {s : Elimination} : s.nextVariable? = none → Loop s [] (.sat none, s)
  | refuted {s : Elimination} {v : Variable} : s.nextVariable? = some v →
      (s.eliminate v).1 = .refuted → Loop s [(s, v)] (.unsat, (s.eliminate v).2)
  | eliminated {s : Elimination} {v : Variable} {steps : List (Elimination × Variable)}
      {result : Solution × Elimination} : s.nextVariable? = some v →
      (s.eliminate v).1 = .eliminated → Loop (s.eliminate v).2 steps result →
      Loop s ((s, v) :: steps) result

/-- What a solver that is asked does: nothing if it has the empty clause, and else its loop. -/
inductive Run (s : Elimination) : List (Elimination × Variable) → Solution × Elimination → Prop
  | contradiction : Clause.empty ∈ s.working.toList → Run s [] (.unsat, s)
  | loop {steps : List (Elimination × Variable)} {result : Solution × Elimination} :
      Clause.empty ∉ s.working.toList → Loop s steps result → Run s steps result

/-- What the loop does is a run of eliminations. -/
theorem exists_loop (s : Elimination) : ∃ steps, Loop s steps s.eliminateAll := by
  fun_induction Elimination.eliminateAll s with
  | case1 s hv => exact ⟨[], .finished hv⟩
  | case2 s v hv left he =>
      have hloop := Loop.refuted hv (congrArg Prod.fst he)
      rw [he] at hloop
      exact ⟨_, hloop⟩
  | case3 s v hv left he hlt ih =>
      obtain ⟨steps, hsteps⟩ := ih
      refine ⟨(s, v) :: steps, .eliminated hv (congrArg Prod.fst he) ?_⟩
      rw [he]
      exact hsteps

/-- A solver that is asked runs to an end, and answers what its run does. -/
theorem run_solve (s : Elimination) : ∃ steps, Run s steps s.solve := by
  have hempty : s.working.toList.any Clause.isEmpty = true ↔ Clause.empty ∈ s.working.toList := by
    simp [List.any_eq_true, Clause.isEmpty_iff]
  rw [Elimination.solve]
  split
  · next h => exact ⟨[], .contradiction (hempty.mp h)⟩
  · next h =>
      obtain ⟨steps, hsteps⟩ := exists_loop s
      exact ⟨steps, .loop (mt hempty.mpr h) hsteps⟩

/-! ## Variables along a run -/

/-- A run brings in no variable. -/
theorem Loop.vars_subset (h : Loop s steps result) : result.2.vars ⊆ s.vars := by
  induction h with
  | finished _ => exact List.Subset.refl _
  | refuted _ _ => exact fun _ hw => (mem_vars_of_eliminate hw).1
  | eliminated _ _ _ ih => exact fun _ hw => (mem_vars_of_eliminate (ih hw)).1

/-- A run brings in no variable. -/
theorem Run.vars_subset (h : Run s steps result) : result.2.vars ⊆ s.vars := by
  cases h with
  | contradiction _ => exact List.Subset.refl _
  | loop _ hloop => exact hloop.vars_subset

/-- A run eliminates variables of the solvers on its way, and these have no others than the first
solver. -/
theorem Loop.mem_steps (h : Loop s steps result) :
    ∀ step ∈ steps, step.2 ∈ step.1.vars ∧ step.1.vars ⊆ s.vars := by
  induction h with
  | finished _ => exact fun _ hmem => absurd hmem List.not_mem_nil
  | refuted hv _ =>
      exact List.forall_mem_singleton.mpr ⟨mem_vars_of_nextVariable? hv, List.Subset.refl _⟩
  | eliminated hv _ _ ih =>
      refine List.forall_mem_cons.mpr ⟨⟨mem_vars_of_nextVariable? hv, List.Subset.refl _⟩, ?_⟩
      intro step hmem
      obtain ⟨hstep, hsub⟩ := ih step hmem
      exact ⟨hstep, fun _ hw => (mem_vars_of_eliminate (hsub hw)).1⟩

/-- A run eliminates the least variable that there is. -/
theorem Loop.nextVariable?_eq (h : Loop s steps result) :
    ∀ step ∈ steps, step.1.nextVariable? = some step.2 := by
  induction h with
  | finished _ => exact fun _ hmem => absurd hmem List.not_mem_nil
  | refuted hv _ => exact List.forall_mem_singleton.mpr hv
  | eliminated hv _ _ ih => exact List.forall_mem_cons.mpr ⟨hv, ih⟩

/-- What is eliminated later is greater, and it is eliminated where the variable is gone. -/
theorem Loop.pairwise (h : Loop s steps result) :
    steps.Pairwise fun earlier later =>
      earlier.2.id < later.2.id ∧ earlier.2 ∉ later.1.vars := by
  induction h with
  | finished _ => exact .nil
  | refuted _ _ => exact List.pairwise_singleton _ _
  | eliminated hv _ hrest ih =>
      refine List.pairwise_cons.mpr ⟨fun later hmem => ?_, ih⟩
      obtain ⟨hlater, hsub⟩ := hrest.mem_steps later hmem
      obtain ⟨hw, hne⟩ := mem_vars_of_eliminate (hsub hlater)
      have hle := id_le_of_nextVariable? hv hw
      exact ⟨Nat.lt_of_le_of_ne hle fun he => hne (Variable.eq_of_id_eq he.symm),
        fun hm => (mem_vars_of_eliminate (hsub hm)).2 rfl⟩

/-- What a run has eliminated is gone at its end. -/
theorem Loop.not_mem_vars (h : Loop s steps result) : ∀ step ∈ steps, step.2 ∉ result.2.vars := by
  induction h with
  | finished _ => exact fun _ hmem => absurd hmem List.not_mem_nil
  | refuted _ _ =>
      exact List.forall_mem_singleton.mpr fun hm => (mem_vars_of_eliminate hm).2 rfl
  | eliminated _ _ hrest ih =>
      exact List.forall_mem_cons.mpr
        ⟨fun hm => (mem_vars_of_eliminate (hrest.vars_subset hm)).2 rfl, ih⟩

/-! ## What a run counts and logs -/

/-- The variable that an event is about. -/
def Event.var : Event → Variable
  | .eliminated v _ _ _ _ => v

theorem eliminations_eliminate (s : Elimination) (v : Variable) :
    (s.eliminate v).2.journal.stats.eliminations = s.journal.stats.eliminations + 1 := rfl

theorem events_eliminate (s : Elimination) (v : Variable) :
    (s.eliminate v).2.journal.events.toList.map Event.var =
      s.journal.events.toList.map Event.var ++ [v] := by
  simp [eliminate, Journal.note, Journal.count, Event.var]

theorem Loop.eliminations_eq (h : Loop s steps result) :
    result.2.journal.stats.eliminations = s.journal.stats.eliminations + steps.length := by
  induction h with
  | finished _ => rfl
  | refuted _ _ => rfl
  | eliminated _ _ _ ih =>
      rw [ih, eliminations_eliminate, List.length_cons]
      omega

theorem Loop.events_eq (h : Loop s steps result) :
    result.2.journal.events.toList.map Event.var =
      s.journal.events.toList.map Event.var ++ steps.map Prod.snd := by
  induction h with
  | finished _ => simp
  | refuted _ _ => exact events_eliminate _ _
  | eliminated _ _ _ ih =>
      rw [ih, events_eliminate, List.append_assoc, List.map_cons]
      rfl

/-! ## Whole runs -/

/-- The eliminations of a run go through the variables in order, each of them once. -/
structure InOrder (f : Formula) (steps : List (Elimination × Variable)) (last : Elimination) :
    Prop where
  /-- The variables are strictly increasing. -/
  increasing : (steps.map Prod.snd).Pairwise fun v w => v.id < w.id
  /-- A variable that is eliminated is mentioned by the working formula. -/
  mentioned : ∀ step ∈ steps, ∃ c ∈ step.1.working.toList, c.mentions step.2 = true
  /-- No variable that the working formula mentions is less. -/
  least : ∀ step ∈ steps, ∀ c ∈ step.1.working.toList, ∀ w, c.mentions w = true → step.2.id ≤ w.id
  /-- No working formula of a later elimination mentions the variable. -/
  gone : steps.Pairwise fun earlier later =>
    ∀ c ∈ later.1.working.toList, c.mentions earlier.2 = false
  /-- Nor does the last working formula. -/
  gone_last : ∀ step ∈ steps, ∀ c ∈ last.working.toList, c.mentions step.2 = false
  /-- The counter counts the eliminations. -/
  eliminations_eq : last.journal.stats.eliminations = steps.length
  /-- There are no more of them than variables in the clauses that are no tautologies. -/
  length_le : steps.length ≤ (Saturation.properVars f).length
  /-- The log is about these variables. -/
  logged : last.journal.events.toList.map Event.var = steps.map Prod.snd

/-- The solver of a formula begins with variables of clauses that are no tautologies. -/
theorem vars_start_subset (f : Formula) : (start f).vars ⊆ Saturation.properVars f := by
  intro v hv
  obtain ⟨c, hc, l, hl, hlv⟩ := mem_vars.mp hv
  obtain ⟨hcf, ht⟩ := List.mem_filter.mp (ClauseSet.mem_ofList.mp hc)
  exact Saturation.mem_properVars.mpr ⟨c, hcf, by simpa using ht, l, hl, hlv⟩

/-- A loop that starts from a formula eliminates its variables in strictly ascending order. -/
theorem Loop.inOrder (h : Loop (start f) steps result) : InOrder f steps result.2 where
  increasing := List.pairwise_map.mpr (h.pairwise.imp And.left)
  mentioned := fun step hmem => mem_vars_iff.mp (h.mem_steps step hmem).1
  least := fun step hmem c hc _ hw =>
    id_le_of_nextVariable? (h.nextVariable?_eq step hmem) (mem_vars_iff.mpr ⟨c, hc, hw⟩)
  gone := h.pairwise.imp fun hgone _ hc => mentions_eq_false_of_not_mem hgone.2 hc
  gone_last := fun step hmem _ hc => mentions_eq_false_of_not_mem (h.not_mem_vars step hmem) hc
  eliminations_eq := h.eliminations_eq.trans (Nat.zero_add _)
  length_le := by
    have hnodup : (steps.map Prod.snd).Nodup :=
      List.pairwise_map.mpr (h.pairwise.imp fun hlt he => by
        rw [he] at hlt
        exact Nat.lt_irrefl _ hlt.1)
    have hsub : steps.map Prod.snd ⊆ Saturation.properVars f := by
      intro v hv
      obtain ⟨step, hmem, rfl⟩ := List.mem_map.mp hv
      obtain ⟨hstep, hsubset⟩ := h.mem_steps step hmem
      exact vars_start_subset f (hsubset hstep)
    have hle := hnodup.length_le_of_subset hsub
    rw [List.length_map] at hle
    exact hle
  logged := h.events_eq

theorem Run.inOrder (h : Run (start f) steps result) : InOrder f steps result.2 := by
  cases h with
  | contradiction _ =>
      exact ⟨.nil, by simp, by simp, .nil, by simp, rfl, Nat.zero_le _, rfl⟩
  | loop _ hloop => exact hloop.inOrder

/-! ## Any calls -/

/-- A call brings in no variable, and an elimination takes its own away. -/
theorem mem_vars_of_call {c : Call} (h : v ∈ (s.call c).vars) : v ∈ s.vars ∧ c ≠ .eliminate v := by
  cases c with
  | eliminate w =>
      obtain ⟨hs, hne⟩ := mem_vars_of_eliminate h
      exact ⟨hs, fun he => hne (Call.eliminate.inj he).symm⟩
  | solve =>
      obtain ⟨steps, hrun⟩ := run_solve s
      exact ⟨hrun.vars_subset h, by simp⟩

/-- Whatever is called, a variable that is mentioned was mentioned before and has not been
eliminated. -/
theorem mem_vars_of_callAll {calls : List Call} (h : v ∈ (s.callAll calls).vars) :
    v ∈ s.vars ∧ Call.eliminate v ∉ calls := by
  induction calls generalizing s with
  | nil => exact ⟨h, List.not_mem_nil⟩
  | cons c calls ih =>
      obtain ⟨hcall, hrest⟩ := ih h
      obtain ⟨hs, hne⟩ := mem_vars_of_call hcall
      exact ⟨hs, List.not_mem_cons_of_ne_of_not_mem hne.symm hrest⟩

/-- The solver of a formula that is asked eliminates each variable at most once, in increasing
order, and ends with no clauses or with the empty one.  Whatever calls a solver gets, a variable
that it has eliminated is never mentioned again. -/
theorem solve_inOrder (f : Formula) :
    (∃ steps, Run (start f) steps (start f).solve ∧ InOrder f steps (start f).solve.2) ∧
    ((start f).solve.1 = .sat none ∧ (start f).solve.2.working.toList = [] ∨
      (start f).solve.1 = .unsat ∧ Clause.empty ∈ (start f).solve.2.working.toList) ∧
    ∀ (s : Elimination) (calls : List Call) (v : Variable), Call.eliminate v ∈ calls →
      ∀ c ∈ (s.callAll calls).working.toList, c.mentions v = false := by
  refine ⟨?_, solve_ends _, fun s calls v hv c hc => ?_⟩
  · obtain ⟨steps, hrun⟩ := run_solve (start f)
    exact ⟨steps, hrun, hrun.inOrder⟩
  · exact mentions_eq_false_of_not_mem (fun hm => (mem_vars_of_callAll hm).2 hv) hc

end Elimination

end Clausal
