import Clausal.Proofs.Search.Events
import Mathlib.Algebra.Group.Nat.Defs

/-!
# What the counters of a search add up to

A decision on a variable is followed by the opposite one if its branch fails, so the counters tell
the shape of the search tree.  A branch that fails makes two decisions less than it meets conflicts
doubled (`counts_of_none`).  One that succeeds makes as many more as it leaves decisions for true on
the trail (`counts_of_found`).

A branch that fails has a variable left after its decision (`length_vars_pos_of_failed`):
propagation has left no unit clause, so no single literal can make a clause empty.  That is why a
formula with `n` variables meets at most `2 ^ (n - 1)` conflicts and not `2 ^ n`.
-/

namespace Clausal

open Search

namespace Residual

variable {f : Formula} {r s found : Residual} {result : Option Residual} {status : Status}
  {j k k' : Journal Event} {l : Literal} {v : Variable} {depth : Nat}

/-! ## Branches that fail have variables left -/

/-- Without unit clauses no single literal makes a clause empty. -/
theorem empty_not_mem_assign (hs : r.status = .undecided) (hf : r.forced? = none) :
    Clause.empty ∉ (r.assign l).clauses := by
  intro hm
  obtain ⟨c, hc, he⟩ := List.mem_map.mp hm
  have hmem : c ∈ r.clauses := (List.mem_filter.mp hc).1
  have hsub : c.literals ⊆ [-l] := by
    intro m hmc
    refine List.mem_singleton.mpr (Classical.not_not.mp fun hne => ?_)
    exact Clause.not_mem_empty (he ▸ Clause.mem_erase.mpr ⟨hmc, hne⟩)
  have hle : c.size ≤ 1 := c.ascending.nodup.length_le_of_subset hsub
  have hne : c.size ≠ 0 := by
    intro hzero
    have hempty : c = .empty := Clause.eq_of_literals_eq (List.length_eq_zero_iff.mp hzero)
    exact empty_not_mem_of_undecided hs (hempty ▸ hmem)
  have hone := size_ne_one_of_stuck hf hmem
  omega

/-- Without variables there is nothing left to satisfy but an empty clause. -/
theorem satisfiable_of_vars_eq_nil (hv : r.vars = []) (he : Clause.empty ∉ r.clauses) :
    r.Satisfiable := by
  rcases r.status_cases with ⟨_, hm⟩ | ⟨hs, _⟩ | ⟨hs, _⟩
  · exact absurd hm he
  · exact satisfiable_of_satisfied hs
  · obtain ⟨v, hb⟩ := exists_branch? hs
    rw [branch?, hv] at hb
    cases hb

/-- A failed branch has a variable left after its decision. -/
theorem length_vars_pos_of_failed (hp : r.propagate j = (.undecided, s, k)) {i i' : Journal Event}
    (hx : (s.assign l).explore depth i = (none, i')) : 0 < (s.assign l).vars.length := by
  refine List.length_pos_iff.mpr fun hnil => ?_
  have hempty : Clause.empty ∉ (s.assign l).clauses :=
    empty_not_mem_assign (propagated hp).status_eq (forced?_of_undecided hp)
  have hsome : ((s.assign l).explore depth i).1.isSome = true :=
    explore_isSome_iff.mpr (satisfiable_of_vars_eq_nil hnil hempty)
  rw [hx] at hsome
  cases hsome

/-! ## Propagation adds literals, and none of them is a decision -/

/-- Propagation makes no decision and meets no conflict.  What it adds to the trail it counts. -/
structure PropagationCounts (r : Residual) (j : Journal Event) (s : Residual)
    (k : Journal Event) : Prop where
  decisions_eq : k.stats.decisions = j.stats.decisions
  conflicts_eq : k.stats.conflicts = j.stats.conflicts
  made_eq : s.trail.length + made j = r.trail.length + made k
  decidedTrue_eq : decidedTrue k s.trail = decidedTrue j r.trail
  traced : Traced j r.trail → Traced k s.trail

theorem propagationCounts_refl (r : Residual) (j : Journal Event) : PropagationCounts r j r j :=
  ⟨rfl, rfl, rfl, rfl, id⟩

/-- One forced step in front of a propagation is one more literal and one more count. -/
theorem propagationCounts_step {step : Forced}
    (hnew : ∀ m ∈ r.trail, m.var ≠ (literal step).var)
    (h : PropagationCounts (r.assign (literal step)) (noteForced j step) s k) :
    PropagationCounts r j s k where
  decisions_eq := h.decisions_eq.trans (by cases step <;> rfl)
  conflicts_eq := h.conflicts_eq.trans (by cases step <;> rfl)
  made_eq := by
    have hmade := h.made_eq
    rw [made_noteForced, trail_assign, List.length_cons] at hmade
    omega
  decidedTrue_eq := h.decidedTrue_eq.trans (decidedTrue_noteForced hnew)
  traced ht := h.traced (ht.noteForced hnew)

/-- Propagation makes no decision and meets no conflict, and it counts every literal. -/
theorem counts_propagate (h : Reached f r) (hp : r.propagate j = (status, s, k)) :
    PropagationCounts r j s k := by
  fun_induction Residual.propagate r j with
  | case1 => cases hp; exact propagationCounts_refl _ _
  | case2 => cases hp; exact propagationCounts_refl _ _
  | case3 => cases hp; exact propagationCounts_refl _ _
  | case4 r j _ step hstep _ ih =>
      have hv := mem_vars_of_forced? hstep
      exact propagationCounts_step (h.new hv).2 (ih (h.assign hv) hp)

/-! ## Branches that fail -/

/-- A failed branch has made two decisions less than it has met conflicts doubled, and it has met
some, but no more than half as many as there are ways to give the variables values. -/
structure FailureCounts (r : Residual) (j k : Journal Event) : Prop where
  decisions_eq :
    k.stats.decisions + 2 + 2 * j.stats.conflicts = 2 * k.stats.conflicts + j.stats.decisions
  conflicts_lt : j.stats.conflicts < k.stats.conflicts
  conflicts_le : k.stats.conflicts ≤ j.stats.conflicts + 2 ^ (r.vars.length - 1)

/-- The conflicts of the two branches of a decision are within the bound for one variable more. -/
theorem two_pow_branches_le {a b n : Nat} (ha : 0 < a) (hb : 0 < b) (han : a < n) (hbn : b < n) :
    2 ^ (a - 1) + 2 ^ (b - 1) ≤ 2 ^ (n - 1) := by
  have hfirst : 2 ^ (a - 1) ≤ 2 ^ (n - 2) := Nat.pow_le_pow_right (by decide) (by omega)
  have hsecond : 2 ^ (b - 1) ≤ 2 ^ (n - 2) := Nat.pow_le_pow_right (by decide) (by omega)
  calc 2 ^ (a - 1) + 2 ^ (b - 1) ≤ 2 ^ (n - 2) + 2 ^ (n - 2) := Nat.add_le_add hfirst hsecond
    _ = 2 ^ (n - 2 + 1) := by rw [Nat.pow_succ, Nat.mul_two]
    _ = 2 ^ (n - 1) := by congr 1; omega

/-- Two branches that fail, after propagation. -/
theorem failureCounts_branches {i : Journal Event} (hp : PropagationCounts r j s i)
    (hfirst : FailureCounts (s.assign ⟨v, true⟩) (noteDecision i ⟨v, true⟩ depth) k')
    (hsecond : FailureCounts (s.assign ⟨v, false⟩) (noteDecision k' ⟨v, false⟩ depth) k)
    (hpow : 2 ^ ((s.assign ⟨v, true⟩).vars.length - 1) +
      2 ^ ((s.assign ⟨v, false⟩).vars.length - 1) ≤ 2 ^ (r.vars.length - 1)) :
    FailureCounts r j k := by
  obtain ⟨hdecisions₁, hlt₁, hle₁⟩ := hfirst
  obtain ⟨hdecisions₂, hlt₂, hle₂⟩ := hsecond
  have hdecisions := hp.decisions_eq
  have hconflicts := hp.conflicts_eq
  simp only [noteDecision] at *
  constructor <;> omega

/-- A branch that fails makes two decisions less than it meets conflicts doubled, and no more
conflicts than its variables allow. -/
theorem counts_of_none (h : Reached f r) (hx : r.explore depth j = (none, k)) :
    FailureCounts r j k := by
  fun_induction Residual.explore depth r j generalizing k with
  | case1 => cases hx
  | case2 depth r j s k' hp =>
      cases hx
      have hcounts := counts_propagate h hp
      have hdecisions := hcounts.decisions_eq
      have hconflicts := hcounts.conflicts_eq
      have hpow : 0 < 2 ^ (r.vars.length - 1) := Nat.two_pow_pos _
      constructor <;> simp only [noteConflict] <;> omega
  | case3 depth r j s k' hp hb =>
      obtain ⟨v, hv⟩ := exists_branch? (propagated hp).status_eq
      rw [hb] at hv
      cases hv
  | case4 => cases hx
  | case5 depth r j s k' hp v hb hs hv htrue hfalse k'' he ih₁ ih₂ =>
      have hreached := h.propagate hp
      have hcounts := counts_propagate h hp
      have hpow := two_pow_branches_le (length_vars_pos_of_failed hp he)
        (length_vars_pos_of_failed hp hx) htrue hfalse
      exact failureCounts_branches hcounts (ih₁ (hreached.assign hv) he)
        (ih₂ (hreached.assign hv) hx) hpow

/-! ## Branches that succeed -/

/-- A branch that succeeds makes as many decisions more than it meets conflicts doubled as it leaves
decisions for true on the trail, and it leaves no literal there that it has not counted. -/
structure SuccessCounts (r : Residual) (j : Journal Event) (s : Residual)
    (k : Journal Event) : Prop where
  decisions_eq : k.stats.decisions + 2 * j.stats.conflicts + decidedTrue j r.trail =
    2 * k.stats.conflicts + j.stats.decisions + decidedTrue k s.trail
  length_le : s.trail.length + made j ≤ r.trail.length + made k
  traced : Traced j r.trail → Traced k s.trail

theorem PropagationCounts.successCounts (h : PropagationCounts r j s k) :
    SuccessCounts r j s k where
  decisions_eq := by
    have hdecisions := h.decisions_eq
    have hconflicts := h.conflicts_eq
    have hdecided := h.decidedTrue_eq
    omega
  length_le := Nat.le_of_eq h.made_eq
  traced := h.traced

/-- The branch for true succeeds. -/
theorem successCounts_first (hnew : ∀ m ∈ r.trail, m.var ≠ v)
    (h : SuccessCounts (r.assign ⟨v, true⟩) (noteDecision j ⟨v, true⟩ depth) s k) :
    SuccessCounts r j s k where
  decisions_eq := by
    have hdecisions := h.decisions_eq
    rw [trail_assign, decidedTrue_noteDecision hnew] at hdecisions
    simp only [noteDecision, Bool.toNat_true] at hdecisions
    omega
  length_le := by
    have hlength := h.length_le
    rw [made_noteDecision, trail_assign, List.length_cons] at hlength
    omega
  traced ht := h.traced (ht.noteDecision hnew)

/-- The branch for true fails, and the branch for false succeeds. -/
theorem successCounts_second (hnew : ∀ m ∈ r.trail, m.var ≠ v)
    (hnewest : ∀ m ∈ r.trail, newest k' m.var = newest j m.var)
    (hmade : made j ≤ made k')
    (hfirst : FailureCounts (r.assign ⟨v, true⟩) (noteDecision j ⟨v, true⟩ depth) k')
    (h : SuccessCounts (r.assign ⟨v, false⟩) (noteDecision k' ⟨v, false⟩ depth) s k) :
    SuccessCounts r j s k where
  decisions_eq := by
    have hfailure := hfirst.decisions_eq
    have hdecisions := h.decisions_eq
    rw [trail_assign, decidedTrue_noteDecision hnew, decidedTrue_congr hnewest] at hdecisions
    simp only [noteDecision, Bool.toNat_false] at hfailure hdecisions
    omega
  length_le := by
    have hlength := h.length_le
    rw [made_noteDecision, trail_assign, List.length_cons] at hlength
    omega
  traced ht := h.traced ((ht.congr hnewest).noteDecision hnew)

theorem SuccessCounts.after (hp : PropagationCounts r j s k) (h : SuccessCounts s k found k') :
    SuccessCounts r j found k' where
  decisions_eq := by
    have hdecisions := h.decisions_eq
    rw [hp.decisions_eq, hp.conflicts_eq, hp.decidedTrue_eq] at hdecisions
    exact hdecisions
  length_le := by
    have hlength := h.length_le
    have hmade := hp.made_eq
    omega
  traced ht := h.traced (hp.traced ht)

/-- A branch that succeeds makes as many decisions more than its conflicts doubled as it leaves
decisions for true on the trail. -/
theorem counts_of_found (h : Reached f r) (hx : r.explore depth j = (some found, k)) :
    SuccessCounts r j found k := by
  fun_induction Residual.explore depth r j generalizing found k with
  | case1 depth r j s k' hp =>
      cases hx
      exact (counts_propagate h hp).successCounts
  | case2 => cases hx
  | case3 => cases hx
  | case4 depth r j s k' hp v hb hs hv htrue hfalse found' k'' he ih =>
      cases hx
      have hreached := h.propagate hp
      exact (successCounts_first (hreached.new hv).2 (ih (hreached.assign hv) he)).after
        (counts_propagate h hp)
  | case5 depth r j s k' hp v hb hs hv htrue hfalse k'' he ih₁ ih₂ =>
      have hreached := h.propagate hp
      have hsecond := ih₂ (hreached.assign hv) hx
      exact (successCounts_second (hreached.new hv).2 (newest_of_branch hreached hv he)
        (made_le_of_branch he) (counts_of_none (hreached.assign hv) he) hsecond).after
        (counts_propagate h hp)

theorem vars_start (f : Formula) : (start f).vars = f.vars := by
  simp only [vars, literals, start, Formula.vars, List.map_flatMap]

end Residual

namespace Search

variable {f : Formula} {t : List Literal}

/-! ## The whole search -/

theorem Fits.length_le (h : Fits f t) (hocc : ∀ l ∈ t, l.var ∈ f.vars) :
    t.length ≤ f.vars.length := by
  have hnodup : (t.map Literal.var).Nodup := List.pairwise_map.mpr h.distinct
  have hsub : t.map Literal.var ⊆ f.vars := List.forall_mem_map.mpr hocc
  rw [← List.length_map (f := Literal.var)]
  exact hnodup.length_le_of_subset hsub

/-- How the counters add up if nothing was found. -/
structure RefutedCounts (f : Formula) (s : Search) : Prop where
  decisions_eq : s.journal.stats.decisions = 2 * s.journal.stats.conflicts - 2
  one_le_conflicts : 1 ≤ s.journal.stats.conflicts
  conflicts_le : s.journal.stats.conflicts ≤ 2 ^ (f.vars.length - 1)

/-- How the counters add up if values were found, and what is on the trail then. -/
structure FoundCounts (f : Formula) (s : Search) : Prop where
  /-- Every literal of the trail was made true by the newest event on its variable. -/
  traced : Traced s.journal s.trail
  /-- The decisions in excess are those of the trail that gave their variable the value true. -/
  decisions_eq : s.journal.stats.decisions =
    2 * s.journal.stats.conflicts + decidedTrue s.journal s.trail
  conflicts_le : 2 * s.journal.stats.conflicts ≤ s.journal.stats.decisions
  decisions_le : s.journal.stats.decisions ≤ 2 * s.journal.stats.conflicts + f.vars.length
  length_trail_le : s.trail.length ≤ f.vars.length
  length_trail_le_counted : s.trail.length ≤ s.journal.stats.propagations +
    s.journal.stats.pureLiterals + s.journal.stats.decisions

theorem refutedCounts {k : Journal Event} (hx : (Residual.start f).explore 0 {} = (none, k)) :
    RefutedCounts f (mirror f (Residual.start f) k) := by
  obtain ⟨hdecisions, hlt, hle⟩ := Residual.counts_of_none (Residual.reached_start f) hx
  rw [Residual.vars_start, Nat.zero_add] at hle
  have htotal : k.stats.decisions + 2 = 2 * k.stats.conflicts := hdecisions
  exact ⟨(Nat.sub_eq_of_eq_add htotal.symm).symm, hlt, hle⟩

theorem foundCounts {found : Residual} {k : Journal Event}
    (hx : (Residual.start f).explore 0 {} = (some found, k)) :
    FoundCounts f (mirror f found k) := by
  obtain ⟨hdecisions, hlength, htraced⟩ := Residual.counts_of_found (Residual.reached_start f) hx
  have htrail : found.trail.length ≤ f.vars.length :=
    ((Residual.reached_start f).explore hx).1.fits.length_le (Residual.mem_vars_of_found hx)
  have hdecided : decidedTrue k found.trail ≤ found.trail.length := List.countP_le_length
  have htotal : k.stats.decisions = 2 * k.stats.conflicts + decidedTrue k found.trail :=
    hdecisions.trans (congrArg (· + decidedTrue k found.trail) (Nat.add_zero _))
  have hcounted : found.trail.length ≤ made k := by
    rwa [show made {} = 0 from rfl, show (Residual.start f).trail.length = 0 from rfl,
      Nat.zero_add] at hlength
  exact
    { traced := htraced fun l hl => absurd hl List.not_mem_nil
      decisions_eq := htotal
      conflicts_le := htotal ▸ Nat.le_add_right _ _
      decisions_le := htotal ▸ Nat.add_le_add_left (Nat.le_trans hdecided htrail) _
      length_trail_le := htrail
      length_trail_le_counted := hcounted }

/-- The counters of a search account for its tree, and every decision is made below less others than
there are variables. -/
theorem search_accounts (f : Formula) : ∃ answer s, (start f).solve = .ok (answer, s) ∧
    (∀ l depth, Event.decide l depth ∈ s.journal.events → depth < f.vars.length) ∧
    match answer with
    | .unsat => RefutedCounts f s
    | .sat _ => FoundCounts f s := by
  cases hx : (Residual.start f).explore 0 {} with
  | mk result k =>
      have hdepths : ∀ l depth, Event.decide l depth ∈ k.events → depth < f.vars.length := by
        intro l depth hm
        have hlt := (Residual.continues_explore hx).depth_lt l depth hm
        rw [Residual.vars_start, Nat.zero_add] at hlt
        exact hlt.resolve_left (List.not_mem_nil ∘ Array.mem_toList_iff.mpr)
      cases result with
      | some found =>
          obtain ⟨m, hsolve, _⟩ := solve_of_found hx
          exact ⟨_, _, hsolve, hdepths, foundCounts hx⟩
      | none => exact ⟨_, _, solve_of_none hx, hdepths, refutedCounts hx⟩

/-- `(x1 ∨ x2) ∧ (x1 ∨ ¬x2) ∧ (¬x1 ∨ x2) ∧ (¬x1 ∨ ¬x2)`. -/
def fullFormula : Formula :=
  .ofClauses [.ofLiterals [⟨.x1, true⟩, ⟨.x2, true⟩], .ofLiterals [⟨.x1, true⟩, ⟨.x2, false⟩],
    .ofLiterals [⟨.x1, false⟩, ⟨.x2, true⟩], .ofLiterals [⟨.x1, false⟩, ⟨.x2, false⟩]]

-- The bound on the conflicts is attained: two of them, with two variables.
example : (start fullFormula).solve.toOption.map
    (fun x => (x.1.verdict, x.2.journal.stats.decisions, x.2.journal.stats.conflicts)) =
      some (.unsat, 2, 2) := by decide +kernel

end Search

end Clausal
