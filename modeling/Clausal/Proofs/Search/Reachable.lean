import Clausal.Proofs.Search.Counters
import Clausal.Proofs.Search.Refinement

/-!
# States that a search can be in

A search changes its state by few calls: it makes a forced literal true, it makes a literal of
the branching variable true, it takes the newest literal back, and it counts a conflict.  A
state is `Reachable` if some sequence of such calls leads to it.  The calls may come in any
order, so this covers every state between two calls of a run, and of several runs in a row.

Every reachable state mirrors a simplified formula (`Reachable.exists_mirror`), by induction over
the calls, and so it is consistent.  A run from a reachable state meets no fault and ends
in a reachable state (`Reachable.explore`, `Reachable.solve`).  The point of these two is that a
run asks for the branching variable once and decides on it twice.  The second decision is one
that the state asks for only because the state before the first was found again.
-/

namespace Clausal

open Residual (Reached)

namespace Search

variable {f : Formula} {s s' : Search} {r found : Residual} {t : List Literal} {l : Literal}
  {v : Variable} {j k : Journal Event} {room depth : Nat}

/-! ## Calls -/

/-- The states that a search of the formula can be in between two calls. -/
inductive Reachable (f : Formula) : Search → Prop where
  /-- Before the first call. -/
  | start : Reachable f (start f)
  /-- A forced step is taken. -/
  | take {s s' : Search} {step : Forced} : Reachable f s → s.forced? = .ok (some step) →
      s.take step = .ok s' → Reachable f s'
  /-- The branching variable is given a value. -/
  | decide {s s' : Search} {v : Variable} {b : Bool} {depth : Nat} : Reachable f s →
      s.branch? = .ok (some v) → s.decide ⟨v, b⟩ depth = .ok s' → Reachable f s'
  /-- The newest literal is taken back. -/
  | undo {s s' : Search} : Reachable f s → s.undo = .ok s' → Reachable f s'
  /-- A conflict is counted. -/
  | countConflict {s : Search} : Reachable f s → Reachable f s.countConflict

theorem Reachable.undoMany : ∀ {n : Nat} {s s' : Search}, Reachable f s →
    Search.undoMany n s = .ok s' → Reachable f s'
  | 0, s, s', h, hs => by cases hs; exact h
  | n + 1, s, s', h, hs => by
      rw [Search.undoMany] at hs
      cases hu : s.undo with
      | error x => rw [hu] at hs; cases hs
      | ok u =>
          rw [hu] at hs
          exact (h.undo hu).undoMany hs

/-- Backtracking takes literals back. -/
theorem Reachable.backtrack {n : Nat} (h : Reachable f s) (hs : s.backtrack n = .ok s') :
    Reachable f s' :=
  h.undoMany hs

/-! ## Reachable states mirror simplified formulas -/

theorem Fits.reached (h : Fits f t) : Reached f (Residual.along f t) := ⟨rfl, h⟩

/-- A trail that fits does so without its newest literals. -/
theorem Fits.drop (h : Fits f t) (n : Nat) : Fits f (t.drop n) where
  distinct := h.distinct.sublist (List.drop_sublist n t)
  hasEntry hl := h.hasEntry (List.mem_of_mem_drop hl)

theorem mem_vars_of_branch? (h : r.branch? = some v) : v ∈ r.vars := List.mem_of_mem_head? h

/-- Taking a literal back shortens the trail, if there is one. -/
theorem undo_along_drop (h : Fits f t) : (along f t j).undo = .ok (along f (t.drop 1) j) := by
  cases t with
  | nil => rfl
  | cons l t => exact undo_along (h.hasEntry List.mem_cons_self) h.head_new

/-- Taking back some literals leads to the state along the rest of the trail. -/
theorem undoMany_along : ∀ (n : Nat) {t : List Literal}, Fits f t →
    Search.undoMany n (along f t j) = .ok (along f (t.drop n) j)
  | 0, _, _ => rfl
  | n + 1, t, h => by
      rw [Search.undoMany, undo_along_drop h, ok_bind, undoMany_along n (h.drop 1),
        List.drop_drop, Nat.add_comm]

theorem undo_mirror (h : Reached f r) :
    (mirror f r j).undo = .ok (mirror f (Residual.along f (r.trail.drop 1)) j) :=
  undo_along_drop h.fits

/-- Every call leads from the mirror of a simplified formula to another one. -/
theorem Reachable.exists_mirror (h : Reachable f s) :
    ∃ r j, Reached f r ∧ s = mirror f r j := by
  induction h with
  | start => exact ⟨_, _, Residual.reached_start f, mirror_start f⟩
  | take _ hforced htake ih =>
      obtain ⟨r, j, hr, rfl⟩ := ih
      rw [forced?_mirror hr, Except.ok.injEq] at hforced
      rw [take_mirror hr hforced, Except.ok.injEq] at htake
      exact ⟨_, _, hr.assign (Residual.mem_vars_of_forced? hforced), htake.symm⟩
  | @decide _ _ v b _ _ hbranch hdecide ih =>
      obtain ⟨r, j, hr, rfl⟩ := ih
      rw [branch?_mirror hr, Except.ok.injEq] at hbranch
      have hv : (⟨v, b⟩ : Literal).var ∈ r.vars := mem_vars_of_branch? hbranch
      rw [decide_mirror hr hv, Except.ok.injEq] at hdecide
      exact ⟨_, _, hr.assign hv, hdecide.symm⟩
  | undo _ hundo ih =>
      obtain ⟨r, j, hr, rfl⟩ := ih
      rw [undo_mirror hr, Except.ok.injEq] at hundo
      exact ⟨_, _, (hr.fits.drop 1).reached, hundo.symm⟩
  | countConflict _ ih =>
      obtain ⟨r, j, hr, rfl⟩ := ih
      exact ⟨r, _, hr, countConflict_mirror⟩

theorem Reachable.consistent (h : Reachable f s) : Consistent f s := by
  obtain ⟨r, j, hr, rfl⟩ := h.exists_mirror
  exact hr.fits.consistent j

/-! ## The next call meets no fault -/

/-- A variable that is left has no value. -/
theorem value_mirror (h : Reached f r) (hv : v ∈ r.vars) : (mirror f r j).value v = .ok none := by
  rw [mirror, value_along (index_lt_of_mem_vars (h.new hv).1),
    valueAt_eq_none_iff.mpr (h.new hv).2]

/-- The forced literal has no value, and it can be made true. -/
theorem Reachable.forced (h : Reachable f s) : ∃ next, s.forced? = .ok next ∧
    ∀ step, next = some step →
      s.value (Residual.literal step).var = .ok none ∧ ∃ s', s.take step = .ok s' := by
  obtain ⟨r, j, hr, rfl⟩ := h.exists_mirror
  refine ⟨_, forced?_mirror hr, fun step hstep => ?_⟩
  exact ⟨value_mirror hr (Residual.mem_vars_of_forced? hstep), _, take_mirror hr hstep⟩

/-- The branching variable has no value, and it can be given both. -/
theorem Reachable.branch (h : Reachable f s) : ∃ next, s.branch? = .ok next ∧
    ∀ v, next = some v →
      s.value v = .ok none ∧ ∀ b depth, ∃ s', s.decide ⟨v, b⟩ depth = .ok s' := by
  obtain ⟨r, j, hr, rfl⟩ := h.exists_mirror
  refine ⟨_, branch?_mirror hr, fun v hbranch => ?_⟩
  have hv := mem_vars_of_branch? hbranch
  refine ⟨value_mirror hr hv, fun b depth => ?_⟩
  have hb : (⟨v, b⟩ : Literal).var ∈ r.vars := hv
  exact ⟨_, decide_mirror hr hb⟩

/-- Taking back a literal does not fail in a state that can be reached. -/
theorem Reachable.exists_undo (h : Reachable f s) : ∃ s', s.undo = .ok s' := by
  obtain ⟨r, j, hr, rfl⟩ := h.exists_mirror
  exact ⟨_, undo_mirror hr⟩

/-- Literals can be taken back to any length of the trail. -/
theorem Reachable.exists_backtrack (h : Reachable f s) (n : Nat) :
    ∃ s', s.backtrack n = .ok s' ∧ Reachable f s' := by
  obtain ⟨r, j, hr, rfl⟩ := h.exists_mirror
  have hback : (mirror f r j).backtrack n = _ := undoMany_along (r.trail.length - n) hr.fits
  exact ⟨_, hback, h.backtrack hback⟩

/-! ## Runs -/

/-- Propagation leads from a state that can be reached to one that can. -/
theorem Reachable.propagate {status : Status} (h : Reachable f (mirror f r j)) (hr : Reached f r)
    (hp : r.propagate j = (status, found, k)) : Reachable f (mirror f found k) := by
  fun_induction Residual.propagate r j with
  | case1 => cases hp; exact h
  | case2 => cases hp; exact h
  | case3 => cases hp; exact h
  | case4 r j _ step hstep _ ih =>
      have hforced : (mirror f r j).forced? = .ok (some step) := by rw [forced?_mirror hr, hstep]
      exact ih (h.take hforced (take_mirror hr hstep))
        (hr.assign (Residual.mem_vars_of_forced? hstep)) hp

theorem Reachable.decide_mirror {b : Bool} (h : Reachable f (mirror f r j)) (hr : Reached f r)
    (hv : r.branch? = some v) :
    Reachable f (mirror f (r.assign ⟨v, b⟩) (Residual.noteDecision j ⟨v, b⟩ depth)) := by
  have hbranch : (mirror f r j).branch? = .ok (some v) := by rw [branch?_mirror hr, hv]
  have hb : (⟨v, b⟩ : Literal).var ∈ r.vars := mem_vars_of_branch? hv
  exact h.decide hbranch (Search.decide_mirror hr hb)

/-- A run of the textbook passes through reachable states and ends in one. -/
theorem Reachable.outcome (h : Reachable f (mirror f r j)) (hr : Reached f r) :
    Reachable f (outcome f r (r.explore depth j)).2 := by
  fun_induction Residual.explore depth r j with
  | case1 depth r j s k hp => exact h.propagate hr hp
  | case2 depth r j s k hp =>
      exact (h.propagate hr hp).countConflict.backtrack
        (backtrack_mirror (hr.propagate hp).fits (Residual.propagated hp).suffix)
  | case3 depth r j s k hp hb =>
      obtain ⟨v, hv⟩ := Residual.exists_branch? (Residual.propagated hp).status_eq
      rw [hb] at hv
      cases hv
  | case4 depth r j s k hp v hb hle hv htrue hfalse found k' he ih =>
      have hs := h.propagate hr hp
      have hreached := hr.propagate hp
      have hend := ih (hs.decide_mirror hreached hb) (hreached.assign hv)
      rw [he] at hend
      exact hend
  | case5 depth r j s k hp v hb hle hv htrue hfalse k' he ih₁ ih₂ =>
      have hs := h.propagate hr hp
      have hreached := hr.propagate hp
      have hfirst := ih₁ (hs.decide_mirror hreached hb) (hreached.assign hv)
      rw [he] at hfirst
      -- The failed branch is taken back, so the variable to branch on is the same again.
      have hagain : Reachable f (mirror f s k') := hfirst.backtrack (backtrack_assign hreached hv)
      have hsecond := ih₂ (hagain.decide_mirror hreached hb) (hreached.assign hv)
      cases hx : Residual.explore (depth + 1) (s.assign ⟨v, false⟩)
          (Residual.noteDecision k' ⟨v, false⟩ depth) with
      | mk result k'' =>
          rw [hx] at hsecond
          cases result with
          | some found => exact hsecond
          | none =>
              have hback : Reachable f (mirror f s k'') :=
                hsecond.backtrack (backtrack_assign hreached hv)
              exact hback.backtrack
                (backtrack_mirror hreached.fits (Residual.propagated hp).suffix)

/-- A search from a reachable state ends in one. -/
theorem Reachable.explore (h : Reachable f s) (depth : Nat) :
    ∃ success s', s.explore s.values.size depth = .ok (success, s') ∧ Reachable f s' := by
  obtain ⟨r, j, hr, rfl⟩ := h.exists_mirror
  exact ⟨_, _, explore_mirror hr (length_vars_le_size hr), h.outcome hr⟩

theorem exists_solve_mirror (h : Reached f r) :
    ∃ answer, (mirror f r j).solve = .ok (answer, (outcome f r (r.explore 0 j)).2) := by
  cases hx : r.explore 0 j with
  | mk result k =>
      cases result with
      | none => exact ⟨_, solve_mirror_of_none h hx⟩
      | some found =>
          obtain ⟨m, hsolve, _⟩ := solve_mirror_of_found h hx
          exact ⟨_, hsolve⟩

/-- A solver can be asked in every reachable state. -/
theorem Reachable.solve (h : Reachable f s) :
    ∃ answer s', s.solve = .ok (answer, s') ∧ Reachable f s' := by
  obtain ⟨r, j, hr, rfl⟩ := h.exists_mirror
  obtain ⟨answer, hsolve⟩ := exists_solve_mirror (j := j) hr
  exact ⟨answer, _, hsolve, h.outcome hr⟩

/-! ## The invariant of a search -/

/-- In every state that a search can be in, the trail, the values, the counts and the totals agree,
and the status tells what the values make of the clauses.  The next literal that is made true has
no value, no call meets a fault, and a search or a solver that is started there meets none and
ends in such a state again. -/
theorem reachable_consistent (h : Reachable f s) :
    Consistent f s ∧
    (s.status = .conflict ↔ ∃ c ∈ f.clauses, s.values.falsifies c = true) ∧
    (s.status = .satisfied ↔ ∀ c ∈ f.clauses, s.values.satisfies c = true) ∧
    (∃ next, s.forced? = .ok next ∧ ∀ step, next = some step →
      s.value (Residual.literal step).var = .ok none ∧ ∃ s', s.take step = .ok s') ∧
    (∃ next, s.branch? = .ok next ∧ ∀ v, next = some v →
      s.value v = .ok none ∧ ∀ b depth, ∃ s', s.decide ⟨v, b⟩ depth = .ok s') ∧
    (∃ s', s.undo = .ok s') ∧
    (∀ n, ∃ s', s.backtrack n = .ok s' ∧ Reachable f s') ∧
    (∀ depth, ∃ success s', s.explore s.values.size depth = .ok (success, s') ∧ Reachable f s') ∧
    ∃ answer s', s.solve = .ok (answer, s') ∧ Reachable f s' :=
  ⟨h.consistent, h.consistent.status_conflict_iff, h.consistent.status_satisfied_iff, h.forced,
    h.branch, h.exists_undo, h.exists_backtrack, h.explore, h.solve⟩

/-- `(x1 ∨ x2) ∧ (¬x1 ∨ x2) ∧ (¬x1 ∨ x1 ∨ ¬x2)`: a formula with a tautology, in which nothing is
forced at first. -/
def unforcedFormula : Formula :=
  .ofClauses [.ofLiterals [⟨.x1, true⟩, ⟨.x2, true⟩], .ofLiterals [⟨.x1, false⟩, ⟨.x2, true⟩],
    .ofLiterals [⟨.x1, true⟩, ⟨.x1, false⟩, ⟨.x2, false⟩]]

/-- Below the first decision the tautology has a true and a false literal, and the second clause
is the only one that is open. -/
theorem reachable_after_decision : ∃ s l, (start unforcedFormula).decide l 0 = .ok s ∧
    Reachable unforcedFormula s ∧ Consistent unforcedFormula s ∧ s.trail = [l] ∧
    s.rows.toList.map Row.satisfied = [1, 0, 1] ∧ s.rows.toList.map Row.falsified = [0, 1, 1] ∧
    s.satisfiedClauses = 2 ∧ s.falsifiedClauses = 0 ∧ s.status = .undecided := by
  let l : Literal := ⟨.x1, true⟩
  have hv : l.var ∈ (Residual.start unforcedFormula).vars := by decide
  have hdecide : (start unforcedFormula).decide l 0 =
      .ok (along unforcedFormula [l] (Residual.noteDecision {} l 0)) := by
    rw [mirror_start]
    exact decide_mirror (Residual.reached_start unforcedFormula) hv
  have hbranch : (start unforcedFormula).branch? = .ok (some l.var) := rfl
  have h := Reachable.start.decide hbranch hdecide
  exact ⟨_, l, hdecide, h, (reachable_consistent h).1, rfl, by decide, by decide, by decide,
    by decide, by decide⟩

end Search

end Clausal
