import Clausal.Proofs.Renaming
import Clausal.Proofs.Search.Refinement

/-!
# Textbook searches side by side

Two runs of the textbook search are compared step by step.  The simplified formulas of the two
are related, and so are their variables and their journals.  If related formulas call for steps
that correspond, and related formulas and journals come of these, the three relations are a
`Simulation`, and they carry over from a step to a run (`Simulation.propagate`,
`Simulation.explore`).  So do they to the searches that mirror the formulas
(`Search.solve_simulation`).
-/

namespace Clausal

open Search (Status Forced Event)

variable {f g : Formula} {r q s found : Residual} {result : Option Residual} {status : Status}
  {step : Forced} {v : Variable} {i j k : Journal Event} {depth : Nat}

namespace Residual

/-! ## The textbook search, step by step -/

/-- Propagation stops at once where the formula is decided. -/
theorem propagate_of_decided (hs : r.status = status) (hne : status ≠ .undecided) :
    r.propagate j = (status, r, j) := by
  rw [propagate.eq_def, hs]
  cases status with
  | satisfied => rfl
  | conflict => rfl
  | undecided => exact absurd rfl hne

/-- It stops where no step is forced. -/
theorem propagate_of_stuck (hs : r.status = .undecided) (hf : r.forced? = none) :
    r.propagate j = (.undecided, r, j) := by
  rw [propagate.eq_def, hs]
  simp only
  split
  · rfl
  · next h => rw [hf] at h; cases h

/-- Otherwise it takes the forced step and goes on. -/
theorem propagate_of_forced (hs : r.status = .undecided) (hf : r.forced? = some step) :
    r.propagate j = (r.assign (literal step)).propagate (noteForced j step) := by
  rw [propagate.eq_def, hs]
  simp only
  split
  · next h => rw [hf] at h; cases h
  · next h => rw [hf] at h; cases h; rfl

/-- A search succeeds if propagation satisfies the formula. -/
theorem explore_of_satisfied (hp : r.propagate j = (.satisfied, s, k)) :
    r.explore depth j = (some s, k) := by
  rw [explore.eq_def]
  split
  · next h => rw [hp] at h; cases h; rfl
  · next h => rw [hp] at h; cases h
  · next h => rw [hp] at h; cases h

/-- It fails, and counts a conflict, if propagation falsifies a clause. -/
theorem explore_of_conflict (hp : r.propagate j = (.conflict, s, k)) :
    r.explore depth j = (none, noteConflict k) := by
  rw [explore.eq_def]
  split
  · next h => rw [hp] at h; cases h
  · next h => rw [hp] at h; cases h; rfl
  · next h => rw [hp] at h; cases h

/-- Otherwise it branches, and takes up the second branch if the first one fails. -/
theorem explore_of_undecided (hp : r.propagate j = (.undecided, s, k)) (hb : s.branch? = some v) :
    r.explore depth j =
      match (s.assign ⟨v, true⟩).explore (depth + 1) (noteDecision k ⟨v, true⟩ depth) with
      | (some found, k) => (some found, k)
      | (none, k) =>
          (s.assign ⟨v, false⟩).explore (depth + 1) (noteDecision k ⟨v, false⟩ depth) := by
  rw [explore.eq_def]
  split
  · next h => rw [hp] at h; cases h
  · next h => rw [hp] at h; cases h
  · next h =>
      rw [hp] at h
      cases h
      split
      · next h => rw [hb] at h; cases h
      · next h => rw [hb] at h; cases h; rfl

end Residual

/-! ## Relations that steps preserve -/

/-- Forced steps of the same kind, for literals that match. -/
inductive Search.Forced.Matches (V : Variable → Variable → Prop) : Forced → Forced → Prop where
  | unit {l m : Literal} : l.Matches V m → Forced.Matches V (.unit l) (.unit m)
  | pure {l m : Literal} : l.Matches V m → Forced.Matches V (.pure l) (.pure m)

@[simp] theorem Search.Forced.matches_eq_iff {x y : Forced} : x.Matches Eq y ↔ x = y := by
  constructor
  · intro h
    cases h with
    | unit h => rw [Literal.matches_eq_iff.mp h]
    | pure h => rw [Literal.matches_eq_iff.mp h]
  · rintro rfl
    cases x with
    | unit l => exact .unit (Literal.matches_eq_iff.mpr rfl)
    | pure l => exact .pure (Literal.matches_eq_iff.mpr rfl)

namespace Residual

/-- Forced steps that match make literals true that match. -/
theorem matches_literal {V : Variable → Variable → Prop} {x y : Forced} (h : x.Matches V y) :
    (literal x).Matches V (literal y) := by
  cases h with
  | unit hl => exact hl
  | pure hl => exact hl

/-- Related formulas stand alike, call for forced steps that match and branch on related variables.
Steps that match lead to related formulas and journals. -/
structure Simulation (S : Residual → Residual → Prop) (V : Variable → Variable → Prop)
    (J : Journal Event → Journal Event → Prop) : Prop where
  status_eq : ∀ {r q}, S r q → q.status = r.status
  forced : ∀ {r q}, S r q → Option.Rel (Forced.Matches V) r.forced? q.forced?
  branch : ∀ {r q}, S r q → Option.Rel V r.branch? q.branch?
  assign : ∀ {r q l m}, S r q → l.Matches V m → S (r.assign l) (q.assign m)
  noteForced : ∀ {j i x y}, J j i → x.Matches V y → J (noteForced j x) (noteForced i y)
  noteDecision : ∀ {j i l m depth}, J j i → l.Matches V m →
    J (noteDecision j l depth) (noteDecision i m depth)
  noteConflict : ∀ {j i}, J j i → J (noteConflict j) (noteConflict i)

/-- Where related formulas call for the very same steps it is enough to follow these. -/
theorem Simulation.of_eq {S : Residual → Residual → Prop}
    {J : Journal Event → Journal Event → Prop} (hstatus : ∀ {r q}, S r q → q.status = r.status)
    (hforced : ∀ {r q}, S r q → q.forced? = r.forced?)
    (hbranch : ∀ {r q}, S r q → q.branch? = r.branch?)
    (hassign : ∀ {r q} l, S r q → S (r.assign l) (q.assign l))
    (hnoteForced : ∀ {j i} x, J j i → J (Residual.noteForced j x) (Residual.noteForced i x))
    (hnoteDecision : ∀ {j i} l depth, J j i →
      J (Residual.noteDecision j l depth) (Residual.noteDecision i l depth))
    (hnoteConflict : ∀ {j i}, J j i → J (Residual.noteConflict j) (Residual.noteConflict i)) :
    Simulation S Eq J where
  status_eq := hstatus
  forced h := by
    rw [hforced h]
    exact rel_option_refl (fun _ => Forced.matches_eq_iff.mpr rfl) _
  branch h := by
    rw [hbranch h]
    exact rel_option_refl (fun _ => rfl) _
  assign h hl := Literal.matches_eq_iff.mp hl ▸ hassign _ h
  noteForced h hx := Forced.matches_eq_iff.mp hx ▸ hnoteForced _ h
  noteDecision h hl := Literal.matches_eq_iff.mp hl ▸ hnoteDecision _ _ h
  noteConflict := hnoteConflict

namespace Simulation

variable {S : Residual → Residual → Prop} {V : Variable → Variable → Prop}
  {J : Journal Event → Journal Event → Prop}

/-- Propagation takes steps in the one run that match those in the other, and ends alike. -/
theorem propagate (h : Simulation S V J) (hr : S r q) (hj : J j i)
    (hp : r.propagate j = (status, s, k)) :
    ∃ u n, q.propagate i = (status, u, n) ∧ S s u ∧ J k n := by
  fun_induction Residual.propagate r j generalizing q i with
  | case1 r j hs =>
      cases hp
      exact ⟨q, i, propagate_of_decided ((h.status_eq hr).trans hs) (by decide), hr, hj⟩
  | case2 r j hs =>
      cases hp
      exact ⟨q, i, propagate_of_decided ((h.status_eq hr).trans hs) (by decide), hr, hj⟩
  | case3 r j hs hf =>
      cases hp
      have hstuck := eq_none_of_rel (h.forced hr) hf
      exact ⟨q, i, propagate_of_stuck ((h.status_eq hr).trans hs) hstuck, hr, hj⟩
  | case4 r j hs step hf hlt ih =>
      obtain ⟨other, hother, hmatch⟩ := exists_of_rel (h.forced hr) hf
      rw [propagate_of_forced ((h.status_eq hr).trans hs) hother]
      exact ih (h.assign hr (matches_literal hmatch)) (h.noteForced hj hmatch) hp

/-- So does the search: both succeed or both fail, since they branch on variables that match. -/
theorem explore (h : Simulation S V J) (hr : S r q) (hj : J j i)
    (hx : r.explore depth j = (result, k)) :
    ∃ other n, q.explore depth i = (other, n) ∧ Option.Rel S result other ∧ J k n := by
  fun_induction Residual.explore depth r j generalizing q i result k with
  | case1 depth r j s k' hp =>
      cases hx
      obtain ⟨u, n, hu, hsu, hn⟩ := h.propagate hr hj hp
      exact ⟨some u, n, explore_of_satisfied hu, .some hsu, hn⟩
  | case2 depth r j s k' hp =>
      cases hx
      obtain ⟨u, n, hu, _, hn⟩ := h.propagate hr hj hp
      exact ⟨none, _, explore_of_conflict hu, .none, h.noteConflict hn⟩
  | case3 depth r j s k' hp hb =>
      obtain ⟨v, hv⟩ := exists_branch? (propagated hp).status_eq
      rw [hb] at hv
      cases hv
  | case4 depth r j s k' hp v hb hs hv htrue hfalse found k'' he ih =>
      cases hx
      obtain ⟨u, n, hu, hsu, hn⟩ := h.propagate hr hj hp
      obtain ⟨w, hw, hvw⟩ := exists_of_rel (h.branch hsu) hb
      have hfirst := Literal.matches_mk hvw true
      obtain ⟨other, n', hother, hrel, hn'⟩ :=
        ih (h.assign hsu hfirst) (h.noteDecision hn hfirst) he
      rw [explore_of_undecided hu hw, hother]
      cases hrel with
      | some hfound => exact ⟨_, n', rfl, .some hfound, hn'⟩
  | case5 depth r j s k' hp v hb hs hv htrue hfalse k'' he ih₁ ih₂ =>
      obtain ⟨u, n, hu, hsu, hn⟩ := h.propagate hr hj hp
      obtain ⟨w, hw, hvw⟩ := exists_of_rel (h.branch hsu) hb
      have hfirst := Literal.matches_mk hvw true
      have hsecond := Literal.matches_mk hvw false
      obtain ⟨other, n', hother, hrel, hn'⟩ :=
        ih₁ (h.assign hsu hfirst) (h.noteDecision hn hfirst) he
      rw [explore_of_undecided hu hw, hother]
      cases hrel with
      | none => exact ih₂ (h.assign hsu hsecond) (h.noteDecision hn' hsecond) hx

end Simulation

end Residual

/-! ## Searches side by side -/

namespace Search

open Residual (Reached Simulation)

variable {S : Residual → Residual → Prop} {V : Variable → Variable → Prop}
  {J : Journal Event → Journal Event → Prop}

/-- Neither search has found values, and both are where they were, or both have, along trails of
related formulas. -/
inductive SolvedAlike (S : Residual → Residual → Prop) (J : Journal Event → Journal Event → Prop)
    (f g : Formula) (r q : Residual) : Solution × Search → Solution × Search → Prop where
  | unsat (k n : Journal Event) : J k n →
      SolvedAlike S J f g r q (.unsat, mirror f r k) (.unsat, mirror g q n)
  | sat (found other : Residual) (k n : Journal Event) (m m' : Model) : Reached f found →
      Reached g other → S found other → J k n →
      (∀ v b, m.value v = some b ↔ (⟨v, b⟩ : Literal) ∈ found.trail) →
      (∀ v b, m'.value v = some b ↔ (⟨v, b⟩ : Literal) ∈ other.trail) →
      SolvedAlike S J f g r q (.sat (some m), mirror f found k) (.sat (some m'), mirror g other n)

/-- The counting searches that mirror the two runs end alike as well. -/
theorem solve_simulation (h : Simulation S V J) (hr : Reached f r) (hq : Reached g q)
    (hrq : S r q) (hj : J j i) : ∃ x y, (mirror f r j).solve = .ok x ∧
      (mirror g q i).solve = .ok y ∧ SolvedAlike S J f g r q x y := by
  cases hx : r.explore 0 j with
  | mk result k =>
      obtain ⟨other, n, hother, hrel, hn⟩ := h.explore hrq hj hx
      cases hrel with
      | none =>
          exact ⟨_, _, solve_mirror_of_none hr hx, solve_mirror_of_none hq hother,
            .unsat _ _ hn⟩
      | some hfound =>
          obtain ⟨m, hsolve, _, hvalue⟩ := solve_mirror_of_found (j := j) hr hx
          obtain ⟨m', hsolve', _, hvalue'⟩ := solve_mirror_of_found (j := i) hq hother
          exact ⟨_, _, hsolve, hsolve', .sat _ _ _ _ _ _ (hr.explore hx).1 (hq.explore hother).1
            hfound hn hvalue hvalue'⟩

end Search

end Clausal
