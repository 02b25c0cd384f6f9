import Clausal.Proofs.Models
import Clausal.Proofs.Search.Simplified
import Clausal.Proofs.Search.Textbook
import Clausal.Search

/-!
# Counting search and textbook search

The search that counts takes the steps of the search on simplified formulas, one for one.
A simplified formula that is `Reached` is the one along its own trail, and `mirror` is the
state with the counts for it.  Every operation of the counting search on a mirror is the
operation of the textbook on the formula, mirrored: `take_mirror` and `decide_mirror` for single
steps, `propagate_mirror` and `explore_mirror` for runs.  None of them meets a fault.

Both runs are recursions, on a number of variables.  The textbook counts the variables that are
left, the counting search the entries of its tables, and the former are no more than the latter
(`length_vars_along_le`), so the counting search never runs out of room.

A failed branch leaves the textbook with the formula it had before.  The counting search has to
find that state again, and `backtrack_along` says that it does.
-/

namespace Clausal

open Search (Status Forced Event Fits tableWidth)

variable {f : Formula} {r s found : Residual} {t : List Literal} {l : Literal} {v : Variable}
  {j k : Journal Event} {room depth : Nat}

namespace Residual

/-! ## Formulas that are reached -/

/-- The formula is the one along its own trail, and that trail fits. -/
structure Reached (f : Formula) (r : Residual) : Prop where
  eq_along : r = along f r.trail
  fits : Fits f r.trail

theorem reached_start (f : Formula) : Reached f (start f) := ⟨start_eq_along f, Fits.nil⟩

/-- A variable that is left occurs in the formula, and has no literal on the trail. -/
theorem Reached.new (h : Reached f r) (hv : v ∈ r.vars) :
    v ∈ f.vars ∧ ∀ m ∈ r.trail, m.var ≠ v := by
  apply mem_vars_along
  rw [← h.eq_along]
  exact hv

/-- Making a literal of a variable that is left true leads on to a formula that is reached. -/
theorem Reached.assign (h : Reached f r) (hl : l.var ∈ r.vars) : Reached f (r.assign l) where
  eq_along := by
    have hassign := assign_along (f := f) (h.new hl).2
    rw [← h.eq_along] at hassign
    exact hassign
  fits := h.fits.cons (Search.index_lt_of_mem_vars (h.new hl).1) (h.new hl).2

/-- So does propagation. -/
theorem Reached.propagate (h : Reached f r) {status : Status}
    (hp : r.propagate j = (status, s, k)) : Reached f s :=
  propagate_keeps (fun _ _ h hl => h.assign hl) h hp

/-- What the textbook search finds is reached, and no clause is left in it. -/
theorem Reached.explore (h : Reached f r) (hfound : r.explore depth j = (some found, k)) :
    Reached f found ∧ found.clauses = [] :=
  ⟨explore_keeps (fun _ _ h hl => h.assign hl) h hfound, clauses_of_found hfound⟩

/-- What is found from the start has literals over variables that occur on its trail. -/
theorem mem_vars_of_found (hfound : (start f).explore depth j = (some found, k)) :
    ∀ l ∈ found.trail, l.var ∈ f.vars := by
  have hkeeps : Reached f found ∧ ∀ l ∈ found.trail, l.var ∈ f.vars :=
    explore_keeps (P := fun r => Reached f r ∧ ∀ l ∈ r.trail, l.var ∈ f.vars)
      (fun r l h hl => ⟨h.1.assign hl, List.forall_mem_cons.mpr ⟨(h.1.new hl).1, h.2⟩⟩)
      ⟨reached_start f, fun _ hl => absurd hl List.not_mem_nil⟩ hfound
  exact hkeeps.2

/-- There are no more variables left than the tables have entries. -/
theorem length_vars_along_le : (along f t).vars.length ≤ tableWidth f.clauses := by
  have hnodup : ((along f t).vars.map Variable.index).Nodup :=
    List.pairwise_map.mpr ((Ascending.ofList_ascending _).nodup.imp
      fun hne he => hne (Variable.eq_of_index_eq he))
  have hsub : (along f t).vars.map Variable.index ⊆ List.range (tableWidth f.clauses) := by
    intro i hi
    obtain ⟨v, hv, rfl⟩ := List.mem_map.mp hi
    exact List.mem_range.mpr (Search.index_lt_of_mem_vars (mem_vars_along hv).1)
  have hle := hnodup.length_le_of_subset hsub
  rw [List.length_map, List.length_range] at hle
  exact hle

end Residual

namespace Search

open Residual (Reached)

/-! ## Mirrored steps -/

/-- The state with the counts for a simplified formula. -/
def mirror (f : Formula) (r : Residual) (j : Journal Event) : Search := along f r.trail j

theorem mirror_start (f : Formula) : start f = mirror f (Residual.start f) {} := start_eq_along f

/-- The tables have an entry for every variable that is left. -/
theorem length_vars_le_size (h : Reached f r) :
    r.vars.length ≤ (mirror f r j).values.size := by
  have hsize : (mirror f r j).values.size = tableWidth f.clauses := size_valuesAlong _ _
  rw [hsize, h.eq_along]
  exact Residual.length_vars_along_le

/-- The totals tell where the textbook stands. -/
theorem status_mirror (h : Reached f r) : (mirror f r j).status = r.status :=
  (status_along h.fits).trans (congrArg Residual.status h.eq_along.symm)

/-- The counts tell which step is forced. -/
theorem forced?_mirror (h : Reached f r) : (mirror f r j).forced? = .ok r.forced? := by
  rw [mirror, forced?_along, ← h.eq_along]

/-- They tell which variable comes next. -/
theorem branch?_mirror (h : Reached f r) : (mirror f r j).branch? = .ok r.branch? := by
  rw [mirror, branch?_along, ← h.eq_along]

/-- Making a literal true in a mirror mirrors making it true. -/
theorem assign_mirror (h : Reached f r) (hl : l.var ∈ r.vars) :
    (mirror f r j).assign l = .ok (mirror f (r.assign l) j) :=
  assign_along (index_lt_of_mem_vars (h.new hl).1) fun hm => (h.new hl).2 l hm rfl

/-- A forced step in a mirror mirrors the forced step, and is noted in the same way. -/
theorem take_mirror (h : Reached f r) {step : Forced} (hstep : r.forced? = some step) :
    (mirror f r j).take step =
      .ok (mirror f (r.assign (Residual.literal step)) (Residual.noteForced j step)) := by
  have hv := Residual.mem_vars_of_forced? hstep
  cases step with
  | unit l => exact assign_mirror h hv
  | pure l => exact assign_mirror h hv

/-- A decision in a mirror mirrors the decision, and is noted in the same way. -/
theorem decide_mirror (h : Reached f r) (hl : l.var ∈ r.vars) :
    (mirror f r j).decide l depth =
      .ok (mirror f (r.assign l) (Residual.noteDecision j l depth)) :=
  assign_mirror h hl

theorem countConflict_mirror :
    (mirror f r j).countConflict = mirror f r (Residual.noteConflict j) := rfl

/-- A formula with a shorter trail is found again by taking literals back. -/
theorem backtrack_mirror (h : Fits f s.trail) (hsuffix : r.trail <:+ s.trail) :
    (mirror f s j).backtrack r.trail.length = .ok (mirror f r j) := by
  obtain ⟨u, hu⟩ := hsuffix
  rw [← hu] at h
  rw [mirror, ← hu]
  exact backtrack_along h

/-- Going back behind a literal leads to the mirror of the formula before it. -/
theorem backtrack_assign (h : Reached f r) (hl : l.var ∈ r.vars) :
    (mirror f (r.assign l) j).backtrack r.trail.length = .ok (mirror f r j) :=
  backtrack_mirror (h.assign hl).fits (List.suffix_cons _ _)

/-! ## Mirrored runs -/

/-- Propagation takes the forced steps of the textbook. -/
theorem propagate_mirror (h : Reached f r) (hroom : r.vars.length ≤ room) :
    (mirror f r j).propagate room =
      .ok ((r.propagate j).1, mirror f (r.propagate j).2.1 (r.propagate j).2.2) := by
  fun_induction Residual.propagate r j generalizing room with
  | case1 r j hstatus => rw [propagate.eq_def, status_mirror h, hstatus]
  | case2 r j hstatus => rw [propagate.eq_def, status_mirror h, hstatus]
  | case3 r j hstatus hforced =>
      rw [propagate.eq_def, status_mirror h, hstatus]
      show (mirror f r j).forced? >>= _ = _
      rw [forced?_mirror h, hforced]
      rfl
  | case4 r j hstatus step hforced hlt ih =>
      rw [propagate.eq_def, status_mirror h, hstatus]
      show (mirror f r j).forced? >>= _ = _
      rw [forced?_mirror h, hforced]
      cases room with
      | zero => omega
      | succ room =>
          show (mirror f r j).take step >>= _ = _
          rw [take_mirror h hforced, ok_bind]
          exact ih (h.assign (Residual.mem_vars_of_forced? hforced)) (by omega)

/-- The entries of the tables are room enough for propagation. -/
theorem propagate_entries (h : Reached f r) :
    (mirror f r j).propagate (mirror f r j).values.size =
      .ok ((r.propagate j).1, mirror f (r.propagate j).2.1 (r.propagate j).2.2) :=
  propagate_mirror h (length_vars_le_size h)

/-- What the counting search returns when the textbook search returns from a formula. -/
def outcome (f : Formula) (r : Residual) : Option Residual × Journal Event → Bool × Search
  | (some found, k) => (true, mirror f found k)
  | (none, k) => (false, mirror f r k)

/-- A mirror succeeds where the formula is satisfied by propagation. -/
theorem explore_of_satisfied (h : Reached f r) (hp : r.propagate j = (.satisfied, s, k)) :
    (mirror f r j).explore room depth = .ok (true, mirror f s k) := by
  rw [explore.eq_def]
  show (mirror f r j).propagate _ >>= _ = _
  rw [propagate_entries h, hp]
  rfl

/-- It fails where a clause is falsified, and mirrors the formula before propagation again. -/
theorem explore_of_conflict (h : Reached f r) (hp : r.propagate j = (.conflict, s, k)) :
    (mirror f r j).explore room depth = .ok (false, mirror f r (Residual.noteConflict k)) := by
  rw [explore.eq_def]
  show (mirror f r j).propagate _ >>= _ = _
  rw [propagate_entries h, hp, ok_bind]
  show (mirror f s k).countConflict.backtrack r.trail.length >>= _ = _
  rw [countConflict_mirror, backtrack_mirror (h.propagate hp).fits (Residual.propagated hp).suffix]
  rfl

/-- An undecided search tries both values, from the state that it is left in by propagation. -/
theorem explore_of_undecided (h : Reached f r) (hp : r.propagate j = (.undecided, s, k))
    (hb : s.branch? = some v) :
    (mirror f r j).explore (room + 1) depth = do
      let (found, s') ← (← (mirror f s k).decide ⟨v, true⟩ depth).explore room (depth + 1)
      if found then return (true, s')
      let s' ← s'.backtrack s.trail.length
      let (found, s') ← (← s'.decide ⟨v, false⟩ depth).explore room (depth + 1)
      if found then return (true, s')
      let s' ← s'.backtrack s.trail.length
      return (false, ← s'.backtrack r.trail.length) := by
  rw [explore.eq_def]
  show (mirror f r j).propagate _ >>= _ = _
  rw [propagate_entries h, hp, ok_bind]
  show (mirror f s k).branch? >>= _ = _
  rw [branch?_mirror (h.propagate hp), hb]
  rfl

/-- Exploring takes the steps of the textbook and comes back where it fails. -/
theorem explore_mirror (h : Reached f r) (hroom : r.vars.length ≤ room) :
    (mirror f r j).explore room depth = .ok (outcome f r (r.explore depth j)) := by
  fun_induction Residual.explore depth r j generalizing room with
  | case1 depth r j s k hp => exact explore_of_satisfied h hp
  | case2 depth r j s k hp => exact explore_of_conflict h hp
  | case3 depth r j s k hp hb =>
      obtain ⟨v, hv⟩ := Residual.exists_branch? (Residual.propagated hp).status_eq
      rw [hb] at hv
      cases hv
  | case4 depth r j s k hp v hb hs hv htrue hfalse found k' he ih =>
      have hreached := h.propagate hp
      cases room with
      | zero => omega
      | succ room =>
          rw [explore_of_undecided h hp hb, decide_mirror hreached hv, ok_bind,
            ih (hreached.assign hv) (by omega), he]
          rfl
  | case5 depth r j s k hp v hb hs hv htrue hfalse k' he ih₁ ih₂ =>
      have hreached := h.propagate hp
      have hsuffix := (Residual.propagated hp).suffix
      cases room with
      | zero => omega
      | succ room =>
          rw [explore_of_undecided h hp hb, decide_mirror hreached hv, ok_bind,
            ih₁ (hreached.assign hv) (by omega), he, ok_bind]
          show (mirror f (s.assign ⟨v, true⟩) k').backtrack s.trail.length >>= _ = _
          rw [backtrack_assign hreached hv, ok_bind, decide_mirror hreached hv, ok_bind,
            ih₂ (hreached.assign hv) (by omega), ok_bind]
          cases Residual.explore (depth + 1) (s.assign ⟨v, false⟩)
              (Residual.noteDecision k' ⟨v, false⟩ depth) with
          | mk result k'' =>
              cases result with
              | some found => rfl
              | none =>
                  show (mirror f (s.assign ⟨v, false⟩) k'').backtrack s.trail.length >>= _ = _
                  rw [backtrack_assign hreached hv, ok_bind, backtrack_mirror hreached.fits hsuffix]
                  rfl

/-! ## The whole search -/

/-- If no clause is left along a trail, its values are a model. -/
theorem exists_model (h : Fits f t) (hdone : (Residual.along f t).clauses = []) :
    ∃ m, Model.check f (valuesAlong (tableWidth f.clauses) t) = .ok m ∧ m.formula = f ∧
      ∀ v b, m.value v = some b ↔ (⟨v, b⟩ : Literal) ∈ t := by
  have hsize : (valuesAlong (tableWidth f.clauses) t).size ≤ f.numVariables := by
    rw [size_valuesAlong]
    exact tableWidth_le_numVariables f
  have hsatisfied : (valuesAlong (tableWidth f.clauses) t).satisfiesAll f = true := by
    refine PartialAssignment.satisfiesAll_iff.mpr fun c hc => ?_
    have hclosed : ¬ c.isOpenUnder t = true :=
      List.filter_eq_nil_iff.mp (List.map_eq_nil_iff.mp hdone) c hc
    simp only [Clause.isOpenUnder_iff, Classical.not_forall, Classical.not_not] at hclosed
    obtain ⟨l, hl, ht⟩ := hclosed
    exact PartialAssignment.satisfies_iff.mpr ⟨l, hl, (value_valuesAlong h).mpr ht⟩
  exact ⟨⟨f, _, hsize, hsatisfied⟩, Model.check_eq_ok_iff.mpr ⟨rfl, rfl⟩, rfl,
    fun v b => value_valuesAlong h⟩

/-- The entries of the tables are room enough for the whole search. -/
theorem explore_entries (h : Reached f r) : (mirror f r j).explore (mirror f r j).values.size 0 =
    .ok (outcome f r (r.explore 0 j)) :=
  explore_mirror h (length_vars_le_size h)

/-- A search that finds something answers with a model if the values along the trail are one. -/
theorem solve_mirror_of_check (h : Reached f r) (hfound : r.explore 0 j = (some found, k))
    {m : Model}
    (hcheck : Model.check f (valuesAlong (tableWidth f.clauses) found.trail) = .ok m) :
    (mirror f r j).solve = .ok (.sat (some m), mirror f found k) := by
  have hmirror : Model.check (mirror f found k).formula (mirror f found k).values = .ok m := hcheck
  rw [solve, explore_entries h, hfound, outcome, ok_bind]
  simp only [↓reduceIte, hmirror]
  rfl

/-- They are one, so the search answers with the model that has just the literals on the trail. -/
theorem solve_mirror_of_found (h : Reached f r) (hfound : r.explore 0 j = (some found, k)) :
    ∃ m, (mirror f r j).solve = .ok (.sat (some m), mirror f found k) ∧ m.formula = f ∧
      ∀ v b, m.value v = some b ↔ (⟨v, b⟩ : Literal) ∈ found.trail := by
  obtain ⟨hreached, hdone⟩ := h.explore hfound
  rw [hreached.eq_along] at hdone
  obtain ⟨m, hcheck, hformula, hvalue⟩ := exists_model hreached.fits hdone
  exact ⟨m, solve_mirror_of_check h hfound hcheck, hformula, hvalue⟩

/-- A search that finds nothing answers that the formula is unsatisfiable, and leaves the state in
which it began. -/
theorem solve_mirror_of_none (h : Reached f r) (hnone : r.explore 0 j = (none, k)) :
    (mirror f r j).solve = .ok (.unsat, mirror f r k) := by
  rw [solve, explore_entries h, hnone]
  rfl

theorem solve_of_found (h : (Residual.start f).explore 0 {} = (some found, k)) :
    ∃ m, (start f).solve = .ok (.sat (some m), mirror f found k) ∧ m.formula = f ∧
      ∀ v b, m.value v = some b ↔ (⟨v, b⟩ : Literal) ∈ found.trail := by
  rw [mirror_start]
  exact solve_mirror_of_found (Residual.reached_start f) h

theorem solve_of_none (h : (Residual.start f).explore 0 {} = (none, k)) :
    (start f).solve = .ok (.unsat, mirror f (Residual.start f) k) := by
  rw [mirror_start]
  exact solve_mirror_of_none (Residual.reached_start f) h

/-- The counting search answers what the textbook search does, with the same values, and its
journal is the same: every counter, and every event in order. -/
theorem solve_refines_textbook (f : Formula) :
    ∃ answer s, (start f).solve = .ok (answer, s) ∧
      s.journal = ((Residual.start f).explore 0 {}).2 ∧
      match ((Residual.start f).explore 0 {}).1 with
      | some found => s.trail = found.trail ∧ ∃ m, answer = .sat (some m) ∧ m.formula = f ∧
          ∀ v b, m.value v = some b ↔ (⟨v, b⟩ : Literal) ∈ found.trail
      | none => answer = .unsat := by
  cases h : (Residual.start f).explore 0 {} with
  | mk result k =>
      cases result with
      | some found =>
          obtain ⟨m, hsolve, hformula, hvalue⟩ := solve_of_found h
          exact ⟨_, _, hsolve, rfl, rfl, m, rfl, hformula, hvalue⟩
      | none => exact ⟨_, _, solve_of_none h, rfl, rfl⟩

end Search

end Clausal
