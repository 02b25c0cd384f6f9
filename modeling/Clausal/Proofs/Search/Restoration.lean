import Clausal.Proofs.Search.Propagation

/-!
# What a search leaves behind

A search that fails leaves the state that it began with, its counters and its log aside.  One
that succeeds keeps the literals of the trail that it began with, puts its own on top of them, and
makes some literal of every clause true.  That holds from any consistent state, below
any number of decisions.

Both are read off the textbook search.  Its simplified formula is a value that a failed branch
cannot change, and `explore_mirror` says that the state with the counts comes back to the mirror of
the formula it began with.  A trail that grows under every step is kept by a search that
succeeds (`Residual.explore_keeps`).
-/

namespace Clausal

open Residual (Reached)

namespace Search

variable {f : Formula} {s : Search} {r found : Residual} {l : Literal} {c : Clause} {v : Variable}
  {j k : Journal Event} {depth : Nat}

/-! ## One literal -/

/-- A variable has an entry if its value can be read. -/
theorem index_lt_of_value {b : Option Bool} (h : s.value v = .ok b) :
    v.index < s.values.size := by
  refine Nat.lt_of_not_le fun hle => ?_
  rw [value, Array.getElem?_eq_none hle] at h
  cases h

/-- Making a literal true that has no value and taking it back leads to the same state. -/
theorem Consistent.undo_assign (h : Consistent f s) (hl : s.value l.var = .ok none) :
    ∃ s', s.assign l = .ok s' ∧ s'.undo = .ok s := by
  have hentry : l.var.index < tableWidth f.clauses := h.size_eq ▸ index_lt_of_value hl
  rw [h.eq_along, value_along hentry, Except.ok.injEq, valueAt_eq_none_iff] at hl
  have hassign := assign_along (j := s.journal) hentry fun hm => hl l hm rfl
  have hundo := undo_along (j := s.journal) hentry hl
  rw [← h.eq_along] at hassign hundo
  exact ⟨_, hassign, hundo⟩

/-! ## Searches -/

theorem mirror_eq_with_journal (f : Formula) (r : Residual) (j k : Journal Event) :
    mirror f r k = { mirror f r j with journal := k } := rfl

theorem suffix_of_found (hx : r.explore depth j = (some found, k)) : r.trail <:+ found.trail :=
  Residual.explore_keeps (P := fun q => r.trail <:+ q.trail)
    (fun _ _ h _ => h.trans (List.suffix_cons _ _)) List.suffix_rfl hx

/-- Every clause has a true literal in the state that is found. -/
theorem satisfies_of_found (h : Reached f r) (hx : r.explore depth j = (some found, k))
    (hc : c ∈ f.clauses) : (mirror f found k).values.satisfies c = true := by
  obtain ⟨hreached, hnil⟩ := h.explore hx
  refine Bool.of_not_eq_false fun hopen => ?_
  have hd := (mem_clauses_iff hreached k).mpr ⟨c, hc, hopen, rfl⟩
  rw [hnil] at hd
  exact absurd hd List.not_mem_nil

/-- From every consistent state a search ends.  If it fails, everything but the journal is as it
was.  If it succeeds, the trail has grown and every clause has a true literal.  As for a single
literal, one without a value can be made true and taken back, and then nothing has changed at
all. -/
theorem explore_restores (h : Consistent f s) (depth : Nat) :
    (∃ success s', (∀ room, s.freeEntries ≤ room →
        s.explore room depth = .ok (success, s')) ∧
      Consistent f s' ∧
      (success = false → s' = { s with journal := s'.journal }) ∧
      (success = true → s.trail <:+ s'.trail ∧
        ∀ c ∈ f.clauses, s'.values.satisfies c = true)) ∧
    ∀ l, s.value l.var = .ok none → ∃ s', s.assign l = .ok s' ∧ s'.undo = .ok s := by
  refine ⟨?_, fun l hl => h.undo_assign hl⟩
  obtain ⟨r, hr, hs⟩ := h.exists_mirror
  have hroom : ∀ room, s.freeEntries ≤ room →
      s.explore room depth = .ok (outcome f r (r.explore depth s.journal)) := by
    intro room hfree
    have hfit : r.vars.length ≤ s.freeEntries := by
      rw [hs]
      exact length_vars_le_freeEntries hr
    rw [hs]
    exact explore_mirror hr (Nat.le_trans hfit hfree)
  refine ⟨_, _, hroom, ?_⟩
  cases hx : r.explore depth s.journal with
  | mk result k =>
      cases result with
      | none =>
          refine ⟨consistent_mirror hr k, fun _ => ?_, nofun⟩
          rw [hs]
          exact mirror_eq_with_journal f r s.journal k
      | some found =>
          refine ⟨consistent_mirror (hr.explore hx).1 k, nofun, fun _ => ⟨?_, fun c hc => ?_⟩⟩
          · rw [hs]
            exact suffix_of_found hx
          · exact satisfies_of_found hr hx hc

/-- `(x1 ∨ x3) ∧ (x1 ∨ ¬x3) ∧ (¬x1 ∨ x3) ∧ (¬x1 ∨ ¬x3)`. -/
def crossedFormula : Formula :=
  .ofClauses [.ofLiterals [⟨.x1, true⟩, ⟨.x3, true⟩], .ofLiterals [⟨.x1, true⟩, ⟨.x3, false⟩],
    .ofLiterals [⟨.x1, false⟩, ⟨.x3, true⟩], .ofLiterals [⟨.x1, false⟩, ⟨.x3, false⟩]]

/-- Below a value for the second variable, which does not occur, two branches fail, and only the
journal tells. -/
theorem explore_crossedFormula : ∃ s s', s.trail = [⟨.x2, false⟩] ∧
    Consistent crossedFormula s ∧ s.explore 2 1 = .ok (false, s') ∧
    s' = { s with journal := s'.journal } ∧ s'.journal.stats.conflicts = 2 ∧
    ∃ u, s.assign ⟨.x3, true⟩ = .ok u ∧ u.undo = .ok s := by
  let s := along crossedFormula [⟨.x2, false⟩] {}
  have h : Consistent crossedFormula s := Fits.consistent (Fits.nil.cons (by decide) (by simp)) {}
  obtain ⟨⟨success, s', hroom, -, hfailed, -⟩, hundo⟩ := explore_restores h 1
  have hexplore := hroom 2 (by decide)
  have hends : ((s.explore 2 1).toOption.map fun x => (x.1, x.2.journal.stats.conflicts)) =
      some (false, 2) := by decide +kernel
  rw [hexplore, Except.toOption, Option.map_some, Option.some.injEq, Prod.mk.injEq] at hends
  obtain ⟨rfl, hconflicts⟩ := hends
  exact ⟨s, s', rfl, h, hexplore, hfailed rfl, hconflicts, hundo ⟨.x3, true⟩ rfl⟩

end Search

end Clausal
