import Clausal.Elimination
import Clausal.Proofs.Saturation.Order

/-!
# Redundant clauses

A clause that has come before says nothing new, and neither does a tautology.  A list of clauses
is `Copied` from another one if copies are put into it, each somewhere behind a clause that it
equals, and it is `Padded` if tautologies are put into it as well, at any places.

Solvers that start from the distinct clauses without the tautologies do not see any of this: they
start in the same state (`Padded.start_saturation`, `Padded.start_elimination`).

A search keeps every copy.  What matters to it is that a copy is never the first clause of
its kind: two lists are `FindAlike` if every test is met first by the same clause, in both or in
none.  Lists with copies are (`Copied.findAlike`), and lists that are stay so when clauses are taken
out by a test and when all clauses are changed alike (`FindAlike.filter`, `FindAlike.map`).
-/

namespace Clausal

variable {cs ds : List Clause}

/-! ## Lists with redundant clauses -/

/-- Copies of clauses are put into the list, each somewhere behind an occurrence. -/
inductive Copied (cs : List Clause) : List Clause → Prop where
  /-- There are none. -/
  | none : Copied cs cs
  /-- One more copy is put in. -/
  | copy {before after : List Clause} {c : Clause} : Copied cs (before ++ after) → c ∈ before →
      Copied cs (before ++ c :: after)

/-- Copies and tautologies are put into the list, the tautologies anywhere. -/
inductive Padded (cs : List Clause) : List Clause → Prop where
  /-- There are none. -/
  | none : Padded cs cs
  /-- One more copy is put in, somewhere behind an occurrence. -/
  | copy {before after : List Clause} {c : Clause} : Padded cs (before ++ after) → c ∈ before →
      Padded cs (before ++ c :: after)
  /-- One more tautology is put in. -/
  | tautology {before after : List Clause} {c : Clause} : Padded cs (before ++ after) →
      c.isTautology = true → Padded cs (before ++ c :: after)

theorem Copied.padded (h : Copied cs ds) : Padded cs ds := by
  induction h with
  | none => exact .none
  | copy _ hc ih => exact ih.copy hc

/-! ## Solvers that keep distinct clauses -/

/-- Clauses that were put in do not show in the set of the proper clauses, nor in its order. -/
theorem Padded.ofList_filter (h : Padded cs ds) :
    ClauseSet.ofList (ds.filter fun c => !c.isTautology) =
      ClauseSet.ofList (cs.filter fun c => !c.isTautology) := by
  induction h with
  | none => rfl
  | @copy before after c _ hc ih =>
      rw [← ih, List.filter_append, List.filter_append, List.filter_cons]
      split
      · next hp => exact ClauseSet.ofList_append_cons_of_mem (List.mem_filter.mpr ⟨hc, hp⟩) _
      · rfl
  | tautology _ ht ih => rw [← ih]; simp [ht]

variable {f g : Formula}

/-- Clauses that were put in leave the clauses that are no tautologies the same. -/
theorem Padded.sameProper (h : Padded f.clauses g.clauses) : Saturation.SameProper g f := by
  intro c hc
  have hmem : c ∈ (ClauseSet.ofList _).toList ↔ c ∈ (ClauseSet.ofList _).toList :=
    iff_of_eq (congrArg (c ∈ ·.toList) h.ofList_filter)
  simpa [hc] using hmem

theorem Padded.start_saturation (h : Padded f.clauses g.clauses) :
    Saturation.start g = Saturation.start f := by
  rw [Saturation.start, Saturation.start, h.ofList_filter, h.sameProper.hasEmptyClause_eq]

theorem Padded.start_elimination (h : Padded f.clauses g.clauses) :
    Elimination.start g = Elimination.start f := by
  rw [Elimination.start, Elimination.start, h.ofList_filter]

/-! ## Lists in which tests find the same -/

/-- Every test is met first by the same clause of both lists, or by none. -/
def FindAlike (cs ds : List Clause) : Prop := ∀ p : Clause → Bool, ds.find? p = cs.find? p

/-- A copy is never the first clause that meets a test. -/
theorem Copied.findAlike (h : Copied cs ds) : FindAlike cs ds := by
  intro p
  induction h with
  | none => rfl
  | @copy before after c _ hc ih =>
      rw [← ih, List.find?_append, List.find?_append]
      cases hfind : before.find? p with
      | some d => rfl
      | none =>
          -- No clause before the copy meets the test, so the copy does not.
          have hp : ¬ p c = true := List.find?_eq_none.mp hfind c hc
          rw [List.find?_cons_of_neg hp]

namespace FindAlike

theorem mem_iff (h : FindAlike cs ds) {c : Clause} : c ∈ ds ↔ c ∈ cs := by
  have hfind := congrArg Option.isSome (h (· == c))
  rw [Bool.eq_iff_iff, List.find?_isSome, List.find?_isSome] at hfind
  simpa using hfind

theorem any_eq (h : FindAlike cs ds) (p : Clause → Bool) : ds.any p = cs.any p := by
  rw [Bool.eq_iff_iff, List.any_eq_true, List.any_eq_true]
  simp only [h.mem_iff]

theorem isEmpty_eq (h : FindAlike cs ds) : ds.isEmpty = cs.isEmpty := by
  rw [Bool.eq_iff_iff, List.isEmpty_iff, List.isEmpty_iff, List.eq_nil_iff_forall_not_mem,
    List.eq_nil_iff_forall_not_mem]
  simp only [h.mem_iff]

/-- Lists in which tests find the same do so when clauses are taken out by a test: the two tests
make one. -/
theorem filter (h : FindAlike cs ds) (p : Clause → Bool) :
    FindAlike (cs.filter p) (ds.filter p) := by
  intro q
  rw [List.find?_filter, List.find?_filter, h]

/-- Lists in which tests find the same do so when the clauses are changed: a test of a changed
clause is a test of the clause. -/
theorem map (h : FindAlike cs ds) (e : Clause → Clause) : FindAlike (cs.map e) (ds.map e) := by
  intro q
  rw [List.find?_map, List.find?_map, h]

end FindAlike

end Clausal
