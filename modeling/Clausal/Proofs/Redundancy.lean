import Clausal.Proofs.Asking
import Clausal.Proofs.Search.Twins

/-!
# Redundant clauses do not change a run

For saturation and for elimination redundant clauses are gone before the first call.  For a search
they are not, and every call is followed on both formulas: the searches are twins, before it and
after it.
-/

namespace Clausal

open Search (Twins)

variable {f g : Formula}

/-- Saturation gives the same answers for both formulas, with the same working set, counters and
events after any number of calls. -/
def SameSaturations (f g : Formula) : Prop := ∀ n,
  askTimes (m := Id) Saturation.solve n (Saturation.start g) =
    askTimes (m := Id) Saturation.solve n (Saturation.start f)

/-- Elimination gives the same answers for both formulas, with the same working formula, counters
and events after any number of calls. -/
def SameEliminations (f g : Formula) : Prop := ∀ n,
  askTimes (m := Id) Elimination.solve n (Elimination.start g) =
    askTimes (m := Id) Elimination.solve n (Elimination.start f)

/-- Search gives the same verdicts for both formulas, with the same value of every variable in the
models, and has the same counters and events after any number of calls. -/
def SameSearches (f g : Formula) : Prop := ∀ n, ∃ as s bs t,
  askTimes Search.solve n (Search.start f) = .ok (as, s) ∧
  askTimes Search.solve n (Search.start g) = .ok (bs, t) ∧
  bs.map Solution.verdict = as.map Solution.verdict ∧
  (bs.map fun b => b.model?.map Model.value) = (as.map fun a => a.model?.map Model.value) ∧
  t.journal = s.journal

theorem Padded.sameSaturations (h : Padded f.clauses g.clauses) : SameSaturations f g := by
  intro n
  rw [h.start_saturation]

theorem Padded.sameEliminations (h : Padded f.clauses g.clauses) : SameEliminations f g := by
  intro n
  rw [h.start_elimination]

theorem Copied.sameSearches (h : Copied f.clauses g.clauses) : SameSearches f g := by
  intro n
  obtain ⟨as, s, bs, t, hs, ht, hsame, htwins⟩ :=
    rel_askTimes_ok (fun _ _ h => h.solve) n (Twins.start h.findAlike)
  refine ⟨as, s, bs, t, hs, ht, ?_, ?_, htwins.journal_eq⟩
  · exact map_eq_of_rel (fun _ _ h => h.1) hsame
  · exact map_eq_of_rel (fun _ _ h => h.2) hsame

/-- No method tells a formula with further copies of its clauses from the formula itself, however
often it is asked.  Saturation and elimination do not tell one with tautologies from it either. -/
theorem redundant_clauses (f g : Formula) :
    (Copied f.clauses g.clauses →
      SameSaturations f g ∧ SameEliminations f g ∧ SameSearches f g) ∧
    (Padded f.clauses g.clauses → SameSaturations f g ∧ SameEliminations f g) :=
  ⟨fun h => ⟨h.padded.sameSaturations, h.padded.sameEliminations, h.sameSearches⟩,
    fun h => ⟨h.sameSaturations, h.sameEliminations⟩⟩

/-- `(x1 ∨ x2) ∧ (¬x1 ∨ ¬x2)`. -/
def choiceFormula : Formula :=
  .ofClauses [.ofLiterals [⟨.x1, true⟩, ⟨.x2, true⟩], .ofLiterals [⟨.x1, false⟩, ⟨.x2, false⟩]]

/-- `(x1 ∨ x2) ∧ (¬x1 ∨ ¬x2) ∧ (x1 ∨ x2)`. -/
def copiedFormula : Formula :=
  .ofClauses [.ofLiterals [⟨.x1, true⟩, ⟨.x2, true⟩], .ofLiterals [⟨.x1, false⟩, ⟨.x2, false⟩],
    .ofLiterals [⟨.x1, true⟩, ⟨.x2, true⟩]]

/-- `(x3 ∨ ¬x3) ∧ (x1 ∨ x2) ∧ (¬x1 ∨ ¬x2) ∧ (x1 ∨ x2)`. -/
def paddedFormula : Formula :=
  .ofClauses [.ofLiterals [⟨.x3, true⟩, ⟨.x3, false⟩], .ofLiterals [⟨.x1, true⟩, ⟨.x2, true⟩],
    .ofLiterals [⟨.x1, false⟩, ⟨.x2, false⟩], .ofLiterals [⟨.x1, true⟩, ⟨.x2, true⟩]]

theorem copied_choiceFormula : Copied choiceFormula.clauses copiedFormula.clauses := by
  have hnone : Copied choiceFormula.clauses (choiceFormula.clauses ++ []) := .none
  exact hnone.copy List.mem_cons_self

theorem padded_choiceFormula : Padded choiceFormula.clauses paddedFormula.clauses := by
  have hcopied : Padded choiceFormula.clauses ([] ++ copiedFormula.clauses) :=
    copied_choiceFormula.padded
  exact hcopied.tautology rfl

/-- Asked twice, a search of the formula with a copy decides once, and saturation and elimination
of the formula with a copy and a tautology count what the formula without them takes. -/
theorem redundant_choiceFormula :
    Copied choiceFormula.clauses copiedFormula.clauses ∧
    Padded choiceFormula.clauses paddedFormula.clauses ∧
    (∃ answers s, askTimes Search.solve 2 (Search.start copiedFormula) = .ok (answers, s) ∧
      answers.map Solution.verdict = [.sat, .sat] ∧ s.journal.stats.decisions = 1) ∧
    (askTimes (m := Id) Saturation.solve 2
      (Saturation.start paddedFormula)).2.journal.stats.rounds = 2 ∧
    (askTimes (m := Id) Elimination.solve 2
      (Elimination.start paddedFormula)).2.journal.stats.eliminations = 1 := by
  obtain ⟨_, _, hsearch⟩ := (redundant_clauses _ _).1 copied_choiceFormula
  obtain ⟨hsaturation, helimination⟩ := (redundant_clauses _ _).2 padded_choiceFormula
  obtain ⟨as, s, bs, t, hs, ht, hverdicts, _, hjournal⟩ := hsearch 2
  have hrun : (askTimes Search.solve 2 (Search.start choiceFormula)).toOption.map
      (fun x => (x.1.map Solution.verdict, x.2.journal.stats.decisions)) =
      some ([.sat, .sat], 1) := by decide +kernel
  rw [hs] at hrun
  obtain ⟨hsat, hdecisions⟩ := Prod.mk.inj (Option.some.inj hrun)
  refine ⟨copied_choiceFormula, padded_choiceFormula,
    ⟨bs, t, ht, hverdicts.trans hsat, hjournal ▸ hdecisions⟩, ?_, ?_⟩
  · rw [hsaturation 2]
    decide +kernel
  · rw [helimination 2]
    decide +kernel

end Clausal
