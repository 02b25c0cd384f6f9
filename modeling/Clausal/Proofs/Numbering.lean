import Clausal.Proofs.Asking
import Clausal.Proofs.Elimination.Renamed
import Clausal.Proofs.Saturation.Renamed
import Clausal.Proofs.Search.Renamed

/-!
# The numbers of variables do not matter

Giving other numbers to the variables of a formula, in the same order, changes nothing but the
numbers: there may be gaps between them, and more variables may be declared.  The renamed formula
is related to the first one by `RenamedBy`, which keeps the order of the variables that occur, so
that its clauses match (`Renamed.rel_clauses`).  All that follows is what the three methods make of
clauses that match.
-/

namespace Clausal

open List (Forall₂)
open Search (Counterpart)

variable {ρ : Variable → Variable} {f g : Formula} {v w : Variable} {l m : Literal} {c d : Clause}
  {cs ds : List Clause}

/-- The literal over the variable of another name. -/
def Literal.rename (ρ : Variable → Variable) (l : Literal) : Literal := ⟨ρ l.var, l.positive⟩

/-- The clause of the renamed literals. -/
def Clause.rename (ρ : Variable → Variable) (c : Clause) : Clause :=
  .ofLiterals (c.literals.map (Literal.rename ρ))

/-- The clauses of the second formula are those of the first one, renamed.  The new names of the
variables that occur are in the order of the old ones.  The declared ranges are free. -/
structure Renamed (ρ : Variable → Variable) (f g : Formula) : Prop where
  increasing : ∀ v ∈ f.vars, ∀ w ∈ f.vars, v.id < w.id → (ρ v).id < (ρ w).id
  clauses_eq : g.clauses = f.clauses.map (Clause.rename ρ)

/-- The second variable is the new name of the first one, which occurs in the formula. -/
def RenamedBy (ρ : Variable → Variable) (f : Formula) (v w : Variable) : Prop :=
  v ∈ f.vars ∧ w = ρ v

/-! ## Matching is renaming -/

/-- Names that are given in order keep the order of the variables that occur, in both directions. -/
theorem Renamed.keepsRank (h : Renamed ρ f g) : KeepsRank (RenamedBy ρ f) := by
  rintro v _ ⟨hv, rfl⟩ w _ ⟨hw, rfl⟩
  refine ⟨h.increasing v hv w hw, fun hlt => ?_⟩
  simp only [Variable.rank_eq] at hlt ⊢
  rcases Nat.lt_trichotomy v.id w.id with hvw | hvw | hvw
  · exact hvw
  · rw [Variable.eq_of_id_eq hvw] at hlt
    exact absurd hlt (Nat.lt_irrefl _)
  · exact absurd hlt (Nat.lt_asymm (h.increasing w hw v hv hvw))

theorem Literal.Matches.eq_rename (h : l.Matches (RenamedBy ρ f) m) : m = l.rename ρ := by
  obtain ⟨⟨_, hvar⟩, hpositive⟩ := h
  cases m
  cases hvar
  cases hpositive
  rfl

/-- What matches a clause is the clause with the new names. -/
theorem Clause.Matches.eq_rename (h : c.Matches (RenamedBy ρ f) d) : d = c.rename ρ := by
  have hliterals : d.literals.map id = c.literals.map (Literal.rename ρ) :=
    map_eq_of_rel (fun _ _ hl => hl.eq_rename) h
  rw [Clause.rename, ← hliterals, List.map_id, Clause.ofLiterals_literals]

theorem eq_map_rename (h : Forall₂ (Clause.Matches (RenamedBy ρ f)) cs ds) :
    ds = cs.map (Clause.rename ρ) := by
  rw [← map_eq_of_rel (fun _ _ hc => hc.eq_rename) h, List.map_id']

/-- A clause of the formula matches itself with the new names. -/
theorem Renamed.matches_rename (h : Renamed ρ f g) (hc : c ∈ f.clauses) :
    c.Matches (RenamedBy ρ f) (c.rename ρ) := by
  have hliterals : Forall₂ (Literal.Matches (RenamedBy ρ f)) c.literals
      (c.literals.map (Literal.rename ρ)) := by
    rw [List.forall₂_map_right_iff, List.forall₂_same]
    intro l hl
    exact ⟨⟨Formula.mem_vars.mpr ⟨c, hc, l, hl, rfl⟩, rfl⟩, rfl⟩
  have hmatch := Clause.matches_ofLiterals h.keepsRank hliterals
  rwa [Clause.ofLiterals_literals] at hmatch

/-- The clauses of the two formulas match one by one. -/
theorem Renamed.rel_clauses (h : Renamed ρ f g) :
    Forall₂ (Clause.Matches (RenamedBy ρ f)) f.clauses g.clauses := by
  rw [h.clauses_eq, List.forall₂_map_right_iff, List.forall₂_same]
  exact fun c hc => h.matches_rename hc

/-! ## The three methods -/

/-- Saturation gives the same answers for both formulas.  After any number of calls its counters are
the same, and its working set for the second formula is the renamed one, in the same order. -/
def RenamedSaturations (ρ : Variable → Variable) (f g : Formula) : Prop := ∀ n,
  let x := askTimes (m := Id) Saturation.solve n (Saturation.start f)
  let y := askTimes (m := Id) Saturation.solve n (Saturation.start g)
  y.1 = x.1 ∧ y.2.journal.stats = x.2.journal.stats ∧
    y.2.working.toList = x.2.working.toList.map (Clause.rename ρ)

/-- Elimination gives the same answers for both formulas.  After any number of calls its counters
are the same, and its working formula for the second one is the renamed one, in the same order. -/
def RenamedEliminations (ρ : Variable → Variable) (f g : Formula) : Prop := ∀ n,
  let x := askTimes (m := Id) Elimination.solve n (Elimination.start f)
  let y := askTimes (m := Id) Elimination.solve n (Elimination.start g)
  y.1 = x.1 ∧ y.2.journal.stats = x.2.journal.stats ∧
    y.2.working.toList = x.2.working.toList.map (Clause.rename ρ)

/-- Search gives the same verdicts for both formulas.  In the models for the second one every new
name has the value of the old one, and no other variable has a value.  The counters are the same
after any number of calls. -/
def RenamedSearches (ρ : Variable → Variable) (f g : Formula) : Prop := ∀ n, ∃ as s bs t,
  askTimes Search.solve n (Search.start f) = .ok (as, s) ∧
  askTimes Search.solve n (Search.start g) = .ok (bs, t) ∧
  Forall₂ (Counterpart (RenamedBy ρ f)) as bs ∧ t.journal.stats = s.journal.stats

theorem Renamed.saturations (h : Renamed ρ f g) : RenamedSaturations ρ f g := by
  intro n
  obtain ⟨hanswers, hmatch⟩ := rel_askTimes (fun _ _ hs => hs.solve h.keepsRank) n
    (Saturation.matches_start h.keepsRank h.rel_clauses)
  exact ⟨hanswers, hmatch.stats_eq, eq_map_rename hmatch.working⟩

theorem Renamed.eliminations (h : Renamed ρ f g) : RenamedEliminations ρ f g := by
  intro n
  obtain ⟨hanswers, hmatch⟩ := rel_askTimes (fun _ _ hs => hs.solve h.keepsRank) n
    (Elimination.matches_start h.keepsRank h.rel_clauses)
  exact ⟨hanswers, hmatch.stats_eq, eq_map_rename hmatch.working⟩

theorem Renamed.searches (h : Renamed ρ f g) : RenamedSearches ρ f g := by
  intro n
  obtain ⟨as, s, bs, t, hs, ht, hanswers, hmatch⟩ := rel_askTimes_ok
    (fun _ _ hs => hs.solve h.keepsRank) n (Search.Counterparts.start h.rel_clauses)
  exact ⟨as, s, bs, t, hs, ht, hanswers, hmatch.stats_eq⟩

/-- No method tells a formula from one with other names for its variables in the same order, and
with any declared range, however often it is asked. -/
theorem renamed_variables (h : Renamed ρ f g) :
    RenamedSaturations ρ f g ∧ RenamedEliminations ρ f g ∧ RenamedSearches ρ f g :=
  ⟨h.saturations, h.eliminations, h.searches⟩

/-- `(x1 ∨ x2) ∧ (¬x1 ∨ x2)`. -/
def narrowFormula : Formula :=
  .ofClauses [.ofLiterals [⟨.x1, true⟩, ⟨.x2, true⟩], .ofLiterals [⟨.x1, false⟩, ⟨.x2, true⟩]]

/-- `(x1 ∨ x3) ∧ (¬x1 ∨ x3)` over five variables. -/
def spreadFormula : Formula :=
  (Formula.empty 5 (by decide)).addAll
    [.ofLiterals [⟨.x1, true⟩, ⟨.x3, true⟩], .ofLiterals [⟨.x1, false⟩, ⟨.x3, true⟩]]

/-- The first variable keeps its name, and all others are called `x3`. -/
def spread (v : Variable) : Variable := if v = .x1 then .x1 else .x3

theorem renamed_spreadFormula : Renamed spread narrowFormula spreadFormula where
  increasing := by decide
  clauses_eq := by decide

/-- A search of the second formula finds the value of `x3` that it finds for `x2` in the first one,
and none for `x2`.  Saturation finds the clause `x3`, and elimination takes two variables away. -/
theorem renamed_variables_spread : Renamed spread narrowFormula spreadFormula ∧
    (∃ answers s, askTimes Search.solve 1 (Search.start spreadFormula) = .ok (answers, s) ∧
      s.journal.stats.pureLiterals = 1 ∧ ∃ m, answers = [.sat (some m)] ∧
        m.value .x3 = some true ∧ m.value .x2 = none) ∧
    (askTimes (m := Id) Saturation.solve 1
      (Saturation.start spreadFormula)).2.working.toList.map Clause.text =
        ["(x1 ∨ x3)", "(¬x1 ∨ x3)", "(x3)"] ∧
    (askTimes (m := Id) Elimination.solve 1
      (Elimination.start spreadFormula)).2.journal.stats.eliminations = 2 := by
  have hrenamed := renamed_spreadFormula
  obtain ⟨hsaturation, helimination, hsearch⟩ := renamed_variables hrenamed
  obtain ⟨as, s, bs, t, hs, ht, hanswers, hstats⟩ := hsearch 1
  have hrun : (askTimes Search.solve 1 (Search.start narrowFormula)).toOption.map
      (fun x => (x.1.map fun a => a.model?.map fun m => m.value .x2,
        x.2.journal.stats.pureLiterals)) = some ([some (some true)], 1) := by decide +kernel
  rw [hs] at hrun
  obtain ⟨hvalues, hpure⟩ := Prod.mk.inj (Option.some.inj hrun)
  obtain ⟨a, rfl, ha⟩ := List.map_eq_singleton_iff.mp hvalues
  have hfresh : ∀ v, ¬ RenamedBy spread narrowFormula v .x2 := by
    intro v ⟨_, hv⟩
    rw [spread] at hv
    split at hv <;> cases hv
  cases hanswers with
  | cons hab hnil =>
      cases hnil
      cases hab with
      | unsat => cases ha
      | @sat m n hmn =>
          have hvalue : m.value .x2 = some true := Option.some.inj ha
          refine ⟨hrenamed, ⟨_, t, ht, hstats ▸ hpure, n, rfl, ?_, ?_⟩, ?_, ?_⟩
          · exact (hmn.value_eq ⟨by decide, by decide⟩).trans hvalue
          · exact hmn.value_eq_none hfresh
          · rw [(hsaturation 1).2.2]
            decide +kernel
          · rw [(helimination 1).2.1]
            decide +kernel

end Clausal
