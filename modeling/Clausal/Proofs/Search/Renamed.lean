import Clausal.Proofs.Search.Simulation

/-!
# Search over other variables

The tables of a search have an entry for every number up to that of the greatest variable, so they
differ for formulas over other variables, and in more than their length: numbers that no clause
mentions have entries too.  None of this is left in the simplified formula that a state mirrors.
Simplified formulas that match call for steps that match (`simulation_matches`), so searches of two
formulas go the same way as long as they mirror such a pair (`Counterparts.solve`).
-/

namespace Clausal

open List (Forall₂)
open Search (Forced Event)

variable {R : Variable → Variable → Prop} {f g : Formula} {r q : Residual} {c d : Clause}
  {l m : Literal}

theorem Clause.Matches.erase (hc : c.Matches R d) (h : KeepsRank R) (hl : l.Matches R m) :
    (c.erase l).Matches R (d.erase m) :=
  rel_filter_of_eq (fun x y hx => by
    rw [Bool.eq_iff_iff, bne_iff_ne, bne_iff_ne, ne_eq, ne_eq, h.literal.eq_iff hx hl]) hc

namespace Residual

/-- The clauses that are left match, and so do the literals that were made true. -/
structure Matches (R : Variable → Variable → Prop) (r q : Residual) : Prop where
  clauses : Forall₂ (Clause.Matches R) r.clauses q.clauses
  trail : Forall₂ (Literal.Matches R) r.trail q.trail

/-- Whether a literal over a variable is pure does not depend on its number. -/
theorem rel_pureOver? (h : KeepsRank R) {ls ms : List Literal}
    (hs : Forall₂ (Literal.Matches R) ls ms) {v w : Variable} (hv : R v w) :
    Option.Rel (Literal.Matches R) (pureOver? ls v) (pureOver? ms w) := by
  have hmem (p : Bool) : (⟨v, p⟩ : Literal) ∈ ls ↔ (⟨w, p⟩ : Literal) ∈ ms :=
    List.rel_mem h.literal.biUnique (Literal.matches_mk hv p) hs
  simp only [pureOver?, hmem]
  split
  · exact .some (Literal.matches_mk hv true)
  · exact .some (Literal.matches_mk hv false)
  · exact .none

namespace Matches

theorem start (hc : Forall₂ (Clause.Matches R) f.clauses g.clauses) :
    (start f).Matches R (start g) := ⟨hc, .nil⟩

theorem status_eq (hr : r.Matches R q) : q.status = r.status := by
  rw [status, status, rel_any (fun _ _ hc => hc.isEmpty_eq) hr.clauses, rel_isEmpty hr.clauses]

theorem literals (hr : r.Matches R q) : Forall₂ (Literal.Matches R) r.literals q.literals :=
  List.rel_flatMap hr.clauses fun _ _ hc => hc

theorem vars (hr : r.Matches R q) (h : KeepsRank R) : Forall₂ R r.vars q.vars :=
  h.ofList (List.rel_map (fun _ _ hl => hl.1) hr.literals)

theorem unitLiteral? (hr : r.Matches R q) :
    Option.Rel (Literal.Matches R) r.unitLiteral? q.unitLiteral? :=
  rel_option_bind (R := Clause.Matches R) (fun _ _ hc => rel_head? hc)
    (rel_find? (fun _ _ hc => by rw [hc.size_eq]) hr.clauses)

theorem pureLiteral? (hr : r.Matches R q) (h : KeepsRank R) :
    Option.Rel (Literal.Matches R) r.pureLiteral? q.pureLiteral? :=
  rel_findSome? (fun _ _ hv => rel_pureOver? h hr.literals hv) (hr.vars h)

/-- Formulas that match force steps that match. -/
theorem forced? (hr : r.Matches R q) (h : KeepsRank R) :
    Option.Rel (Forced.Matches R) r.forced? q.forced? := by
  have hunit := hr.unitLiteral?
  rw [Residual.forced?, Residual.forced?]
  generalize r.unitLiteral? = x, q.unitLiteral? = y at hunit
  cases hunit with
  | some hl => exact .some (.unit hl)
  | none => exact rel_option_map (fun _ _ hl => .pure hl) (hr.pureLiteral? h)

/-- Formulas that match branch on variables that match, since the least one is taken in both. -/
theorem branch? (hr : r.Matches R q) (h : KeepsRank R) : Option.Rel R r.branch? q.branch? :=
  rel_head? (hr.vars h)

/-- Formulas that match do so after literals that match were made true. -/
theorem assign (hr : r.Matches R q) (h : KeepsRank R) (hl : l.Matches R m) :
    (r.assign l).Matches R (q.assign m) where
  clauses := List.rel_map (fun _ _ hc => hc.erase h hl.neg)
    (rel_filter_of_eq (fun _ _ hc => by simp only [hc.mem_iff h hl]) hr.clauses)
  trail := .cons hl hr.trail

end Matches

/-- Formulas that match call for steps that match, and these count alike. -/
theorem simulation_matches (h : KeepsRank R) :
    Simulation (Matches R) R (fun j i => i.stats = j.stats) where
  status_eq hr := hr.status_eq
  forced hr := hr.forced? h
  branch hr := hr.branch? h
  assign hr hl := hr.assign h hl
  noteForced hj hx := by
    cases hx with
    | unit => simp only [noteForced, hj]
    | pure => simp only [noteForced, hj]
  noteDecision hj _ := by simp only [noteDecision, hj]
  noteConflict hj := by simp only [noteConflict, hj]

end Residual

namespace Search

open Residual (Reached)

/-- Searches that mirror simplified formulas which match, and that have counted alike. -/
inductive Counterparts (R : Variable → Variable → Prop) (f g : Formula) :
    Search → Search → Prop where
  | mirror {r q : Residual} {j i : Journal Event} : Reached f r → Reached g q → r.Matches R q →
      i.stats = j.stats → Counterparts R f g (mirror f r j) (mirror g q i)

/-- Corresponding variables have the same value, and those that correspond to none have no value. -/
structure SameValues (R : Variable → Variable → Prop) (m n : Model) : Prop where
  value_eq : ∀ {v w}, R v w → n.value w = m.value v
  value_eq_none : ∀ {w}, (∀ v, ¬ R v w) → n.value w = none

/-- Models of trails that match give the same values to variables that match. -/
theorem sameValues (h : KeepsRank R) {m n : Model} {ls ms : List Literal}
    (hs : Forall₂ (Literal.Matches R) ls ms)
    (hm : ∀ v b, m.value v = some b ↔ (⟨v, b⟩ : Literal) ∈ ls)
    (hn : ∀ v b, n.value v = some b ↔ (⟨v, b⟩ : Literal) ∈ ms) : SameValues R m n where
  value_eq := by
    intro v w hv
    apply Option.ext
    intro b
    rw [hm, hn]
    exact (List.rel_mem h.literal.biUnique (Literal.matches_mk hv b) hs).symm
  value_eq_none := by
    intro w hw
    rw [Option.eq_none_iff_forall_ne_some]
    intro b hb
    obtain ⟨l, _, hl⟩ := exists_rel_of_mem hs ((hn w b).mp hb)
    exact hw l.var hl.1

/-- The same verdict, with models that give corresponding variables the same values. -/
inductive Counterpart (R : Variable → Variable → Prop) : Solution → Solution → Prop where
  | sat {m n : Model} : SameValues R m n → Counterpart R (.sat (some m)) (.sat (some n))
  | unsat : Counterpart R .unsat .unsat

variable {s t : Search}

theorem Counterparts.start (hc : Forall₂ (Clause.Matches R) f.clauses g.clauses) :
    Counterparts R f g (start f) (start g) := by
  rw [mirror_start, mirror_start]
  exact .mirror (Residual.reached_start f) (Residual.reached_start g) (.start hc) rfl

theorem Counterparts.stats_eq (hs : Counterparts R f g s t) :
    t.journal.stats = s.journal.stats := by
  cases hs with
  | mirror _ _ _ hstats => exact hstats

/-- Counterparts meet no fault, answer the same and are counterparts again. -/
theorem Counterparts.solve (hs : Counterparts R f g s t) (h : KeepsRank R) :
    ∃ a s' b t', s.solve = .ok (a, s') ∧ t.solve = .ok (b, t') ∧ Counterpart R a b ∧
      Counterparts R f g s' t' := by
  cases hs with
  | @mirror r q j i hr hq hrq hstats =>
      obtain ⟨x, y, hx, hy, hsolved⟩ :=
        solve_simulation (Residual.simulation_matches h) hr hq hrq hstats
      cases hsolved with
      | unsat _ _ hk => exact ⟨_, _, _, _, hx, hy, .unsat, .mirror hr hq hrq hk⟩
      | sat _ _ _ _ _ _ hfound hother hrel hk hvalue hvalue' =>
          exact ⟨_, _, _, _, hx, hy, .sat (sameValues h hrel.trail hvalue hvalue'),
            .mirror hfound hother hrel hk⟩

end Search

end Clausal
