import Clausal.Proofs.Search.Counters
import Clausal.Proofs.Search.Refinement

/-!
# Propagation

Propagation makes forced literals true until the search is decided or none is forced.  This
says what it does from any consistent state, whether or not a search comes there.

*Runs.*  A `Run` is the forced steps that lead from one state to another, each with the state
that it is taken in.  Consistency is kept by a step and so by a run (`Run.consistent`).  A
propagation is a run of no more steps than there are variables without a value that occur
(`exists_run`), since every step takes one away.

*Extensions.*  A literal is forced by a unit clause when every valuation that satisfies the
formula and extends the values makes it true (`Consistent.holds_of_unit`).  A pure literal need
not be true in all of them, but some of them can be changed to make it true, so in both cases the
values are as extensible as before.  This is seen on simplified formulas, which hold just
where the formula does as far as extensions go (`holdAll_along_iff`).

*The end.*  An undecided search that stops is `Stuck`: there are open clauses, none of them is
down to a single literal, and the variables left in them are left with both polarities.  So there
is one to branch on.
-/

namespace Clausal

open Residual (Reached)

namespace PartialAssignment

/-- How many literals of the clause are over variables without a value. -/
def countFree (p : PartialAssignment) (c : Clause) : Nat :=
  c.literals.countP fun l => (p.value l.var).isNone

/-- The variable has no value, and it occurs in a clause that has no true literal. -/
def Leaves (p : PartialAssignment) (f : Formula) (v : Variable) : Prop :=
  p.value v = none ∧ ∃ c ∈ f.clauses, p.satisfies c = false ∧ ∃ l ∈ c, l.var = v

end PartialAssignment

namespace Search

variable {f : Formula} {s s' u : Search} {r q : Residual} {t : List Literal} {l : Literal}
  {c : Clause} {v : Variable} {w : Valuation} {j k : Journal Event} {status : Status}
  {room : Nat} {step : Forced} {steps : List (Search × Forced)}

/-! ## Consistent states mirror simplified formulas -/

/-- A consistent state mirrors the formula simplified along its trail. -/
theorem Consistent.exists_mirror (h : Consistent f s) :
    ∃ r, Reached f r ∧ s = mirror f r s.journal :=
  ⟨Residual.along f s.trail, ⟨rfl, h.fits⟩, h.eq_along⟩

theorem consistent_mirror (h : Reached f r) (j : Journal Event) : Consistent f (mirror f r j) :=
  h.fits.consistent j

/-! ## Runs -/

/-- The forced steps that lead from one state to another, each with the state before it. -/
inductive Run : Search → List (Search × Forced) → Search → Prop where
  /-- No step. -/
  | done {s : Search} : Run s [] s
  /-- A step from an undecided state, and others after it. -/
  | step {s u s' : Search} {step : Forced} {steps : List (Search × Forced)} :
      s.status = .undecided → s.forced? = .ok (some step) → s.take step = .ok u →
      Run u steps s' → Run s ((s, step) :: steps) s'

/-- A forced step leads from a consistent state to a consistent one. -/
theorem Consistent.take (h : Consistent f s) (hforced : s.forced? = .ok (some step))
    (htake : s.take step = .ok u) : Consistent f u := by
  obtain ⟨r, hr, hs⟩ := h.exists_mirror
  rw [hs] at hforced htake
  rw [forced?_mirror hr, Except.ok.injEq] at hforced
  rw [take_mirror hr hforced, Except.ok.injEq] at htake
  rw [← htake]
  exact consistent_mirror (hr.assign (Residual.mem_vars_of_forced? hforced)) _

/-- Every state that a run passes through is consistent, and so is the one that it ends in. -/
theorem Run.consistent (hrun : Run s steps s') (h : Consistent f s) :
    Consistent f s' ∧ ∀ p ∈ steps, Consistent f p.1 ∧ p.1.forced? = .ok (some p.2) := by
  induction hrun with
  | done => exact ⟨h, fun _ hp => absurd hp List.not_mem_nil⟩
  | step _ hforced htake _ ih =>
      obtain ⟨hend, hsteps⟩ := ih (h.take hforced htake)
      exact ⟨hend, List.forall_mem_cons.mpr ⟨⟨h, hforced⟩, hsteps⟩⟩

/-- The literals that a run makes true, oldest first. -/
def literalsOf (steps : List (Search × Forced)) : List Literal :=
  steps.map fun p => Residual.literal p.2

/-- Propagation is a run, and every step of it takes away a variable that is left. -/
theorem exists_run (h : Reached f r) (hp : r.propagate j = (status, q, k)) :
    ∃ steps, Run (mirror f r j) steps (mirror f q k) ∧
      q.trail = (literalsOf steps).reverse ++ r.trail ∧ steps.length ≤ r.vars.length := by
  fun_induction Residual.propagate r j with
  | case1 => cases hp; exact ⟨[], .done, rfl, Nat.zero_le _⟩
  | case2 => cases hp; exact ⟨[], .done, rfl, Nat.zero_le _⟩
  | case3 => cases hp; exact ⟨[], .done, rfl, Nat.zero_le _⟩
  | case4 r j hstatus step hforced hlt ih =>
      have hreached := h.assign (Residual.mem_vars_of_forced? hforced)
      obtain ⟨steps, hrun, htrail, hlength⟩ := ih hreached hp
      have hforced' : (mirror f r j).forced? = .ok (some step) := by
        rw [forced?_mirror h, hforced]
      refine ⟨_ :: steps, .step ((status_mirror h).trans hstatus) hforced' (take_mirror h hforced)
        hrun, ?_, Nat.le_trans (Nat.succ_le_succ hlength) hlt⟩
      rw [htrail, literalsOf, literalsOf, List.map_cons, List.reverse_cons, List.append_assoc]
      rfl

/-! ## Entries without a value -/

/-- How many entries of the table have no value. -/
def freeEntries (s : Search) : Nat := s.values.values.toList.countP Option.isNone

theorem freeEntries_along : (along f t j).freeEntries =
    ((List.range (tableWidth f.clauses)).filter fun i => (valueAt t i).isNone).length := by
  have hvalues : (along f t j).values.values.toList =
      (List.range (tableWidth f.clauses)).map (valueAt t) := by
    show (Array.ofFn fun i : Fin (tableWidth f.clauses) => valueAt t i).toList = _
    apply List.ext_getElem
    · simp
    · intro i _ _
      simp
  rw [freeEntries, hvalues, List.countP_map, List.countP_eq_length_filter]
  rfl

/-- The variables that are left have entries, and these have no value. -/
theorem length_vars_le_freeEntries (h : Reached f r) :
    r.vars.length ≤ (mirror f r j).freeEntries := by
  have hnodup : (r.vars.map Variable.index).Nodup :=
    List.pairwise_map.mpr ((Ascending.ofList_ascending _).nodup.imp
      fun hne he => hne (Variable.eq_of_index_eq he))
  have hsub : r.vars.map Variable.index ⊆
      (List.range (tableWidth f.clauses)).filter fun i => (valueAt r.trail i).isNone := by
    intro i hi
    obtain ⟨v, hv, rfl⟩ := List.mem_map.mp hi
    obtain ⟨hocc, hnew⟩ := h.new hv
    refine List.mem_filter.mpr ⟨List.mem_range.mpr (index_lt_of_mem_vars hocc), ?_⟩
    rw [valueAt_eq_none_iff.mpr hnew]
    rfl
  rw [mirror, freeEntries_along, ← List.length_map (f := Variable.index)]
  exact hnodup.length_le_of_subset hsub

/-! ## Extensions -/

theorem extends_iff (h : Fits f t) :
    w.Extends (valuesAlong (tableWidth f.clauses) t) ↔ ∀ l ∈ t, l.Holds w := by
  constructor
  · intro hw l hl
    exact hw _ _ ((value_valuesAlong h).mpr hl)
  · intro hw v b hb
    exact hw _ ((value_valuesAlong h).mp hb)

/-- An extension of the values makes the simplified formula hold just if it satisfies the
formula. -/
theorem holdAll_along_iff (h : Fits f t)
    (hw : w.Extends (valuesAlong (tableWidth f.clauses) t)) :
    HoldAll w (Residual.along f t).clauses ↔ f.SatisfiedBy w := by
  have htrue := (extends_iff h).mp hw
  constructor
  · intro hall c hc
    by_cases hopen : c.isOpenUnder t = true
    · obtain ⟨l, hl, hlw⟩ := hall _ (Residual.mem_along.mpr ⟨c, hc, hopen, rfl⟩)
      exact ⟨l, (Clause.mem_remaining.mp hl).1, hlw⟩
    · simp only [Clause.isOpenUnder_iff, Classical.not_forall, Classical.not_not] at hopen
      obtain ⟨l, hl, ht⟩ := hopen
      exact ⟨l, hl, htrue l ht⟩
  · intro hsat d hd
    obtain ⟨c, hc, _, rfl⟩ := Residual.mem_along.mp hd
    obtain ⟨l, hl, hlw⟩ := hsat c hc
    exact ⟨l, Clause.mem_remaining.mpr
      ⟨hl, fun hn => Literal.holds_neg.mp (htrue _ hn) hlw⟩, hlw⟩

/-- The values can be extended to satisfy the formula just if the simplified formula is
satisfiable. -/
theorem extensible_along_iff (h : Fits f t) :
    (valuesAlong (tableWidth f.clauses) t).Extensible f ↔
      (Residual.along f t).Satisfiable := by
  constructor
  · intro ⟨w, hw, hsat⟩
    exact ⟨w, (holdAll_along_iff h hw).mpr hsat⟩
  · intro ⟨w, hall⟩
    have hover := PartialAssignment.overwrite_extends (valuesAlong (tableWidth f.clauses) t) w
    refine ⟨_, hover, (holdAll_along_iff h hover).mp fun d hd => ?_⟩
    obtain ⟨l, hl, hlw⟩ := hall d hd
    refine ⟨l, hl, ?_⟩
    -- The simplified formula does not mention the variables that have values.
    have hnew := (Residual.mem_vars_along (Residual.mem_vars.mpr ⟨d, hd, l, hl, rfl⟩)).2
    have hnone : (valuesAlong (tableWidth f.clauses) t).value l.var = none := by
      refine Option.eq_none_iff_forall_ne_some.mpr fun b hb => ?_
      exact hnew _ ((value_valuesAlong h).mp hb) rfl
    rw [Literal.Holds, PartialAssignment.overwrite_of_none hnone]
    exact hlw

/-- The values can be completed to a model of the formula just if the simplified formula has one. -/
theorem extensible_mirror_iff (h : Reached f r) :
    (mirror f r j).values.Extensible f ↔ r.Satisfiable := by
  rw [h.eq_along]
  exact extensible_along_iff h.fits

/-- The literal of a unit clause is true wherever the formula is satisfied and the values are as
they are. -/
theorem Consistent.holds_of_unit (h : Consistent f s) (hforced : s.forced? = .ok (some (.unit l)))
    (hw : w.Extends s.values) (hsat : f.SatisfiedBy w) : l.Holds w := by
  obtain ⟨r, hr, hs⟩ := h.exists_mirror
  rw [hs] at hforced hw
  rw [forced?_mirror hr, Except.ok.injEq] at hforced
  have hunit : r.unitLiteral? = some l := by
    rw [Residual.forced?] at hforced
    split at hforced
    · next hu => cases hforced; exact hu
    · obtain ⟨_, _, he⟩ := Option.map_eq_some_iff.mp hforced
      cases he
  refine Residual.holds_of_unitLiteral? hunit ?_
  rw [hr.eq_along]
  exact (holdAll_along_iff hr.fits hw).mpr hsat

/-! ## The end -/

/-- An undecided search without a forced step. -/
structure Stuck (f : Formula) (s : Search) : Prop where
  /-- Some clause has no true literal. -/
  exists_open : ∃ c ∈ f.clauses, s.values.satisfies c = false
  /-- Each of these has two literals without a value. -/
  two_le_countFree : ∀ c ∈ f.clauses, s.values.satisfies c = false → 2 ≤ s.values.countFree c
  /-- Each of their variables without a value is in some of them positively and in some
  negatively. -/
  both_polarities : ∀ v, s.values.Leaves f v → ∀ b, ∃ c ∈ f.clauses,
    s.values.satisfies c = false ∧ (⟨v, b⟩ : Literal) ∈ c
  /-- The least of these variables is the one to branch on. -/
  branch : ∃ v, s.branch? = .ok (some v) ∧ s.values.Leaves f v ∧
    ∀ u, s.values.Leaves f u → v.id ≤ u.id

theorem satisfies_along_eq_false_iff (h : Fits f t) :
    (valuesAlong (tableWidth f.clauses) t).satisfies c = false ↔ c.isOpenUnder t = true := by
  rw [h.satisfies_eq, isOpen_tally, Bool.not_eq_false']

theorem value_along_eq_none_iff (h : Fits f t) :
    (valuesAlong (tableWidth f.clauses) t).value v = none ↔ ∀ m ∈ t, m.var ≠ v := by
  rw [Option.eq_none_iff_forall_ne_some]
  constructor
  · rintro hv ⟨u, b⟩ hm rfl
    exact hv b ((value_valuesAlong h).mpr hm)
  · intro hv b hb
    exact hv _ ((value_valuesAlong h).mp hb) rfl

theorem mem_remaining_iff (h : Fits f t) (hopen : c.isOpenUnder t = true) :
    l ∈ c.remaining t ↔ l ∈ c ∧ (valuesAlong (tableWidth f.clauses) t).value l.var = none := by
  rw [Clause.mem_remaining, value_along_eq_none_iff h]
  refine and_congr_right fun hl => ⟨fun hn m hm hv => ?_, fun hnew hn => hnew _ hn rfl⟩
  rcases Literal.eq_or_eq_neg hv with he | he
  · exact Clause.isOpenUnder_iff.mp hopen l hl (he ▸ hm)
  · exact hn (he ▸ hm)

/-- The variables that are left of the simplified formula are those that the values leave. -/
theorem leaves_along_iff (h : Fits f t) :
    (valuesAlong (tableWidth f.clauses) t).Leaves f v ↔ v ∈ (Residual.along f t).vars := by
  rw [PartialAssignment.Leaves, Residual.mem_vars]
  constructor
  · rintro ⟨hv, c, hc, hopen, l, hl, rfl⟩
    rw [satisfies_along_eq_false_iff h] at hopen
    exact ⟨_, Residual.mem_along.mpr ⟨c, hc, hopen, rfl⟩, l,
      (mem_remaining_iff h hopen).mpr ⟨hl, hv⟩, rfl⟩
  · rintro ⟨d, hd, l, hl, rfl⟩
    obtain ⟨c, hc, hopen, rfl⟩ := Residual.mem_along.mp hd
    obtain ⟨hlc, hv⟩ := (mem_remaining_iff h hopen).mp hl
    exact ⟨hv, c, hc, (satisfies_along_eq_false_iff h).mpr hopen, l, hlc, rfl⟩

theorem countFree_along (h : Fits f t) (hopen : c.isOpenUnder t = true) :
    (valuesAlong (tableWidth f.clauses) t).countFree c = (c.remaining t).size := by
  rw [PartialAssignment.countFree, List.countP_eq_length_filter, Clause.size]
  congr 1
  refine List.filter_congr fun l hl => ?_
  rw [Bool.eq_iff_iff, Option.isNone_iff_eq_none, Bool.not_eq_true', decide_eq_false_iff_not]
  have hiff := mem_remaining_iff h hopen (l := l)
  rw [Clause.mem_remaining, and_congr_right_iff] at hiff
  exact (hiff hl).symm

/-- The clauses of the simplified formula are what remains of the open ones. -/
theorem mem_clauses_iff (h : Reached f r) (j : Journal Event) {d : Clause} :
    d ∈ r.clauses ↔ ∃ c ∈ f.clauses,
      (mirror f r j).values.satisfies c = false ∧ c.remaining r.trail = d := by
  rw [h.eq_along, Residual.mem_along]
  exact exists_congr fun c => and_congr_right fun _ =>
    and_congr_left fun _ => (satisfies_along_eq_false_iff h.fits).symm

theorem leaves_mirror_iff (h : Reached f r) :
    (mirror f r j).values.Leaves f v ↔ v ∈ r.vars := by
  rw [h.eq_along]
  exact leaves_along_iff h.fits

theorem countFree_mirror (h : Reached f r) (hopen : (mirror f r j).values.satisfies c = false) :
    (mirror f r j).values.countFree c = (c.remaining r.trail).size :=
  countFree_along h.fits ((satisfies_along_eq_false_iff h.fits).mp hopen)

/-- The least variable that is left is the one to branch on. -/
theorem branch_mirror (h : Reached f r) (hs : r.status = .undecided) :
    ∃ v, (mirror f r j).branch? = .ok (some v) ∧ v ∈ r.vars ∧ ∀ u ∈ r.vars, v.id ≤ u.id := by
  obtain ⟨v, hv⟩ := Residual.exists_branch? hs
  obtain ⟨rest, hrest⟩ := List.head?_eq_some_iff.mp hv
  have hasc : Ascending (v :: rest) := hrest ▸ Ascending.ofList_ascending _
  exact ⟨v, (branch?_mirror h).trans (congrArg _ hv), List.mem_of_mem_head? hv,
    fun u hu => hasc.rank_head_le (hrest ▸ hu)⟩

/-- Where the textbook search is stuck, so is the state that mirrors it. -/
theorem stuck_mirror (h : Reached f r) (hs : r.status = .undecided) (hf : r.forced? = none) :
    Stuck f (mirror f r j) where
  exists_open := by
    obtain ⟨d, hd⟩ := List.exists_mem_of_ne_nil _ (Residual.clauses_ne_nil_of_undecided hs)
    obtain ⟨c, hc, hopen, _⟩ := (mem_clauses_iff h j).mp hd
    exact ⟨c, hc, hopen⟩
  two_le_countFree c hc hopen := by
    have hd := (mem_clauses_iff h j).mpr ⟨c, hc, hopen, rfl⟩
    have hone := Residual.size_ne_one_of_stuck hf hd
    have hzero : (c.remaining r.trail).size ≠ 0 := by
      intro hz
      have he := Clause.eq_of_literals_eq (b := .empty) (List.length_eq_zero_iff.mp hz)
      exact Residual.empty_not_mem_of_undecided hs (he ▸ hd)
    rw [countFree_mirror h hopen]
    omega
  both_polarities v hv b := by
    have hl := Residual.mem_literals_of_stuck hf ((leaves_mirror_iff h).mp hv) b
    obtain ⟨d, hd, hld⟩ := List.mem_flatMap.mp hl
    obtain ⟨c, hc, hopen, rfl⟩ := (mem_clauses_iff h j).mp hd
    exact ⟨c, hc, hopen, (Clause.mem_remaining.mp hld).1⟩
  branch := by
    obtain ⟨v, hbranch, hv, hleast⟩ := branch_mirror (j := j) h hs
    exact ⟨v, hbranch, (leaves_mirror_iff h).mpr hv,
      fun u hu => hleast u ((leaves_mirror_iff h).mp hu)⟩

/-- From every consistent state propagation ends, and it takes no more steps than there are entries
without a value.  It keeps the state consistent and the values as extensible to a valuation that
satisfies the formula as they were, and the literals of unit clauses are true in all of
these.  It says where the search stands, and if it is undecided, the search is stuck. -/
theorem propagate_reaches_fixpoint (h : Consistent f s) : ∃ status s' steps,
    (∀ room, s.freeEntries ≤ room → s.propagate room = .ok (status, s')) ∧
    Run s steps s' ∧
    s'.trail = (literalsOf steps).reverse ++ s.trail ∧
    steps.length ≤ s.freeEntries ∧
    Consistent f s' ∧
    (s.values.Extensible f ↔ s'.values.Extensible f) ∧
    (∀ u l, (u, Forced.unit l) ∈ steps →
      ∀ w : Valuation, w.Extends u.values → f.SatisfiedBy w → l.Holds w) ∧
    (status = .satisfied ↔ ∀ c ∈ f.clauses, s'.values.satisfies c = true) ∧
    (status = .conflict ↔ ∃ c ∈ f.clauses, s'.values.falsifies c = true) ∧
    (status = .undecided → Stuck f s') := by
  obtain ⟨r, hr, hs⟩ := h.exists_mirror
  cases hp : r.propagate s.journal with
  | mk status rest =>
      obtain ⟨q, k⟩ := rest
      have hq := hr.propagate hp
      have hend := consistent_mirror hq k
      have hpropagated := Residual.propagated hp
      have hstatus : (mirror f q k).status = status :=
        (status_mirror hq).trans hpropagated.status_eq
      obtain ⟨steps, hrun, htrail, hlength⟩ := exists_run hr hp
      rw [← hs] at hrun
      have hfree : r.vars.length ≤ s.freeEntries := by
        rw [hs]
        exact length_vars_le_freeEntries hr
      refine ⟨status, mirror f q k, steps, fun room hroom => ?_, hrun, ?_,
        Nat.le_trans hlength hfree, hend, ?_, fun u l hm w hw hsat => ?_, ?_, ?_, ?_⟩
      · rw [hs, propagate_mirror hr (Nat.le_trans hfree hroom), hp]
      · rw [hs]
        exact htrail
      · rw [hs, extensible_mirror_iff hr, extensible_mirror_iff hq]
        exact hpropagated.satisfiable_iff.symm
      · obtain ⟨hu, hforced⟩ := (hrun.consistent h).2 _ hm
        exact hu.holds_of_unit hforced hw hsat
      · rw [← hstatus]
        exact hend.status_satisfied_iff
      · rw [← hstatus]
        exact hend.status_conflict_iff
      · rintro rfl
        exact stuck_mirror hq hpropagated.status_eq (Residual.forced?_of_undecided hp)

/-- `x1 ∧ (x3 ∨ ¬x3)`: the second variable has an entry and does not occur. -/
def gapFormula : Formula :=
  .ofClauses [.ofLiterals [⟨.x1, true⟩], .ofLiterals [⟨.x3, true⟩, ⟨.x3, false⟩]]

/-- With a value for the variable that does not occur, the unit clause forces a literal, and then
the search is stuck at the tautology. -/
theorem propagate_gapFormula : ∃ s s' steps, s.trail = [⟨.x2, true⟩] ∧
    Consistent gapFormula s ∧ s.freeEntries = 2 ∧
    s.propagate 2 = .ok (.undecided, s') ∧ Run s steps s' ∧
    s'.trail = [⟨.x1, true⟩, ⟨.x2, true⟩] ∧ Stuck gapFormula s' := by
  let s := along gapFormula [⟨.x2, true⟩] {}
  have h : Consistent gapFormula s := Fits.consistent (Fits.nil.cons (by decide) (by simp)) {}
  obtain ⟨status, s', steps, hroom, hrun, -, -, -, -, -, -, -, hstuck⟩ :=
    propagate_reaches_fixpoint h
  have hpropagate := hroom 2 (by decide)
  have hends : ((s.propagate 2).toOption.map fun x => (x.1, x.2.trail)) =
      some (.undecided, [⟨.x1, true⟩, ⟨.x2, true⟩]) := by decide +kernel
  rw [hpropagate, Except.toOption, Option.map_some, Option.some.injEq, Prod.mk.injEq] at hends
  obtain ⟨rfl, htrail⟩ := hends
  exact ⟨s, s', steps, rfl, h, by decide, hpropagate, hrun, htrail, hstuck rfl⟩

end Search

end Clausal
