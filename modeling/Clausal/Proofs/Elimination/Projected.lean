import Clausal.Proofs.ClauseSet
import Clausal.Proofs.Elimination.Satisfiability

/-!
# Elimination is projection

An elimination says of the other variables what the working formula said of them, and no more:
the new working formula holds just where some value of the variable makes the old one hold.  The
rest of `Projects` says which clauses that takes, in which order they stand, when the elimination
is refuted and what it counts.

The solver parts the clauses by their positive literal alone.  The clauses of the second part are
those with the negative literal because no clause of a working formula is a tautology
(`negatives_eq`), and for the same reason a resolvent is a tautology if the two clauses clash on a
second variable, so the counter grows by the pairs that clash once (`length_resolvents`).
-/

namespace Clausal

/-! ## Resolving to the empty clause -/

namespace Clause

variable {a b : Clause} {v : Variable} {p : Bool}

/-- Nothing is left of two clauses that mention the variable only. -/
theorem joinWithout_eq_empty_iff : joinWithout v a b = empty ↔
    (∀ l ∈ a, l.var = v) ∧ ∀ l ∈ b, l.var = v := by
  constructor
  · intro h
    have hnone : ∀ l, ¬((l ∈ a ∨ l ∈ b) ∧ l.var ≠ v) := by
      intro l hl
      exact not_mem_empty (h ▸ mem_joinWithout.mpr hl)
    exact ⟨fun l hl => Classical.byContradiction fun hv => hnone l ⟨.inl hl, hv⟩,
      fun l hl => Classical.byContradiction fun hv => hnone l ⟨.inr hl, hv⟩⟩
  · intro ⟨ha, hb⟩
    refine ext_mem fun l => iff_of_false (fun hl => ?_) not_mem_empty
    obtain ⟨hl, hv⟩ := mem_joinWithout.mp hl
    exact hv (hl.elim (ha l) (hb l))

/-- A clause of one literal. -/
theorem mem_unit {l m : Literal} : m ∈ ofLiterals [l] ↔ m = l := by
  rw [mem_ofLiterals, List.mem_singleton]

/-- A clause that is no tautology and that mentions one variable only is a unit clause. -/
theorem eq_unit_iff (ht : a.isTautology = false) :
    a = ofLiterals [⟨v, p⟩] ↔ (⟨v, p⟩ : Literal) ∈ a ∧ ∀ l ∈ a, l.var = v := by
  constructor
  · rintro rfl
    exact ⟨mem_unit.mpr rfl, fun l hl => by rw [mem_unit.mp hl]⟩
  · intro ⟨hv, hall⟩
    refine ext_mem fun ⟨u, q⟩ => ?_
    rw [mem_unit]
    constructor
    · intro hl
      cases hall _ hl
      by_cases hq : q = p
      · rw [hq]
      · rw [Bool.eq_not.mpr hq] at hl
        exact absurd hl (not_mem_of_mem ht hv)
    · rintro ⟨⟩
      exact hv

end Clause

namespace Elimination

variable {f : Formula} {s : Elimination} {v : Variable}

/-! ## The two parts -/

/-- The clauses of the working formula that hold a literal. -/
def holding (s : Elimination) (l : Literal) : List Clause :=
  s.working.toList.filter fun c => decide (l ∈ c)

theorem mem_holding {l : Literal} {c : Clause} :
    c ∈ s.holding l ↔ c ∈ s.working.toList ∧ l ∈ c := by
  rw [holding, List.mem_filter, decide_eq_true_eq]

theorem positives_eq : s.positives v = s.holding ⟨v, true⟩ := by
  rw [positives, mentioning, List.filter_filter, holding]
  refine List.filter_congr fun c _ => ?_
  cases hv : decide ((⟨v, true⟩ : Literal) ∈ c) with
  | false => rfl
  | true => rw [Clause.mentions, hv]; rfl

/-- The second part are the clauses with the negative literal, since there are no tautologies. -/
theorem negatives_eq (ht : s.NoTautology) : s.negatives v = s.holding ⟨v, false⟩ := by
  rw [negatives, mentioning, List.filter_filter, holding]
  refine List.filter_congr fun c hc => ?_
  rw [Bool.eq_iff_iff, Clause.mentions]
  simp only [Bool.and_eq_true, Bool.or_eq_true, Bool.not_eq_true', decide_eq_true_eq,
    decide_eq_false_iff_not]
  constructor
  · rintro ⟨hn, hv⟩
    exact hv.resolve_left hn
  · intro hv
    exact ⟨Clause.not_mem_of_mem (ht c hc) hv, .inr hv⟩

/-- The pairs of a clause with the positive literal of a variable and one with the negative. -/
def pairsOn (s : Elimination) (v : Variable) : List (Clause × Clause) :=
  (s.holding ⟨v, true⟩).flatMap fun a => (s.holding ⟨v, false⟩).map fun b => (a, b)

/-- Two clauses clash on this variable and on no other. -/
def clashOnceOn (v : Variable) (pair : Clause × Clause) : Bool :=
  decide (pair.1.clashingVariables pair.2 = [v])

/-- Two clauses make a resolvent that is kept just if they clash on the variable and on no other. -/
theorem isSome_resolvent {a b : Clause} (ha : a.isTautology = false) (hb : b.isTautology = false)
    (hav : (⟨v, true⟩ : Literal) ∈ a) (hbv : (⟨v, false⟩ : Literal) ∈ b) :
    ((a.resolve b v).filter fun r => !r.isTautology).isSome = clashOnceOn v (a, b) := by
  have hr : a.resolve b v = some (Clause.joinWithout v a b) :=
    Clause.resolve_eq_some_iff.mpr ⟨Clause.clashesOn_iff.mpr (.inl ⟨hav, hbv⟩), rfl⟩
  rw [clashOnceOn, Bool.eq_iff_iff, decide_eq_true_eq,
    ← Clause.isTautology_resolve_eq_false_iff ha hb hr, hr, Option.isSome_filter]
  simp

/-- An elimination computes as many resolvents as there are pairs that clash once. -/
theorem length_resolvents (ht : s.NoTautology) :
    (resolvents v (s.positives v) (s.negatives v)).length =
      (s.pairsOn v).countP (clashOnceOn v) := by
  rw [positives_eq, negatives_eq ht, resolvents, pairsOn, List.length_flatMap, List.countP_flatMap]
  refine congrArg List.sum (List.map_congr_left fun a ha => ?_)
  rw [Function.comp_apply, List.countP_map, List.length_filterMap_eq_countP]
  refine List.countP_congr fun b hb => ?_
  obtain ⟨ha, hav⟩ := mem_holding.mp ha
  obtain ⟨hb, hbv⟩ := mem_holding.mp hb
  rw [isSome_resolvent (ht a ha) (ht b hb) hav hbv, Function.comp_apply]

/-! ## The new working formula -/

/-- The clauses that stay keep their order, and what the resolvents add comes behind them. -/
theorem working_eliminate_eq : (s.eliminate v).2.working.toList = s.others v ++
    ((resolvents v (s.positives v) (s.negatives v)).filter
      fun c => !decide (c ∈ s.others v)).eraseDups := by
  have hothers : (ClauseSet.ofList (s.others v)).toList = s.others v :=
    ClauseSet.toList_ofList_of_nodup (s.working.toList_nodup.filter _)
  show ((ClauseSet.ofList (s.others v)).insertAll _).toList = _
  rw [ClauseSet.toList_insertAll, hothers]

theorem mem_resolvents_holding {c : Clause} (ht : s.NoTautology) :
    c ∈ resolvents v (s.positives v) (s.negatives v) ↔
      ∃ a ∈ s.working.toList, ∃ b ∈ s.working.toList,
        (⟨v, true⟩ : Literal) ∈ a ∧ (⟨v, false⟩ : Literal) ∈ b ∧
          a.resolve b v = some c ∧ c.isTautology = false := by
  rw [mem_resolvents, positives_eq, negatives_eq ht]
  constructor
  · intro ⟨a, ha, b, hb, hr⟩
    obtain ⟨ha, hav⟩ := mem_holding.mp ha
    obtain ⟨hb, hbv⟩ := mem_holding.mp hb
    exact ⟨a, ha, b, hb, hav, hbv, hr⟩
  · intro ⟨a, ha, b, hb, hav, hbv, hr⟩
    exact ⟨a, mem_holding.mpr ⟨ha, hav⟩, b, mem_holding.mpr ⟨hb, hbv⟩, hr⟩

/-- The empty clause comes up just if both unit clauses of the variable are there. -/
theorem empty_mem_resolvents_iff (ht : s.NoTautology) :
    Clause.empty ∈ resolvents v (s.positives v) (s.negatives v) ↔
      Clause.ofLiterals [⟨v, true⟩] ∈ s.working.toList ∧
        Clause.ofLiterals [⟨v, false⟩] ∈ s.working.toList := by
  rw [mem_resolvents_holding ht]
  constructor
  · intro ⟨a, ha, b, hb, hav, hbv, hr, _⟩
    obtain ⟨_, hjoin⟩ := Clause.resolve_eq_some_iff.mp hr
    obtain ⟨hall, hbll⟩ := Clause.joinWithout_eq_empty_iff.mp hjoin
    rw [← (Clause.eq_unit_iff (ht a ha)).mpr ⟨hav, hall⟩,
      ← (Clause.eq_unit_iff (ht b hb)).mpr ⟨hbv, hbll⟩]
    exact ⟨ha, hb⟩
  · intro ⟨ha, hb⟩
    obtain ⟨hav, hall⟩ := (Clause.eq_unit_iff (ht _ ha)).mp rfl
    obtain ⟨hbv, hbll⟩ := (Clause.eq_unit_iff (ht _ hb)).mp rfl
    refine ⟨_, ha, _, hb, hav, hbv, Clause.resolve_eq_some_iff.mpr ⟨?_, ?_⟩, rfl⟩
    · exact Clause.clashesOn_iff.mpr (.inl ⟨hav, hbv⟩)
    · exact Clause.joinWithout_eq_empty_iff.mpr ⟨hall, hbll⟩

/-- The variable is gone after its elimination. -/
theorem mentions_eliminate {c : Clause} (hc : c ∈ (s.eliminate v).2.working.toList) :
    c.mentions v = false := by
  rw [Bool.eq_false_iff, ne_eq, Clause.mentions_iff]
  intro ⟨l, hl, hlv⟩
  exact (mem_vars_of_eliminate (mem_vars.mpr ⟨c, hc, l, hl, rfl⟩)).2 hlv

/-! ## What an elimination does -/

/-- Eliminating the variable projects the working formula onto the others. -/
structure Projects (s : Elimination) (v : Variable) : Prop where
  /-- The new working formula holds where the old one does for some value of the variable. -/
  holdAll_iff : ∀ w, HoldAll w (s.eliminate v).2.working.toList ↔
    HoldAll (w.set v true) s.working.toList ∨ HoldAll (w.set v false) s.working.toList
  /-- The clauses without the variable stay in their order, and others come behind them. -/
  exists_added : ∃ added, (s.eliminate v).2.working.toList =
    (s.working.toList.filter fun c => !c.mentions v) ++ added
  /-- The clauses are those without the variable and the proper resolvents on it. -/
  mem_iff : ∀ c, c ∈ (s.eliminate v).2.working.toList ↔
    (c ∈ s.working.toList ∧ c.mentions v = false) ∨
      ∃ a ∈ s.working.toList, ∃ b ∈ s.working.toList,
        (⟨v, true⟩ : Literal) ∈ a ∧ (⟨v, false⟩ : Literal) ∈ b ∧
          a.resolve b v = some c ∧ c.isTautology = false
  /-- No clause comes twice. -/
  nodup : (s.eliminate v).2.working.toList.Nodup
  /-- No clause is a tautology. -/
  noTautology : ∀ c ∈ (s.eliminate v).2.working.toList, c.isTautology = false
  /-- No clause mentions the variable. -/
  mentions_eq_false : ∀ c ∈ (s.eliminate v).2.working.toList, c.mentions v = false
  /-- The elimination is refuted by the two unit clauses of the variable only. -/
  refuted_iff : (s.eliminate v).1 = .refuted ↔
    Clause.ofLiterals [⟨v, true⟩] ∈ s.working.toList ∧
      Clause.ofLiterals [⟨v, false⟩] ∈ s.working.toList
  /-- A refuted elimination leaves the empty clause. -/
  empty_mem : (s.eliminate v).1 = .refuted →
    Clause.empty ∈ (s.eliminate v).2.working.toList
  /-- A pair counts if it clashes on this variable only, and the elimination counts once. -/
  stats_eq : (s.eliminate v).2.journal.stats =
    { s.journal.stats with
      resolvents := s.journal.stats.resolvents + (s.pairsOn v).countP (clashOnceOn v)
      eliminations := s.journal.stats.eliminations + 1 }

/-- An elimination from a working formula without tautologies is a projection. -/
theorem NoTautology.projects (ht : s.NoTautology) (v : Variable) : Projects s v where
  holdAll_iff := by
    intro w
    rw [holdAll_eliminate_iff ht]
    constructor
    · rintro ⟨b, hb⟩
      cases b with
      | true => exact .inl hb
      | false => exact .inr hb
    · rintro (h | h)
      · exact ⟨true, h⟩
      · exact ⟨false, h⟩
  exists_added := ⟨_, working_eliminate_eq⟩
  mem_iff := by
    intro c
    rw [mem_working_eliminate, mem_resolvents_holding ht, others, List.mem_filter,
      Bool.not_eq_true']
  nodup := (s.eliminate v).2.working.toList_nodup
  noTautology := ht.eliminate
  mentions_eq_false := fun _ hc => mentions_eliminate hc
  refuted_iff := Elimination.refuted_iff.trans (empty_mem_resolvents_iff ht)
  empty_mem := fun hr => mem_working_eliminate.mpr (.inr (Elimination.refuted_iff.mp hr))
  stats_eq := by
    rw [← length_resolvents ht]
    rfl

/-- Whatever was called before, an elimination projects the working formula onto the other
variables. -/
theorem eliminate_projects (f : Formula) (calls : List Call) (v : Variable) :
    Projects ((start f).callAll calls) v :=
  ((start_faithful f).callAll calls).noTautology.projects v

end Elimination

end Clausal
