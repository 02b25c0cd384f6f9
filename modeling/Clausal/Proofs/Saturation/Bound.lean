import Clausal.Proofs.Saturation.Runs
import Mathlib.Algebra.Group.Nat.Defs

/-!
# How long a saturation takes

A clause that is no tautology holds each variable positively, negatively or not at all.
`properOver` lists the clauses over some variables by these three choices, so over `n` variables
there are `3 ^ n` of them.  The working set holds such clauses only, over the variables of the
clauses it began with, and a round that goes on makes it larger.

The bound on rounds has another reason.  The empty clause is derivable from unsatisfiable clauses
within as many rounds as they have variables (`withinRounds_empty`), and a run does not go past
the level in which it appears, since it never goes to the working set.
-/

namespace Clausal

/-! ## The clauses over some variables -/

namespace Clause

variable {c d : Clause} {l m : Literal} {v : Variable}

/-- The clause without its literals of a variable. -/
def without (c : Clause) (v : Variable) : Clause :=
  ⟨c.literals.filter fun l => l.var != v, c.ascending.filter _⟩

/-- The clause with one more literal. -/
def plus (c : Clause) (l : Literal) : Clause := ofLiterals (l :: c.literals)

/-- A clause as it is and with either literal of a variable. -/
def variants (v : Variable) (c : Clause) : List Clause :=
  [c, c.plus ⟨v, true⟩, c.plus ⟨v, false⟩]

@[simp] theorem mem_without : l ∈ c.without v ↔ l ∈ c ∧ l.var ≠ v := by
  have h : l ∈ c.without v ↔ l ∈ c.literals.filter fun l => l.var != v := Iff.rfl
  rw [h, List.mem_filter, bne_iff_ne]
  exact Iff.rfl

@[simp] theorem mem_plus : m ∈ c.plus l ↔ m = l ∨ m ∈ c := by
  simp [plus, mem_literals]

theorem without_eq_self (h : ∀ l ∈ c, l.var ≠ v) : c.without v = c :=
  ext_mem fun l => by simpa using h l

/-- A literal of a new variable is taken out again. -/
theorem without_plus {p : Bool} (h : ∀ l ∈ c, l.var ≠ v) : (c.plus ⟨v, p⟩).without v = c := by
  refine ext_mem fun l => ?_
  simp only [mem_without, mem_plus]
  constructor
  · intro ⟨hl, hv⟩
    exact hl.resolve_left fun he => hv (he ▸ rfl)
  · intro hl
    exact ⟨.inr hl, h l hl⟩

/-- A clause that holds one literal of a variable is the rest of it with that literal. -/
theorem plus_without {p : Bool} (h : ⟨v, p⟩ ∈ c) (hn : ⟨v, !p⟩ ∉ c) :
    (c.without v).plus ⟨v, p⟩ = c := by
  refine ext_mem fun l => ?_
  simp only [mem_without, mem_plus]
  constructor
  · intro hl
    exact hl.elim (fun he => he ▸ h) And.left
  · intro hl
    by_cases hv : l.var = v
    · rcases Literal.eq_or_eq_neg (m := ⟨v, p⟩) hv with he | he
      · exact .inl he
      · rw [he] at hl
        exact absurd hl hn
    · exact .inr ⟨hl, hv⟩

/-- The clauses that become the same without a variable are its variants with the variable, apart
from tautologies. -/
theorem mem_variants_iff (hd : ∀ l ∈ d, l.var ≠ v) : c ∈ d.variants v ↔
    c.without v = d ∧ ¬ ((⟨v, true⟩ : Literal) ∈ c ∧ (⟨v, false⟩ : Literal) ∈ c) := by
  have hnot : ∀ p, (⟨v, p⟩ : Literal) ∉ d := fun p hm => hd _ hm rfl
  simp only [variants, List.mem_cons, List.not_mem_nil, or_false]
  constructor
  · rintro (rfl | rfl | rfl)
    · exact ⟨without_eq_self hd, fun h => hnot true h.1⟩
    · exact ⟨without_plus hd, by simp [hnot]⟩
    · exact ⟨without_plus hd, by simp [hnot]⟩
  · rintro ⟨rfl, hboth⟩
    by_cases ht : (⟨v, true⟩ : Literal) ∈ c
    · exact .inr (.inl (plus_without ht fun hf => hboth ⟨ht, hf⟩).symm)
    · by_cases hf : (⟨v, false⟩ : Literal) ∈ c
      · exact .inr (.inr (plus_without hf ht).symm)
      · refine .inl (without_eq_self fun l hl hv => ?_).symm
        cases l with
        | mk u p =>
            cases hv
            cases p with
            | true => exact ht hl
            | false => exact hf hl

theorem variants_nodup (h : ∀ l ∈ c, l.var ≠ v) : (c.variants v).Nodup := by
  have hnot : ∀ p, (⟨v, p⟩ : Literal) ∉ c := fun p hm => h _ hm rfl
  have hplus : ∀ p, c ≠ c.plus ⟨v, p⟩ := fun p he => hnot p (he ▸ mem_plus.mpr (.inl rfl))
  have hne : c.plus ⟨v, true⟩ ≠ c.plus ⟨v, false⟩ := fun he => by
    have hm : (⟨v, true⟩ : Literal) ∈ c.plus ⟨v, false⟩ := he ▸ mem_plus.mpr (.inl rfl)
    simp [hnot] at hm
  simp [variants, hplus, hne]

theorem isTautology_eq_false_iff : c.isTautology = false ↔ ∀ l ∈ c, -l ∉ c := by
  rw [Bool.eq_false_iff, ne_eq, isTautology_iff]
  simp

/-- A tautology stays one without a variable, or holds both literals of it. -/
theorem isTautology_without (v : Variable) : c.isTautology = false ↔
    (c.without v).isTautology = false ∧
      ¬ ((⟨v, true⟩ : Literal) ∈ c ∧ (⟨v, false⟩ : Literal) ∈ c) := by
  simp only [isTautology_eq_false_iff, mem_without, not_and, Literal.var_neg]
  constructor
  · intro h
    exact ⟨fun l hl hn => absurd hn (h l hl.1), h _⟩
  · intro ⟨h, hboth⟩ l hl hn
    by_cases hv : l.var = v
    · cases l with
      | mk u p =>
          cases hv
          cases p with
          | true => exact hboth hl hn
          | false => exact hboth hn hl
    · exact h l ⟨hl, hv⟩ hn hv

end Clause

/-- The clauses over some variables that are no tautologies. -/
def properOver : List Variable → List Clause
  | [] => [.empty]
  | v :: vs => (properOver vs).flatMap (Clause.variants v)

variable {vs : List Variable} {c : Clause} {v : Variable}

/-- Each variable makes three times as many clauses. -/
theorem length_properOver (vs : List Variable) : (properOver vs).length = 3 ^ vs.length := by
  induction vs with
  | nil => rfl
  | cons v vs ih =>
      simp [properOver, Clause.variants, List.length_flatMap, List.map_const', ih, Nat.pow_succ]

/-- The list has the clauses over the variables that are no tautologies. -/
theorem mem_properOver (h : vs.Nodup) :
    c ∈ properOver vs ↔ c.isTautology = false ∧ ∀ l ∈ c, l.var ∈ vs := by
  induction vs generalizing c with
  | nil =>
      simp only [properOver, List.mem_singleton, List.not_mem_nil]
      constructor
      · rintro rfl
        exact ⟨rfl, fun _ => Clause.not_mem_empty⟩
      · intro ⟨_, hc⟩
        exact Clause.ext_mem fun l => iff_of_false (hc l) Clause.not_mem_empty
  | cons v vs ih =>
      obtain ⟨hv, hvs⟩ := List.nodup_cons.mp h
      have hother : ∀ {d : Clause}, (∀ l ∈ d, l.var ∈ vs) → ∀ l ∈ d, l.var ≠ v :=
        fun hd l hl he => hv (he ▸ hd l hl)
      have hover : (∀ l ∈ c.without v, l.var ∈ vs) ↔ ∀ l ∈ c, l.var ∈ v :: vs := by
        simp only [Clause.mem_without, List.mem_cons, and_imp,
          Decidable.or_iff_not_imp_left, ne_eq]
      rw [properOver, List.mem_flatMap, Clause.isTautology_without v, ← hover]
      constructor
      · intro ⟨d, hd, hc⟩
        obtain ⟨ht, hdvs⟩ := (ih hvs).mp hd
        obtain ⟨rfl, hboth⟩ := (Clause.mem_variants_iff (hother hdvs)).mp hc
        exact ⟨⟨ht, hboth⟩, hdvs⟩
      · intro ⟨⟨ht, hboth⟩, hdvs⟩
        exact ⟨_, (ih hvs).mpr ⟨ht, hdvs⟩, (Clause.mem_variants_iff (hother hdvs)).mpr ⟨rfl, hboth⟩⟩

theorem properOver_nodup (h : vs.Nodup) : (properOver vs).Nodup := by
  induction vs with
  | nil => simp [properOver]
  | cons v vs ih =>
      obtain ⟨hv, hvs⟩ := List.nodup_cons.mp h
      have hother : ∀ d ∈ properOver vs, ∀ l ∈ d, l.var ≠ v := fun d hd l hl he =>
        hv (he ▸ ((mem_properOver hvs).mp hd).2 l hl)
      refine List.pairwise_flatMap.mpr ⟨fun d hd => ?_, (ih hvs).imp_of_mem fun hd he hne => ?_⟩
      · exact Clause.variants_nodup (hother d hd)
      · intro c hc c' hc' heq
        subst heq
        have h1 := ((Clause.mem_variants_iff (hother _ hd)).mp hc).1
        have h2 := ((Clause.mem_variants_iff (hother _ he)).mp hc').1
        exact hne (h1.symm.trans h2)

namespace Saturation

variable {f : Formula} {s t : Saturation} {w : ClauseSet} {r : Round} {n : Nat}

/-! ## The size of the working set -/

/-- The variables of the clauses that are no tautologies, in ascending order. -/
def properVars (f : Formula) : List Variable :=
  Ascending.ofList ((properClauses f).flatMap fun c => c.literals.map Literal.var)

theorem mem_properVars {v : Variable} : v ∈ properVars f ↔
    ∃ c ∈ f.clauses, c.isTautology = false ∧ ∃ l ∈ c, l.var = v := by
  simp only [properVars, properClauses, Ascending.mem_ofList, List.mem_flatMap, List.mem_eraseDups,
    List.mem_filter, Bool.not_eq_true', List.mem_map, Clause.mem_literals, and_assoc]

theorem properVars_nodup (f : Formula) : (properVars f).Nodup :=
  (Ascending.ofList_ascending _).nodup

/-- Resolution brings in no variable. -/
theorem mem_properVars_of_derivable {c : Clause} (h : Derivable f.clauses c) :
    ∀ l ∈ c, l.var ∈ properVars f := by
  induction h with
  | given hc ht => exact fun l hl => mem_properVars.mpr ⟨_, hc, ht, l, hl, rfl⟩
  | resolvent _ _ hr _ iha ihb =>
      intro l hl
      exact (Clause.mem_of_mem_resolve hr hl).elim (iha l) (ihb l)

/-- Resolution brings in no variable and keeps no tautology. -/
theorem mem_properOver_of_derivable {c : Clause} (h : Derivable f.clauses c) :
    c ∈ properOver (properVars f) :=
  (mem_properOver (properVars_nodup f)).mpr ⟨h.isTautology_eq_false, mem_properVars_of_derivable h⟩

/-- A set of derivable clauses has no more of them than there are over the variables. -/
theorem size_le_of_derivable (h : ∀ c ∈ w.toList, Derivable f.clauses c) :
    w.size ≤ 3 ^ (properVars f).length := by
  rw [← length_properOver, ← ClauseSet.length_toList]
  exact w.toList_nodup.length_le_of_subset fun c hc => mem_properOver_of_derivable (h c hc)

theorem Reached.derivable (h : Reached f n s) : ∀ c ∈ s.working.toList, Derivable f.clauses c :=
  fun c hc => derivable_iff.mpr ⟨n, (h.atLevel c).mp hc⟩

/-- While a round adds what it has found, all clauses are derivable. -/
theorem Reached.derivable_insertAll (h : Reached f n s) (hr : round s.working = .ok r) (k : Nat) :
    ∀ c ∈ (s.working.insertAll (r.fresh.toList.take k)).toList, Derivable f.clauses c := by
  intro c hc
  rcases ClauseSet.mem_insertAll.mp hc with hc | hc
  · exact h.derivable c hc
  · have hlevel : WithinRounds f.clauses (n + 1) c := .inr (h.atLevel.mem_resolvents_iff.mp
      (mem_resolvents_of_fresh hr (List.mem_of_mem_take hc)))
    exact derivable_iff.mpr ⟨n + 1, hlevel⟩

/-! ## The number of rounds -/

/-- A run does not go past the level of the empty clause. -/
theorem Grows.lt_of_withinRounds {m : Nat} (h : Grows n (start f) s) (he : Clause.empty ∉ f.clauses)
    (hm : WithinRounds f.clauses m .empty) : n < m := by
  have hreached := h.reached .start
  rw [Nat.zero_add] at hreached
  refine Nat.lt_of_not_le fun hle => hreached.empty_not_mem he ?_
  exact (hreached.atLevel _).mpr (hm.mono hle)

/-- Unsatisfiable clauses are refuted within as many rounds as they have variables. -/
theorem saturate_of_unsatisfiable (hunsat : ¬ f.Satisfiable) (he : Clause.empty ∉ f.clauses) :
    (start f).saturate.1 = .refuted ∧
      (start f).saturate.2.journal.stats.rounds ≤ (properVars f).length := by
  have hm : WithinRounds f.clauses (properVars f).length .empty :=
    withinRounds_empty (fun c hc ht l hl => mem_properVars.mpr ⟨c, hc, ht, l, hl, rfl⟩) hunsat
  have hflag : ¬ (start f).hasEmptyClause = true := mt hasEmptyClause_iff.mp he
  obtain ⟨n, t, hgrows, _, hrounds⟩ := exists_grows (start f)
  have hlt := hgrows.lt_of_withinRounds he hm
  have hzero : (start f).journal.stats.rounds = 0 := rfl
  constructor
  · rcases saturate_cases f with ⟨ho, _⟩ | ⟨_, hd⟩
    · exact ho
    · exact absurd (derivable_iff.mpr ⟨_, hm⟩) hd
  · rw [saturate, if_neg hflag]
    omega

/-- A run has a last round, which it counts with those before, unless it has no round at all. -/
theorem saturate_ends (s : Saturation) :
    (s.hasEmptyClause = true ∧ s.saturate = (.refuted, s)) ∨
      ∃ m t, Grows m s t ∧ t.step = .ended s.saturate.1 s.saturate.2 ∧
        s.saturate.2.journal.stats.rounds = s.journal.stats.rounds + m + 1 := by
  rw [saturate]
  split
  · next h => exact .inl ⟨h, rfl⟩
  · exact .inr (exists_grows s)

/-- An unsatisfiable formula without the empty clause is refuted within as many rounds as its
clauses that are no tautologies have variables.  Every run on any formula ends.  A round that goes
on makes the working set larger, and this set holds only clauses over those variables that are no
tautologies, also while a round adds to it.  There are `3 ^ n` of them. -/
theorem saturate_bounded (f : Formula) :
    (¬ f.Satisfiable → Clause.empty ∉ f.clauses → (start f).saturate.1 = .refuted ∧
      (start f).saturate.2.journal.stats.rounds ≤ (properVars f).length) ∧
    (∀ n s, Reached f n s →
      ((s.hasEmptyClause = true ∧ s.saturate = (.refuted, s)) ∨
        ∃ m t, Grows m s t ∧ t.step = .ended s.saturate.1 s.saturate.2 ∧
          s.saturate.2.journal.stats.rounds = s.journal.stats.rounds + m + 1) ∧
      (∀ t, s.step = .grown t → s.working.size < t.working.size) ∧
      s.working.toList ⊆ properOver (properVars f) ∧
      s.working.size ≤ 3 ^ (properVars f).length ∧
      ∀ r k, round s.working = .ok r →
        (s.working.insertAll (r.fresh.toList.take k)).size ≤ 3 ^ (properVars f).length) ∧
    (properOver (properVars f)).Nodup ∧
    (properOver (properVars f)).length = 3 ^ (properVars f).length ∧
    ∀ c, c ∈ properOver (properVars f) ↔
      c.isTautology = false ∧ ∀ l ∈ c, l.var ∈ properVars f := by
  refine ⟨saturate_of_unsatisfiable, fun n s h => ⟨saturate_ends s, fun t ht => ?_, ?_, ?_, ?_⟩,
    properOver_nodup (properVars_nodup f), length_properOver _,
    fun c => mem_properOver (properVars_nodup f)⟩
  · obtain ⟨_, _, _, hlt⟩ := exists_new_of_grown ht
    exact hlt
  · exact fun c hc => mem_properOver_of_derivable (h.derivable c hc)
  · exact size_le_of_derivable h.derivable
  · exact fun r k hr => size_le_of_derivable (h.derivable_insertAll hr k)

/-- `(x1 ∨ x2) ∧ (¬x1 ∨ x2) ∧ (¬x2)`: no clause is empty, and no values satisfy all of them. -/
def tightFormula : Formula :=
  .ofClauses [.ofLiterals [⟨.x1, true⟩, ⟨.x2, true⟩], .ofLiterals [⟨.x1, false⟩, ⟨.x2, true⟩],
    .ofLiterals [⟨.x2, false⟩]]

/-- It takes as many rounds as there are variables. -/
theorem saturate_tightFormula : ¬ tightFormula.Satisfiable ∧
    Clause.empty ∉ tightFormula.clauses ∧ (properVars tightFormula).length = 2 ∧
    (start tightFormula).saturate.1 = .refuted ∧
    (start tightFormula).saturate.2.journal.stats.rounds = 2 ∧
    (start tightFormula).saturate.2.journal.stats.rounds ≤ (properVars tightFormula).length ∧
    (start tightFormula).working.size = 3 ∧
    (start tightFormula).working.size ≤ 3 ^ (properVars tightFormula).length := by
  have hunsat : ¬ tightFormula.Satisfiable := by
    intro ⟨w, hw⟩
    simp [Formula.SatisfiedBy, HoldAll, tightFormula, Clause.Holds, Literal.Holds] at hw
    grind
  have he : Clause.empty ∉ tightFormula.clauses := by decide
  obtain ⟨hrefuted, hreached, _⟩ := saturate_bounded tightFormula
  obtain ⟨houtcome, hrounds⟩ := hrefuted hunsat he
  obtain ⟨_, _, _, hsize, _⟩ := hreached 0 _ .start
  exact ⟨hunsat, he, by decide, houtcome, by decide +kernel, hrounds, by decide, hsize⟩

end Saturation

end Clausal
