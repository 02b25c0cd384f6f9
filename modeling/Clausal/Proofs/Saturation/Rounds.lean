import Clausal.Proofs.Resolvent
import Clausal.Saturation

/-!
# What a round finds

A round is a nest of loops: over the clauses, over the clauses behind each of them, over the
variables on which the two clash.  `attempts` lists what these loops compute, in order, and
a round is one pass over that list (`round_eq_foldlM`).  Either it meets the empty clause,
or it counts all attempts and keeps those that are new (`round_ok`, `round_error`).

The loops leave out a clause with itself and two clauses in the reverse order.  Among
clauses that are no tautologies neither makes a difference, so the attempts are the
resolvents of any two of them (`mem_resolvents_iff`).

Later proofs speak of a round by `step_cases` alone.
-/

namespace Clausal

namespace Saturation

/-! ## The attempts of a round -/

/-- A resolvent that is no tautology, and the two clauses that it comes from. -/
structure Attempt where
  /-- The earlier parent. -/
  first : Clause
  /-- The later parent. -/
  second : Clause
  /-- The resolvent. -/
  clause : Clause

/-- The resolvents of two clauses, as attempts. -/
def attemptsOf (a b : Clause) : List Attempt := (a.derivations b).map fun c => ⟨a, b, c⟩

/-- Everything that a round over some clauses computes unless it ends before, in order. -/
def attempts : List Clause → List Attempt
  | [] => []
  | a :: rest => rest.flatMap (attemptsOf a) ++ attempts rest

/-- The resolvents that a round over some clauses computes unless it ends before. -/
def resolvents (cs : List Clause) : List Clause := (attempts cs).map Attempt.clause

/-- Take in an attempt. -/
def Round.attempt (known : ClauseSet) (r : Round) (x : Attempt) : Except Refutation Round :=
  r.add known x.first x.second x.clause

theorem addPair_eq_foldlM {known : ClauseSet} {a b : Clause} {r : Round} :
    r.addPair known a b = (attemptsOf a b).foldlM (Round.attempt known) r := by
  rw [attemptsOf, List.foldlM_map]
  rfl

/-- The loops over pairs of clauses are one pass over the list of attempts. -/
theorem addPairs_eq_foldlM {known : ClauseSet} : ∀ (cs : List Clause) (r : Round),
    Round.addPairs known cs r = (attempts cs).foldlM (Round.attempt known) r
  | [], r => rfl
  | a :: rest, r => by
      have hrest : ∀ (bs : List Clause) (r : Round), bs.foldlM (Round.addPair known a) r =
          (bs.flatMap (attemptsOf a)).foldlM (Round.attempt known) r := by
        intro bs
        induction bs with
        | nil => exact fun r => rfl
        | cons b bs ih =>
            intro r
            rw [List.foldlM_cons, List.flatMap_cons, List.foldlM_append, addPair_eq_foldlM]
            exact bind_congr fun r => ih r
      rw [Round.addPairs, attempts, List.foldlM_append, hrest]
      exact bind_congr fun r => addPairs_eq_foldlM rest r

theorem round_eq_foldlM (known : ClauseSet) :
    round known = (attempts known.toList).foldlM (Round.attempt known) {} :=
  addPairs_eq_foldlM known.toList {}

/-! ## One pass over attempts -/

/-- The round with some resolvents counted and the new ones kept. -/
def Round.takeAll (known : ClauseSet) (r : Round) (cs : List Clause) : Round where
  resolvents := r.resolvents + cs.length
  fresh := r.fresh.insertAll (cs.filter fun c => !known.contains c)

/-- Attempts that do not meet the empty clause are all counted, and the new ones are kept. -/
theorem foldlM_attempt_ok {known : ClauseSet} : ∀ {xs : List Attempt} {r : Round},
    (∀ x ∈ xs, x.clause ≠ Clause.empty) →
      xs.foldlM (Round.attempt known) r = .ok (r.takeAll known (xs.map Attempt.clause))
  | [], r, _ => rfl
  | x :: xs, r, h => by
      have hx : ¬ x.clause.isEmpty = true := fun he =>
        h x List.mem_cons_self (Clause.isEmpty_iff.mp he)
      have hadd : r.attempt known x = .ok (r.takeAll known [x.clause]) := by
        rw [Round.attempt, Round.add, if_neg hx]
        cases hk : known.contains x.clause with
        | true => simp [Round.takeAll, ClauseSet.insertAll, hk]
        | false => simp [Round.takeAll, ClauseSet.insertAll, hk]
      rw [List.foldlM_cons, hadd]
      show xs.foldlM (Round.attempt known) (r.takeAll known [x.clause]) = _
      rw [foldlM_attempt_ok fun y hy => h y (List.mem_cons_of_mem _ hy)]
      simp only [Round.takeAll, ClauseSet.insertAll, List.map_cons, List.length_cons,
        List.length_nil, List.filter_cons, List.filter_nil, ← List.foldl_append, Except.ok.injEq,
        Round.mk.injEq]
      refine ⟨by omega, ?_⟩
      split <;> rfl

/-- A pass ends at the first attempt that gives the empty clause. -/
theorem foldlM_attempt_error {known : ClauseSet} {xs ys : List Attempt} {x : Attempt} {r : Round}
    (h : ∀ y ∈ xs, y.clause ≠ Clause.empty) (hx : x.clause = Clause.empty) :
    (xs ++ x :: ys).foldlM (Round.attempt known) r =
      .error ⟨x.first, x.second, r.resolvents + xs.length + 1⟩ := by
  rw [List.foldlM_append, foldlM_attempt_ok h]
  show (x :: ys).foldlM (Round.attempt known) _ = _
  rw [List.foldlM_cons, Round.attempt, Round.add, if_pos (Clause.isEmpty_iff.mpr hx)]
  simp only [Round.takeAll, List.length_map]
  rfl

/-- A round without the empty clause counts all attempts and keeps the new ones. -/
theorem round_ok {known : ClauseSet} (h : Clause.empty ∉ resolvents known.toList) :
    round known = .ok (Round.takeAll known {} (resolvents known.toList)) := by
  rw [round_eq_foldlM]
  exact foldlM_attempt_ok fun x hx he => h (List.mem_map.mpr ⟨x, hx, he⟩)

/-- A round among whose attempts is the empty clause ends with it. -/
theorem round_error {known : ClauseSet} (h : Clause.empty ∈ resolvents known.toList) :
    ∃ x, round known = .error x := by
  obtain ⟨x, hx, he⟩ := List.mem_map.mp h
  -- The pass ends at the first of the attempts that give the empty clause.
  have hsome : ((attempts known.toList).find? fun x => x.clause.isEmpty).isSome = true :=
    List.find?_isSome.mpr ⟨x, hx, Clause.isEmpty_iff.mpr he⟩
  obtain ⟨y, hy⟩ := Option.isSome_iff_exists.mp hsome
  obtain ⟨hye, xs, ys, hsplit, hxs⟩ := List.find?_eq_some_iff_append.mp hy
  refine ⟨⟨y.first, y.second, 0 + xs.length + 1⟩, ?_⟩
  rw [round_eq_foldlM, hsplit]
  refine foldlM_attempt_error (fun z hz hze => ?_) (Clause.isEmpty_iff.mp hye)
  have hzf := hxs z hz
  rw [Clause.isEmpty_iff.mpr hze] at hzf
  cases hzf

/-! ## The attempts are the resolvents of any two clauses -/

theorem mem_derivations {a b c : Clause} :
    c ∈ a.derivations b ↔ ∃ v, a.resolve b v = some c ∧ c.isTautology = false := by
  simp only [Clause.derivations, List.mem_filterMap, Option.filter_eq_some_iff, Bool.not_eq_true']
  constructor
  · intro ⟨v, _, hr⟩
    exact ⟨v, hr⟩
  · intro ⟨v, hr, ht⟩
    exact ⟨v, Clause.mem_clashingVariables_iff.mpr (Clause.resolve_eq_some_iff.mp hr).1, hr, ht⟩

/-- Two clauses have the same resolvents in either order, listed alike. -/
theorem derivations_comm {a b : Clause} : a.derivations b = b.derivations a := by
  simp only [Clause.derivations, Clause.clashingVariables_comm (a := a),
    Clause.resolve_comm (a := a)]

theorem resolvents_cons {a : Clause} {rest : List Clause} :
    resolvents (a :: rest) = rest.flatMap a.derivations ++ resolvents rest := by
  simp only [resolvents, attempts, List.map_append, List.map_flatMap, attemptsOf, List.map_map,
    Function.comp_def, List.map_id']

theorem mem_derivations_of_mem_resolvents {c : Clause} : ∀ {cs : List Clause},
    c ∈ resolvents cs → ∃ a ∈ cs, ∃ b ∈ cs, c ∈ a.derivations b
  | [], h => absurd h List.not_mem_nil
  | a :: rest, h => by
      rw [resolvents_cons, List.mem_append] at h
      rcases h with h | h
      · obtain ⟨b, hb, hc⟩ := List.mem_flatMap.mp h
        exact ⟨a, List.mem_cons_self, b, List.mem_cons_of_mem _ hb, hc⟩
      · obtain ⟨b, hb, d, hd, hc⟩ := mem_derivations_of_mem_resolvents h
        exact ⟨b, List.mem_cons_of_mem _ hb, d, List.mem_cons_of_mem _ hd, hc⟩

/-- Two different clauses are paired in one order or the other, and resolve alike in both. -/
theorem mem_resolvents_of_ne {a b c : Clause} (hc : c ∈ a.derivations b) (hne : a ≠ b) :
    ∀ {cs : List Clause}, a ∈ cs → b ∈ cs → c ∈ resolvents cs
  | d :: rest, ha, hb => by
      rw [resolvents_cons, List.mem_append, List.mem_flatMap]
      rcases List.mem_cons.mp ha with had | ha
      · rcases List.mem_cons.mp hb with hbd | hb
        · exact absurd (had.trans hbd.symm) hne
        · exact .inl ⟨b, hb, had ▸ hc⟩
      · rcases List.mem_cons.mp hb with hbd | hb
        · exact .inl ⟨a, ha, hbd ▸ derivations_comm ▸ hc⟩
        · exact .inr (mem_resolvents_of_ne hc hne ha hb)

/-- Among clauses that are no tautologies a round misses no resolvent. -/
theorem mem_resolvents_iff {cs : List Clause} {c : Clause}
    (ht : ∀ a ∈ cs, a.isTautology = false) :
    c ∈ resolvents cs ↔
      ∃ a ∈ cs, ∃ b ∈ cs, ∃ v, a.resolve b v = some c ∧ c.isTautology = false := by
  constructor
  · intro h
    obtain ⟨a, ha, b, hb, hc⟩ := mem_derivations_of_mem_resolvents h
    exact ⟨a, ha, b, hb, mem_derivations.mp hc⟩
  · intro ⟨a, ha, b, hb, v, hr, hc⟩
    refine mem_resolvents_of_ne (mem_derivations.mpr ⟨v, hr, hc⟩) (fun he => ?_) ha hb
    subst he
    rw [Clause.resolve_self (ht a ha)] at hr
    cases hr

/-! ## Where a round leads -/

variable {s t : Saturation}

theorem mem_takeAll {known : ClauseSet} {cs : List Clause} {c : Clause} :
    c ∈ (Round.takeAll known {} cs).fresh.toList ↔ c ∈ cs ∧ c ∉ known.toList := by
  show c ∈ (ClauseSet.empty.insertAll (cs.filter fun c => !known.contains c)).toList ↔ _
  rw [ClauseSet.mem_insertAll, List.mem_filter, Bool.not_eq_true', Bool.eq_false_iff, ne_eq,
    ClauseSet.contains_iff]
  simp

/-- The three ways in which a round goes on, each with what it found. -/
theorem step_cases (s : Saturation) :
    (Clause.empty ∈ resolvents s.working.toList ∧
      ∃ t, s.step = .ended .refuted t ∧ t.working = s.working) ∨
    (Clause.empty ∉ resolvents s.working.toList ∧
      (∀ c ∈ resolvents s.working.toList, c ∈ s.working.toList) ∧
      ∃ t, s.step = .ended .saturated t ∧ t.working = s.working) ∨
    (Clause.empty ∉ resolvents s.working.toList ∧
      ∃ t, s.step = .grown t ∧
        ∀ c, c ∈ t.working.toList ↔
          c ∈ s.working.toList ∨ c ∈ resolvents s.working.toList) := by
  by_cases he : Clause.empty ∈ resolvents s.working.toList
  · obtain ⟨x, hx⟩ := round_error he
    refine .inl ⟨he, ?_⟩
    simp only [step, hx]
    exact ⟨_, rfl, rfl⟩
  · have hr := round_ok he
    cases hf : (Round.takeAll s.working {} (resolvents s.working.toList)).fresh.isEmpty with
    | true =>
        refine .inr (.inl ⟨he, fun c hc => Classical.byContradiction fun hn => ?_, ?_⟩)
        · have hm := mem_takeAll.mpr ⟨hc, hn⟩
          rw [ClauseSet.isEmpty_iff.mp hf] at hm
          exact List.not_mem_nil hm
        · simp only [step, hr, hf, if_true]
          exact ⟨_, rfl, rfl⟩
    | false =>
        refine .inr (.inr ⟨he, ?_⟩)
        simp only [step, hr, hf, Bool.false_eq_true, if_false]
        refine ⟨_, rfl, fun c => ?_⟩
        rw [ClauseSet.mem_insertAll, mem_takeAll]
        by_cases hc : c ∈ s.working.toList
        · simp [hc]
        · simp [hc]

end Saturation

end Clausal
