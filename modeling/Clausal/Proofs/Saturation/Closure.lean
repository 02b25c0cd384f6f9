import Clausal.Proofs.Projection
import Clausal.Proofs.Saturation.Rounds

/-!
# Saturation computes the closure

The working set after some rounds is a level of the closure under resolution (`AtLevel`),
and a round leads from one level to the next.  Rounds that end without the empty clause have
found the whole closure, and rounds that are refuted have derived the empty clause
(`AtLevel.rounds_cases`).

Resolution is complete: `withinRounds_empty` derives the empty clause from unsatisfiable
clauses, and within as many rounds as they have variables.  Each round pays for one
variable.  If the clauses of the next level over the remaining variables hold, then all
resolvents on this one do, and `exists_holds_set` gives it a value.
-/

namespace Clausal

/-! ## Completeness of resolution -/

/-- Without a refutation in so many more rounds, the clauses of a level that are over so
many variables hold together. -/
theorem exists_holds_level {cs : List Clause} : ∀ (vs : List Variable) (n : Nat),
    ¬ WithinRounds cs (n + vs.length) .empty →
      ∃ w, ∀ c, WithinRounds cs n c → (∀ l ∈ c, l.var ∈ vs) → c.Holds w
  | [], n, h => by
      refine ⟨fun _ => true, fun c hc hv => absurd ?_ h⟩
      have he : c = Clause.empty := Clause.ext_mem fun l =>
        ⟨fun hl => absurd (hv l hl) List.not_mem_nil, fun hl => absurd hl Clause.not_mem_empty⟩
      exact he ▸ hc
  | v :: vs, n, h => by
      have hlen : n + 1 + vs.length = n + (v :: vs).length := by
        rw [List.length_cons]; omega
      obtain ⟨w, hw⟩ := exists_holds_level vs (n + 1) (hlen ▸ h)
      -- Without its literals of `v` a clause over `v :: vs` is over `vs`.
      have hrest : ∀ {c : Clause}, (∀ l ∈ c, l.var ∈ v :: vs) → (∀ l ∈ c, l.var ≠ v) →
          ∀ l ∈ c, l.var ∈ vs := fun hv hne l hl =>
        (List.mem_cons.mp (hv l hl)).resolve_left (hne l hl)
      have hset : ∃ b, ∀ c, WithinRounds cs n c ∧ (∀ l ∈ c, l.var ∈ v :: vs) →
          c.Holds (w.set v b) := by
        apply exists_holds_set
        · intro c hc hne
          exact hw c (.inl hc.1) (hrest hc.2 hne)
        · intro a c r ha hc hr hrt
          refine hw r (.inr ⟨a, c, v, ha.1, hc.1, hr, hrt⟩) (hrest (fun l hl => ?_) fun l hl =>
            Clause.var_ne_of_mem_resolve hr hl)
          rcases Clause.mem_of_mem_resolve hr hl with hla | hlc
          · exact ha.2 l hla
          · exact hc.2 l hlc
      obtain ⟨b, hb⟩ := hset
      exact ⟨_, fun c hc hv => hb c ⟨hc, hv⟩⟩

/-- Resolution derives the empty clause from unsatisfiable clauses, in no more rounds than
the clauses that are no tautologies have variables. -/
theorem withinRounds_empty {cs : List Clause} {vs : List Variable}
    (hvs : ∀ c ∈ cs, c.isTautology = false → ∀ l ∈ c, l.var ∈ vs)
    (h : ¬ ∃ w, HoldAll w cs) : WithinRounds cs vs.length .empty := by
  refine Classical.byContradiction fun hn => h ?_
  obtain ⟨w, hw⟩ := exists_holds_level vs 0 (by rwa [Nat.zero_add])
  refine ⟨w, fun c hc => ?_⟩
  cases ht : c.isTautology with
  | true => exact Clause.holds_of_isTautology w ht
  | false => exact hw c ⟨hc, ht⟩ (hvs c hc ht)

/-- Resolution derives the empty clause exactly from unsatisfiable clauses. -/
theorem derivable_empty_iff {cs : List Clause} :
    Derivable cs .empty ↔ ¬ ∃ w, HoldAll w cs := by
  constructor
  · intro h ⟨w, hw⟩
    exact Clause.not_holds_empty w (h.holds hw)
  · intro h
    have hvs : ∀ c ∈ cs, c.isTautology = false → ∀ l ∈ c,
        l.var ∈ cs.flatMap fun c => c.literals.map Literal.var := fun c hc _ l hl =>
      List.mem_flatMap.mpr ⟨c, hc, List.mem_map.mpr ⟨l, hl, rfl⟩⟩
    exact derivable_iff.mpr ⟨_, withinRounds_empty hvs h⟩

namespace Saturation

variable {f : Formula} {s t : Saturation} {n : Nat}

/-! ## Levels -/

/-- The working set is what so many rounds derive. -/
def AtLevel (f : Formula) (n : Nat) (s : Saturation) : Prop :=
  ∀ c, c ∈ s.working.toList ↔ WithinRounds f.clauses n c

theorem start_atLevel (f : Formula) : AtLevel f 0 (start f) := by
  intro c
  show c ∈ (ClauseSet.ofList (f.clauses.filter fun c => !c.isTautology)).toList ↔ _
  rw [ClauseSet.mem_ofList, List.mem_filter, Bool.not_eq_true']
  rfl

theorem AtLevel.isTautology_eq_false (h : AtLevel f n s) {c : Clause}
    (hc : c ∈ s.working.toList) : c.isTautology = false :=
  (derivable_iff.mpr ⟨n, (h c).mp hc⟩).isTautology_eq_false

theorem AtLevel.mem_resolvents_iff (h : AtLevel f n s) {c : Clause} :
    c ∈ resolvents s.working.toList ↔ ∃ a b v, WithinRounds f.clauses n a ∧
      WithinRounds f.clauses n b ∧ a.resolve b v = some c ∧ c.isTautology = false := by
  rw [Saturation.mem_resolvents_iff fun a ha => h.isTautology_eq_false ha]
  constructor
  · intro ⟨a, ha, b, hb, v, hr⟩
    exact ⟨a, b, v, (h a).mp ha, (h b).mp hb, hr⟩
  · intro ⟨a, b, v, ha, hb, hr⟩
    exact ⟨a, (h a).mpr ha, b, (h b).mpr hb, v, hr⟩

/-- A round that adds its resolvents leads to the next level. -/
theorem AtLevel.succ (h : AtLevel f n s)
    (ht : ∀ c, c ∈ t.working.toList ↔
      c ∈ s.working.toList ∨ c ∈ resolvents s.working.toList) : AtLevel f (n + 1) t := by
  intro c
  rw [ht, h c, h.mem_resolvents_iff]
  rfl

/-- A level that a round adds nothing to is the whole closure. -/
theorem AtLevel.mem_iff_derivable (h : AtLevel f n s)
    (hclosed : ∀ c ∈ resolvents s.working.toList, c ∈ s.working.toList) {c : Clause} :
    c ∈ s.working.toList ↔ Derivable f.clauses c := by
  constructor
  · intro hc
    exact derivable_iff.mpr ⟨n, (h c).mp hc⟩
  · intro hd
    induction hd with
    | given hc ht => exact (h _).mpr (WithinRounds.mono (Nat.zero_le n) ⟨hc, ht⟩)
    | resolvent _ _ hr ht iha ihb =>
        exact hclosed _ (h.mem_resolvents_iff.mpr ⟨_, _, _, (h _).mp iha, (h _).mp ihb, hr, ht⟩)

/-! ## Rounds to the end -/

theorem rounds_of_ended {outcome : Outcome} (h : s.step = .ended outcome t) :
    s.rounds = (outcome, t) := by
  rw [rounds]
  split
  · next hs => rw [h] at hs; cases hs; rfl
  · next hs => rw [h] at hs; cases hs

theorem rounds_of_grown (h : s.step = .grown t) : s.rounds = t.rounds := by
  rw [rounds]
  split
  · next hs => rw [h] at hs; cases hs
  · next hs => rw [h] at hs; cases hs; rfl

/-- How rounds from a level end: refuted with a derivation of the empty clause, or
saturated with the closure and without the empty clause. -/
theorem AtLevel.rounds_cases (h : AtLevel f n s) (he : Clause.empty ∉ s.working.toList) :
    (s.rounds.1 = .refuted ∧ Derivable f.clauses .empty) ∨
      (s.rounds.1 = .saturated ∧ ¬ Derivable f.clauses .empty ∧
        ∀ c, c ∈ s.rounds.2.working.toList ↔ Derivable f.clauses c) := by
  induction hroom : s.working.room using Nat.strongRecOn generalizing n s with
  | ind room ih =>
      rcases step_cases s with ⟨hr, t, hs, _⟩ | ⟨hr, hclosed, t, hs, hw⟩ | ⟨hr, t, hs, hw⟩
      · rw [rounds_of_ended hs]
        obtain ⟨a, b, v, ha, hb, hab⟩ := h.mem_resolvents_iff.mp hr
        exact .inl ⟨rfl, derivable_iff.mpr ⟨n + 1, .inr ⟨a, b, v, ha, hb, hab⟩⟩⟩
      · rw [rounds_of_ended hs, hw]
        refine .inr ⟨rfl, fun hd => he ?_, fun c => h.mem_iff_derivable hclosed⟩
        exact (h.mem_iff_derivable hclosed).mpr hd
      · rw [rounds_of_grown hs]
        have hlt : t.working.room < room := hroom ▸ room_lt_of_step hs
        refine ih _ hlt (h.succ hw) (fun hm => ?_) rfl
        rcases (hw _).mp hm with hm | hm
        · exact he hm
        · exact hr hm

theorem hasEmptyClause_iff : f.hasEmptyClause = true ↔ Clause.empty ∈ f.clauses := by
  simp only [Formula.hasEmptyClause, List.any_eq_true, Clause.isEmpty_iff, exists_eq_right]

/-- Saturation ends refuted exactly when resolution derives the empty clause. -/
theorem saturate_cases (f : Formula) :
    ((start f).saturate.1 = .refuted ∧ Derivable f.clauses .empty) ∨
      ((start f).saturate.1 = .saturated ∧ ¬ Derivable f.clauses .empty) := by
  rw [saturate]
  split
  · next h => exact .inl ⟨rfl, .given (hasEmptyClause_iff.mp h) rfl⟩
  · next h =>
      have he : Clause.empty ∉ (start f).working.toList := fun hm =>
        h (hasEmptyClause_iff.mpr ((start_atLevel f _).mp hm).1)
      rcases (start_atLevel f).rounds_cases he with hr | ⟨ho, hd, _⟩
      · exact .inl hr
      · exact .inr ⟨ho, hd⟩

/-- Saturation decides satisfiability. -/
theorem solve_start_iff (f : Formula) :
    ((start f).solve.1 = .unsat ↔ ¬ f.Satisfiable) ∧
      ((start f).solve.1 = .sat none ↔ f.Satisfiable) := by
  have hsolve : (start f).solve.1 = (start f).saturate.1.solution := rfl
  have hd : Derivable f.clauses .empty ↔ ¬ f.Satisfiable := derivable_empty_iff
  rw [hsolve]
  rcases saturate_cases f with ⟨ho, he⟩ | ⟨ho, he⟩
  · rw [ho]
    have hunsat := hd.mp he
    exact ⟨⟨fun _ => hunsat, fun _ => rfl⟩, ⟨nofun, fun hs => absurd hs hunsat⟩⟩
  · rw [ho]
    have hsat : f.Satisfiable := Classical.not_not.mp fun hn => he (hd.mpr hn)
    exact ⟨⟨nofun, fun hn => absurd hsat hn⟩, ⟨fun _ => hsat, fun _ => rfl⟩⟩

end Saturation

end Clausal
