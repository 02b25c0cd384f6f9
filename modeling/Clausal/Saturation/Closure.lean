import Clausal.Clause.Resolvent
import Clausal.Semantics

/-!
# The closure under resolution

What resolution derives from some clauses, said without a procedure: their clauses that
are no tautologies, and with any two derivable clauses every resolvent of them that is
no tautology.  `WithinRounds` counts how often resolution has to be applied to all that
is there.  `Derivable.holds` says that what is derivable follows from the clauses.
-/

namespace Clausal

/-- Resolution derives the clause from the given ones. -/
inductive Derivable (cs : List Clause) : Clause → Prop where
  /-- A given clause that is no tautology. -/
  | given {c : Clause} : c ∈ cs → c.isTautology = false → Derivable cs c
  /-- A resolvent of derivable clauses that is no tautology. -/
  | resolvent {a b r : Clause} {v : Variable} : Derivable cs a → Derivable cs b →
      a.resolve b v = some r → r.isTautology = false → Derivable cs r

/-- Resolution derives the clause in so many rounds. -/
def WithinRounds (cs : List Clause) : Nat → Clause → Prop
  | 0, r => r ∈ cs ∧ r.isTautology = false
  | n + 1, r => WithinRounds cs n r ∨
      ∃ a b v, WithinRounds cs n a ∧ WithinRounds cs n b ∧ a.resolve b v = some r ∧
        r.isTautology = false

/-- No derivable clause is a tautology. -/
theorem Derivable.isTautology_eq_false {cs : List Clause} {c : Clause} (h : Derivable cs c) :
    c.isTautology = false := by
  cases h with
  | given _ ht => exact ht
  | resolvent _ _ _ ht => exact ht

/-- More rounds derive no less. -/
theorem WithinRounds.mono {cs : List Clause} {c : Clause} {n m : Nat} (h : n ≤ m)
    (hc : WithinRounds cs n c) : WithinRounds cs m c := by
  induction h with
  | refl => exact hc
  | step _ ih => exact .inl ih

/-- What is derivable is derivable in some number of rounds, and the other way round. -/
theorem derivable_iff {cs : List Clause} {c : Clause} :
    Derivable cs c ↔ ∃ n, WithinRounds cs n c := by
  constructor
  · intro h
    induction h with
    | given hc ht => exact ⟨0, hc, ht⟩
    | @resolvent a b r v _ _ hr ht iha ihb =>
        obtain ⟨n, hn⟩ := iha
        obtain ⟨m, hm⟩ := ihb
        exact ⟨max n m + 1, .inr ⟨a, b, v, hn.mono (Nat.le_max_left n m),
          hm.mono (Nat.le_max_right n m), hr, ht⟩⟩
  · rintro ⟨n, hn⟩
    induction n generalizing c with
    | zero => exact .given hn.1 hn.2
    | succ n ih =>
        cases hn with
        | inl h => exact ih h
        | inr h =>
            obtain ⟨a, b, v, ha, hb, hr, ht⟩ := h
            exact .resolvent (ih ha) (ih hb) hr ht

/-- A clause that holds by its literals of other variables holds in a resolvent. -/
theorem Clause.holds_of_other {w : Valuation} {b r : Clause} {v : Variable} {p : Bool}
    (hr : ∀ l ∈ b, l.var ≠ v → l ∈ r) (hb : b.Holds w) (hp : w v = p) (hn : ⟨v, p⟩ ∉ b) :
    r.Holds w := by
  obtain ⟨l, hl, hw⟩ := hb
  by_cases hv : l.var = v
  · refine absurd ?_ hn
    have hpos : l.positive = p := by rw [← hp, ← hv]; exact hw.symm
    cases l with
    | mk u q => cases hv; cases hpos; exact hl
  · exact ⟨l, hr l hl hv, hw⟩

/-- A clause that is no tautology holds a variable in at most one polarity. -/
theorem Clause.not_mem_of_mem {c : Clause} (h : c.isTautology = false) {v : Variable} {p : Bool}
    (hm : ⟨v, p⟩ ∈ c) : ⟨v, !p⟩ ∉ c := by
  intro hn
  have ht := Clause.isTautology_iff.mpr ⟨_, hm, hn⟩
  rw [h] at ht
  cases ht

/-- A resolvent of clauses that are no tautologies follows from them. -/
theorem Clause.holds_resolve {w : Valuation} {a b r : Clause} {v : Variable}
    (ha : a.isTautology = false) (hb : b.isTautology = false) (h : a.resolve b v = some r)
    (haw : a.Holds w) (hbw : b.Holds w) : r.Holds w := by
  unfold Clause.resolve at h
  split at h
  · next hc =>
      cases h
      have hra : ∀ l ∈ a, l.var ≠ v → l ∈ joinWithout v a b :=
        fun l hl hv => mem_joinWithout.mpr ⟨.inl hl, hv⟩
      have hrb : ∀ l ∈ b, l.var ≠ v → l ∈ joinWithout v a b :=
        fun l hl hv => mem_joinWithout.mpr ⟨.inr hl, hv⟩
      -- The clause whose literal of the variable is false holds by another one.
      simp only [clashesOn, Bool.or_eq_true, Bool.and_eq_true, decide_eq_true_eq] at hc
      cases hw : w v with
      | true =>
          cases hc with
          | inl hc => exact holds_of_other hrb hbw hw (not_mem_of_mem hb hc.2)
          | inr hc => exact holds_of_other hra haw hw (not_mem_of_mem ha hc.1)
      | false =>
          cases hc with
          | inl hc => exact holds_of_other hra haw hw (not_mem_of_mem ha hc.1)
          | inr hc => exact holds_of_other hrb hbw hw (not_mem_of_mem hb hc.2)
  · cases h

/-- What is derivable from clauses holds wherever they do. -/
theorem Derivable.holds {cs : List Clause} {c : Clause} {w : Valuation} (h : Derivable cs c)
    (hw : HoldAll w cs) : c.Holds w := by
  induction h with
  | given hc _ => exact hw _ hc
  | resolvent ha hb hr _ iha ihb =>
      exact Clause.holds_resolve ha.isTautology_eq_false hb.isTautology_eq_false hr iha ihb

end Clausal
