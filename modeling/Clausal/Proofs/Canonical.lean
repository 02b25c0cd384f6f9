import Clausal.Proofs.Ascending
import Clausal.Proofs.Resolvent

/-!
# Clauses as sets of literals

A clause is an ascending list, and what is asked of it is read off that list: whether it is a
tautology off its neighbours, which variables it reaches to off its ends, and a literal can be found
in it by halving.  Every answer is one about the set of its literals, in whatever order and however
often they came (`Clause.Canonical`).

*Neighbours.*  The order looks at the variable first (`Literal.precedes_iff`), so nothing comes
between the two literals of a variable, and of these the negative one comes first.

*Ends.*  The first and the last literal are over the least and the greatest variable for the same
reason (`Clause.leastVariable?_eq_some_iff`, `Clause.greatestVariable?_eq_some_iff`).

*Equality.*  There is one ascending list for a set, so equal sets of literals make equal clauses,
and the order of clauses finds no difference between them.  A resolvent is the clause of the
literals that its parents hold over other variables, so it is canonical like any other.
-/

namespace Clausal

/-- The order of literals: the lesser variable comes first, and of two literals of one variable the
negative one. -/
def Literal.Precedes (l m : Literal) : Prop :=
  l.var.id < m.var.id ∨ l.var = m.var ∧ l.positive = false ∧ m.positive = true

instance (l m : Literal) : Decidable (l.Precedes m) :=
  inferInstanceAs (Decidable (_ ∨ _))

theorem Literal.precedes_iff {l m : Literal} : l.Precedes m ↔ l.code < m.code := by
  have hl := Bool.toNat_lt l.positive
  have hm := Bool.toNat_lt m.positive
  unfold Precedes code
  constructor
  · rintro (hid | ⟨hv, hn, hp⟩)
    · omega
    · rw [hv, hn, hp]
      exact Nat.lt_succ_self _
  · intro hlt
    rcases Nat.lt_or_ge l.var.id m.var.id with hid | hid
    · exact .inl hid
    · -- The variable is the same, so the polarities decide.
      have hv : l.var = m.var := Variable.eq_of_id_eq (by omega)
      rw [hv] at hlt
      refine .inr ⟨hv, ?_, ?_⟩
      · exact Bool.toNat_eq_zero.mp (by omega)
      · exact Bool.toNat_eq_one.mp (by omega)

namespace Clause

variable {a b c r : Clause} {v : Variable} {xs ys ls : List Literal}

/-! ## What is read off the list -/

theorem isTautology_iff_exists_var :
    c.isTautology = true ↔ ∃ v, (⟨v, true⟩ : Literal) ∈ c ∧ (⟨v, false⟩ : Literal) ∈ c := by
  rw [isTautology_iff]
  constructor
  · rintro ⟨⟨v, p⟩, hl, hn⟩
    cases p with
    | true => exact ⟨v, hl, hn⟩
    | false => exact ⟨v, hn, hl⟩
  · rintro ⟨v, hp, hn⟩
    exact ⟨⟨v, true⟩, hp, hn⟩

theorem leastVariable?_eq_none : c.leastVariable? = none ↔ c = empty := by
  rw [leastVariable?, Option.map_eq_none_iff, List.head?_eq_none_iff]
  exact ⟨fun h => eq_of_literals_eq h, fun h => congrArg literals h⟩

theorem exists_of_leastVariable? (h : c.leastVariable? = some v) : ∃ l ∈ c, l.var = v := by
  obtain ⟨l, hl, hv⟩ := Option.map_eq_some_iff.mp h
  exact ⟨l, List.mem_of_head? hl, hv⟩

/-- An end of a clause is over the variable that comes before all others, seen from there. -/
theorem end_eq_some_iff {R : Nat → Nat → Prop} {o : Option Variable}
    (hanti : ∀ {m n}, R m n → R n m → m = n) (hnone : o = none → c = empty)
    (hmem : ∀ {u}, o = some u → ∃ l ∈ c, l.var = u)
    (hbound : ∀ {u}, o = some u → ∀ l ∈ c, R u.id l.var.id) :
    o = some v ↔ (∃ l ∈ c, l.var = v) ∧ ∀ l ∈ c, R v.id l.var.id := by
  constructor
  · intro h
    exact ⟨hmem h, hbound h⟩
  · rintro ⟨⟨l, hl, rfl⟩, hv⟩
    cases h : o with
    | none =>
        rw [hnone h] at hl
        exact absurd hl not_mem_empty
    | some u =>
        obtain ⟨m, hm, rfl⟩ := hmem h
        have hid : m.var.id = l.var.id := hanti (hbound h l hl) (hv m hm)
        rw [Variable.eq_of_id_eq hid]

/-- The first literal is over the least variable. -/
theorem leastVariable?_eq_some_iff :
    c.leastVariable? = some v ↔ (∃ l ∈ c, l.var = v) ∧ ∀ l ∈ c, v.id ≤ l.var.id :=
  end_eq_some_iff Nat.le_antisymm leastVariable?_eq_none.mp exists_of_leastVariable?
    fun h _ => id_le_of_leastVariable? h

/-- The last literal is over the greatest variable. -/
theorem greatestVariable?_eq_some_iff :
    c.greatestVariable? = some v ↔ (∃ l ∈ c, l.var = v) ∧ ∀ l ∈ c, l.var.id ≤ v.id :=
  end_eq_some_iff (fun hle hge => Nat.le_antisymm hge hle) greatestVariable?_eq_none.mp
    exists_of_greatestVariable? fun h _ => id_le_of_greatestVariable? h

/-! ## Canonical clauses -/

/-- The clause is the set of the literals of a list. -/
structure Canonical (c : Clause) (ls : List Literal) : Prop where
  /-- Its literals ascend, and none comes twice. -/
  ascending : c.literals.Pairwise Literal.Precedes
  /-- They are those of the list. -/
  mem_literals_iff : ∀ l, l ∈ c.literals ↔ l ∈ ls
  /-- A literal is found if it is one of the list. -/
  contains_iff : ∀ l, decide (l ∈ c) = true ↔ l ∈ ls
  /-- It is found by halving just as well. -/
  binSearch_iff : ∀ l,
    c.literals.toArray.binSearchContains l (fun m n => decide (m.Precedes n)) = true ↔ l ∈ ls
  /-- A variable is found if some literal of the list is over it. -/
  mentions_iff : ∀ v, c.mentions v = true ↔ ∃ l ∈ ls, l.var = v
  /-- The clause is a tautology if the list has both literals of some variable. -/
  isTautology_iff : c.isTautology = true ↔
    ∃ v, (⟨v, true⟩ : Literal) ∈ ls ∧ (⟨v, false⟩ : Literal) ∈ ls
  /-- The last literal is over the greatest variable of the list. -/
  greatest_iff : ∀ v, c.greatestVariable? = some v ↔
    (∃ l ∈ ls, l.var = v) ∧ ∀ l ∈ ls, l.var.id ≤ v.id
  /-- There is no greatest variable just if the list is empty. -/
  greatest_none_iff : c.greatestVariable? = none ↔ ls = []
  /-- The first literal is over the least variable of the list. -/
  least_iff : ∀ v, c.leastVariable? = some v ↔
    (∃ l ∈ ls, l.var = v) ∧ ∀ l ∈ ls, v.id ≤ l.var.id
  /-- There is no least variable just if the list is empty. -/
  least_none_iff : c.leastVariable? = none ↔ ls = []

theorem eq_empty_iff (h : ∀ l, l ∈ c ↔ l ∈ ls) : c = empty ↔ ls = [] := by
  rw [List.eq_nil_iff_forall_not_mem]
  constructor
  · rintro rfl l hl
    exact not_mem_empty ((h l).mpr hl)
  · intro hnone
    exact ext_mem fun l => iff_of_false (fun hl => hnone l ((h l).mp hl)) not_mem_empty

/-- The members alone make a clause the set of a list. -/
theorem canonical_of_mem_iff (h : ∀ l, l ∈ c ↔ l ∈ ls) : c.Canonical ls where
  ascending := c.ascending.imp Literal.precedes_iff.mpr
  mem_literals_iff := h
  contains_iff := fun l => decide_eq_true_iff.trans (h l)
  binSearch_iff := fun l => by
    rw [← h, ← mem_literals]
    exact c.ascending.binSearchContains_iff fun _ _ =>
      decide_eq_true_iff.trans Literal.precedes_iff
  mentions_iff := fun _ => by simp only [mentions_iff, h]
  isTautology_iff := by simp only [isTautology_iff_exists_var, h]
  greatest_iff := fun _ => by simp only [greatestVariable?_eq_some_iff, h]
  greatest_none_iff := greatestVariable?_eq_none.trans (eq_empty_iff h)
  least_iff := fun _ => by simp only [leastVariable?_eq_some_iff, h]
  least_none_iff := leastVariable?_eq_none.trans (eq_empty_iff h)

theorem Canonical.eq_iff (ha : a.Canonical xs) (hb : b.Canonical ys) :
    a = b ↔ ∀ l, l ∈ xs ↔ l ∈ ys := by
  constructor
  · rintro rfl l
    rw [← ha.mem_literals_iff, hb.mem_literals_iff]
  · intro h
    refine ext_mem fun l => ?_
    rw [← mem_literals, ← mem_literals, ha.mem_literals_iff, hb.mem_literals_iff, h]

/-- A resolvent is the set of the literals of its parents that are over other variables. -/
theorem resolve_canonical (h : a.resolve b v = some r) :
    r.Canonical ((a.literals ++ b.literals).filter fun l => l.var != v) := by
  obtain ⟨_, rfl⟩ := resolve_eq_some_iff.mp h
  exact canonical_of_mem_iff fun _ => mem_ofLiterals

/-- A clause made from a list is the set of its literals.  Two such clauses are equal, and equal in
the order of clauses, just if their lists have the same literals, and resolvents are sets of
literals as well. -/
theorem ofLiterals_canonical (xs ys : List Literal) :
    (ofLiterals xs).Canonical xs ∧
    (ofLiterals xs = ofLiterals ys ↔ ∀ l, l ∈ xs ↔ l ∈ ys) ∧
    (compare (ofLiterals xs) (ofLiterals ys) = .eq ↔ ∀ l, l ∈ xs ↔ l ∈ ys) ∧
    ∀ (a b r : Clause) (v : Variable), a.resolve b v = some r →
      r.Canonical ((a.literals ++ b.literals).filter fun l => l.var != v) := by
  have hxs : (ofLiterals xs).Canonical xs := canonical_of_mem_iff fun _ => mem_ofLiterals
  have hys : (ofLiterals ys).Canonical ys := canonical_of_mem_iff fun _ => mem_ofLiterals
  have heq := hxs.eq_iff hys
  exact ⟨hxs, heq, Std.LawfulEqCmp.compare_eq_iff_eq.trans heq, fun _ _ _ _ => resolve_canonical⟩

/-- Repeated literals go, and the negative literal of a variable comes first. -/
example : (ofLiterals [⟨.x2, true⟩, ⟨.x1, true⟩, ⟨.x2, true⟩, ⟨.x1, false⟩]).literals =
    [⟨.x1, false⟩, ⟨.x1, true⟩, ⟨.x2, true⟩] := rfl

end Clause

end Clausal
