import Clausal.Literal

/-!
# Clauses

A clause is the disjunction of finitely many literals.  It is kept as the
ascending list of its literals, so clauses with the same literals are equal
(`Clause.ext_mem`), the two literals of a variable are neighbours, and the first
and the last literal are over the least and the greatest variable.

Clauses are ordered like words: literal by literal, and a proper beginning of a
clause comes before it.
-/

namespace Clausal

/-- A disjunction of literals. -/
structure Clause where
  /-- The literals, in their order. -/
  literals : List Literal
  /-- No literal comes twice or out of order. -/
  ascending : Ascending literals
deriving DecidableEq

namespace Clause

/-- The clause of a collection of literals, in any order and with any repetition. -/
def ofLiterals (ls : List Literal) : Clause := ⟨Ascending.ofList ls, Ascending.ofList_ascending ls⟩

/-- The clause without literals, a contradiction. -/
def empty : Clause := ⟨[], Ascending.nil⟩

/-- The number of literals. -/
def size (c : Clause) : Nat := c.literals.length

/-- Whether the clause has no literal. -/
def isEmpty (c : Clause) : Bool := c.literals.isEmpty

instance : Membership Literal Clause := ⟨fun c l => l ∈ c.literals⟩

instance (l : Literal) (c : Clause) : Decidable (l ∈ c) :=
  inferInstanceAs (Decidable (l ∈ c.literals))

/-- Whether two neighbours of a list are over one variable. -/
def hasTwin : List Literal → Bool
  | l :: m :: rest => l.var == m.var || hasTwin (m :: rest)
  | _ => false

/-- Whether some variable occurs with both polarities.  Its two literals are then
neighbours. -/
def isTautology (c : Clause) : Bool := hasTwin c.literals

/-- Whether the variable occurs, in either polarity. -/
def mentions (c : Clause) (v : Variable) : Bool :=
  decide (⟨v, true⟩ ∈ c) || decide (⟨v, false⟩ ∈ c)

/-- The least variable that occurs, which the first literal is over. -/
def leastVariable? (c : Clause) : Option Variable := c.literals.head?.map Literal.var

/-- The greatest variable that occurs, which the last literal is over. -/
def greatestVariable? (c : Clause) : Option Variable := c.literals.getLast?.map Literal.var

/-- A clause is shown as its literals with `∨` between them, in parentheses. -/
def text (c : Clause) : String :=
  "(" ++ String.intercalate " ∨ " (c.literals.map Literal.text) ++ ")"

/-! ### Order -/

instance : Ord Clause := ⟨compareOn literals⟩

instance : Std.TransOrd Clause := inferInstanceAs (Std.TransCmp (compareOn literals))

theorem eq_of_literals_eq {a b : Clause} (h : a.literals = b.literals) : a = b := by
  cases a; cases b; cases h; rfl

instance : Std.LawfulEqOrd Clause where
  eq_of_compare h := eq_of_literals_eq (Std.LawfulEqOrd.eq_of_compare h)

/-! ### Elements -/

theorem mem_literals {l : Literal} {c : Clause} : l ∈ c.literals ↔ l ∈ c := Iff.rfl

@[simp] theorem mem_ofLiterals {l : Literal} {ls : List Literal} : l ∈ ofLiterals ls ↔ l ∈ ls :=
  Ascending.mem_ofList

/-- Clauses with the same literals are equal. -/
theorem ext_mem {a b : Clause} (h : ∀ l, l ∈ a ↔ l ∈ b) : a = b :=
  eq_of_literals_eq (Ascending.eq_of_mem_iff a.ascending b.ascending h)

@[simp] theorem ofLiterals_literals (c : Clause) : ofLiterals c.literals = c :=
  ext_mem fun _ => mem_ofLiterals

@[simp] theorem not_mem_empty {l : Literal} : l ∉ empty := List.not_mem_nil

theorem isEmpty_iff {c : Clause} : c.isEmpty = true ↔ c = empty := by
  constructor
  · intro h
    exact eq_of_literals_eq (List.isEmpty_iff.mp h)
  · intro h
    subst h
    rfl

theorem mentions_iff {c : Clause} {v : Variable} :
    c.mentions v = true ↔ ∃ l ∈ c, l.var = v := by
  simp only [mentions, Bool.or_eq_true, decide_eq_true_eq]
  constructor
  · rintro (h | h)
    · exact ⟨_, h, rfl⟩
    · exact ⟨_, h, rfl⟩
  · rintro ⟨⟨w, p⟩, hl, hv⟩
    cases hv
    cases p
    · exact .inr hl
    · exact .inl hl

theorem hasTwin_iff : ∀ {ls : List Literal}, Ascending ls →
    (hasTwin ls = true ↔ ∃ l ∈ ls, -l ∈ ls)
  | [], _ => by simp [hasTwin]
  | [l], _ => by
      simp only [hasTwin, Bool.false_eq_true, List.mem_singleton, exists_eq_left, false_iff]
      exact fun h => l.ne_neg h.symm
  | l :: m :: rest, h => by
      obtain ⟨hl, h'⟩ := Ascending.cons_iff.mp h
      have ih := hasTwin_iff h'
      have hlm : l.code < m.code := hl m List.mem_cons_self
      simp only [hasTwin, Bool.or_eq_true, beq_iff_eq, ih]
      constructor
      · rintro (hv | ⟨k, hk, hk'⟩)
        · refine ⟨l, List.mem_cons_self, ?_⟩
          cases Literal.eq_or_eq_neg hv with
          | inl he => subst he; exact absurd hlm (Nat.lt_irrefl _)
          | inr he => rw [he, Literal.neg_neg]; simp
        · exact ⟨k, List.mem_cons_of_mem _ hk, List.mem_cons_of_mem _ hk'⟩
      · rintro ⟨k, hk, hk'⟩
        -- The complement of the first literal has a neighbouring rank, so it comes second.
        have second : ∀ n ∈ m :: rest, n.var = l.var → l.var = m.var := by
          intro n hn hv
          have hln : l.code < n.code := hl n hn
          have hmn : m.code ≤ n.code := Ascending.rank_head_le h' hn
          have hid : n.var.id = l.var.id := congrArg Variable.id hv
          have hp := Bool.toNat_lt l.positive
          have hq := Bool.toNat_lt n.positive
          have hr := Bool.toNat_lt m.positive
          simp only [Literal.code] at hlm hln hmn
          exact Variable.eq_of_id_eq (by omega)
        cases List.mem_cons.mp hk with
        | inl he =>
            subst he
            cases List.mem_cons.mp hk' with
            | inl hn => exact absurd hn.symm k.ne_neg
            | inr hn => exact .inl (second _ hn rfl)
        | inr hk =>
            cases List.mem_cons.mp hk' with
            | inl hn => exact .inl (second k hk (by rw [← hn, Literal.var_neg]))
            | inr hn => exact .inr ⟨k, hk, hn⟩

/-- A tautology holds some literal and its complement. -/
theorem isTautology_iff {c : Clause} : c.isTautology = true ↔ ∃ l ∈ c, -l ∈ c :=
  hasTwin_iff c.ascending

/-- No literal is over a lesser variable than the first. -/
theorem id_le_of_leastVariable? {c : Clause} {v : Variable} (h : c.leastVariable? = some v)
    {l : Literal} (hl : l ∈ c) : v.id ≤ l.var.id := by
  obtain ⟨m, hm, rfl⟩ := Option.map_eq_some_iff.mp h
  obtain ⟨rest, hc⟩ := List.head?_eq_some_iff.mp hm
  have hle := Ascending.rank_head_le (hc ▸ c.ascending) (hc ▸ mem_literals.mpr hl)
  have hp := Bool.toNat_lt l.positive
  have hq := Bool.toNat_lt m.positive
  simp only [Literal.rank_eq, Literal.code] at hle
  omega

/-- No literal is over a greater variable than the last. -/
theorem id_le_of_greatestVariable? {c : Clause} {v : Variable} (h : c.greatestVariable? = some v)
    {l : Literal} (hl : l ∈ c) : l.var.id ≤ v.id := by
  unfold greatestVariable? at h
  have hne : c.literals ≠ [] := List.ne_nil_of_mem hl
  rw [List.getLast?_eq_some_getLast hne, Option.map_some, Option.some.injEq] at h
  subst h
  have hle := Ascending.rank_le_getLast c.ascending hne hl
  have hp := Bool.toNat_lt l.positive
  have hq := Bool.toNat_lt (c.literals.getLast hne).positive
  simp only [Literal.rank_eq, Literal.code] at hle
  omega

theorem exists_of_greatestVariable? {c : Clause} {v : Variable}
    (h : c.greatestVariable? = some v) : ∃ l ∈ c, l.var = v := by
  obtain ⟨l, hl, hv⟩ := Option.map_eq_some_iff.mp h
  exact ⟨l, List.mem_of_getLast? hl, hv⟩

theorem greatestVariable?_eq_none {c : Clause} : c.greatestVariable? = none ↔ c = empty := by
  unfold greatestVariable?
  rw [Option.map_eq_none_iff, List.getLast?_eq_none_iff]
  exact ⟨fun h => eq_of_literals_eq h, fun h => by subst h; rfl⟩

end Clause

end Clausal
