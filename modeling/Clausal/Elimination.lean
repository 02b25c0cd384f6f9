import Clausal.Clause.Resolvent
import Clausal.ClauseSet
import Clausal.Journal
import Clausal.Solution

/-!
# Elimination of variables

The working formula starts with the distinct clauses of the formula that are no
tautologies.  Eliminating a variable replaces the clauses that mention it by their
resolvents on it, those aside that are tautologies.  The other clauses keep their
order, and new resolvents come behind them.

The solver eliminates the least variable that is left, until the empty clause is a
resolvent or no variable is left.  It ends because an elimination brings in no
variable and takes one away (`Elimination.vars_eliminate_lt`).
-/

namespace Clausal

namespace Elimination

/-- How an elimination ends. -/
inductive Outcome where
  /-- The variable is gone, without a contradiction. -/
  | eliminated
  /-- The empty clause is among the resolvents. -/
  | refuted
deriving DecidableEq, Repr

/-- What elimination writes into its log. -/
inductive Event where
  /-- A variable is gone: the numbers of clauses that held it positively and
  negatively, of clauses that came new and of clauses left. -/
  | eliminated (v : Variable) (positive negative added left : Nat)
deriving DecidableEq

/-- The log entry of an event. -/
def Event.entry : Event → LogEntry
  | .eliminated v positive negative added left =>
      ⟨.debug, "eliminated " ++ v.text ++ ": " ++ toString positive ++ " positive x " ++
        toString negative ++ " negative -> " ++ toString added ++ " resolvents, " ++
        toString left ++ " clauses left"⟩

/-- The resolvents on a variable of clauses that hold it positively with clauses that
hold it negatively, those aside that are tautologies. -/
def resolvents (v : Variable) (positives negatives : List Clause) : List Clause :=
  positives.flatMap fun a =>
    negatives.filterMap fun b => (a.resolve b v).filter fun r => !r.isTautology

end Elimination

/-- A solver that eliminates the variables of a formula. -/
structure Elimination where
  /-- The working formula. -/
  working : ClauseSet
  /-- Counters and log. -/
  journal : Journal Elimination.Event := {}

namespace Elimination

/-- The solver of a formula, before its first elimination. -/
def start (f : Formula) : Elimination where
  working := .ofList (f.clauses.filter fun c => !c.isTautology)

/-- The least variable that the working formula mentions. -/
def nextVariable? (s : Elimination) : Option Variable :=
  (s.working.toList.filterMap Clause.leastVariable?).min?

/-- The clauses of the working formula that mention the variable. -/
def mentioning (s : Elimination) (v : Variable) : List Clause :=
  s.working.toList.filter fun c => c.mentions v

/-- The clauses of the working formula that hold the variable positively. -/
def positives (s : Elimination) (v : Variable) : List Clause :=
  (s.mentioning v).filter fun c => decide (⟨v, true⟩ ∈ c)

/-- The clauses of the working formula that mention the variable otherwise. -/
def negatives (s : Elimination) (v : Variable) : List Clause :=
  (s.mentioning v).filter fun c => !decide (⟨v, true⟩ ∈ c)

/-- The clauses of the working formula that do not mention the variable. -/
def others (s : Elimination) (v : Variable) : List Clause :=
  s.working.toList.filter fun c => !c.mentions v

/-- Replace the clauses that mention a variable by their resolvents on it. -/
def eliminate (s : Elimination) (v : Variable) : Outcome × Elimination :=
  let positives := s.positives v
  let negatives := s.negatives v
  let resolvents := resolvents v positives negatives
  let others := ClauseSet.ofList (s.others v)
  let left := others.insertAll resolvents
  let journal := s.journal.count fun t =>
    { t with
      resolvents := t.resolvents + resolvents.length
      eliminations := t.eliminations + 1 }
  (if resolvents.any Clause.isEmpty then .refuted else .eliminated,
    { working := left
      journal := journal.note
        (.eliminated v positives.length negatives.length (left.size - others.size) left.size) })

/-! ### Variables that are left -/

/-- The variables of the working formula, in ascending order. -/
def vars (s : Elimination) : List Variable :=
  Ascending.ofList (s.working.toList.flatMap fun c => c.literals.map Literal.var)

theorem mem_vars {s : Elimination} {v : Variable} :
    v ∈ s.vars ↔ ∃ c ∈ s.working.toList, ∃ l ∈ c, l.var = v := by
  simp [vars, Clause.mem_literals]

theorem mem_working_eliminate {s : Elimination} {v : Variable} {c : Clause} :
    c ∈ (s.eliminate v).2.working.toList ↔
      c ∈ s.others v ∨ c ∈ resolvents v (s.positives v) (s.negatives v) := by
  simp [eliminate]

theorem mem_resolvents {v : Variable} {ps ns : List Clause} {c : Clause} :
    c ∈ resolvents v ps ns ↔
      ∃ a ∈ ps, ∃ b ∈ ns, a.resolve b v = some c ∧ c.isTautology = false := by
  simp [resolvents, Option.filter_eq_some_iff]

/-- A resolvent of an elimination has its parents in the working formula. -/
theorem exists_parents {s : Elimination} {v : Variable} {c : Clause}
    (h : c ∈ resolvents v (s.positives v) (s.negatives v)) :
    ∃ a ∈ s.working.toList, ∃ b ∈ s.working.toList,
      a.resolve b v = some c ∧ c.isTautology = false := by
  obtain ⟨a, ha, b, hb, hab, ht⟩ := mem_resolvents.mp h
  have hsa : a ∈ s.working.toList := (List.mem_filter.mp (List.mem_filter.mp ha).1).1
  have hsb : b ∈ s.working.toList := (List.mem_filter.mp (List.mem_filter.mp hb).1).1
  exact ⟨a, hsa, b, hsb, hab, ht⟩

/-- The variables after an elimination were there before, the eliminated one aside. -/
theorem mem_vars_of_eliminate {s : Elimination} {v w : Variable}
    (h : w ∈ (s.eliminate v).2.vars) : w ∈ s.vars ∧ w ≠ v := by
  obtain ⟨c, hc, l, hl, hw⟩ := mem_vars.mp h
  subst hw
  cases mem_working_eliminate.mp hc with
  | inl ho =>
      obtain ⟨hcs, hm⟩ := List.mem_filter.mp ho
      refine ⟨mem_vars.mpr ⟨c, hcs, l, hl, rfl⟩, fun hv => ?_⟩
      rw [Clause.mentions_iff.mpr ⟨l, hl, hv⟩] at hm
      cases hm
  | inr hr =>
      obtain ⟨a, hsa, b, hsb, hab, _⟩ := exists_parents hr
      refine ⟨?_, Clause.var_ne_of_mem_resolve hab hl⟩
      cases Clause.mem_of_mem_resolve hab hl with
      | inl h => exact mem_vars.mpr ⟨a, hsa, l, h, rfl⟩
      | inr h => exact mem_vars.mpr ⟨b, hsb, l, h, rfl⟩

/-- The next variable is one of the working formula. -/
theorem mem_vars_of_nextVariable? {s : Elimination} {v : Variable}
    (h : s.nextVariable? = some v) : v ∈ s.vars := by
  obtain ⟨c, hc, hv⟩ := List.mem_filterMap.mp (Variable.min?_spec h).1
  obtain ⟨l, hl, hlv⟩ := Option.map_eq_some_iff.mp hv
  exact mem_vars.mpr ⟨c, hc, l, List.mem_of_mem_head? hl, hlv⟩

/-- An elimination of the next variable leaves fewer variables. -/
theorem vars_eliminate_lt {s : Elimination} {v : Variable} (h : s.nextVariable? = some v) :
    (s.eliminate v).2.vars.length < s.vars.length := by
  have hsub : v :: (s.eliminate v).2.vars ⊆ s.vars := by
    intro w hw
    cases List.mem_cons.mp hw with
    | inl he => subst he; exact mem_vars_of_nextVariable? h
    | inr hw => exact (mem_vars_of_eliminate hw).1
  have hnodup : (v :: (s.eliminate v).2.vars).Nodup :=
    List.nodup_cons.mpr ⟨fun hv => (mem_vars_of_eliminate hv).2 rfl,
      (Ascending.ofList_ascending _).nodup⟩
  have hle := hnodup.length_le_of_subset hsub
  rw [List.length_cons] at hle
  exact hle

/-! ### To the end -/

/-- Eliminate the least variable until the empty clause is a resolvent or no variable
is left. -/
def eliminateAll (s : Elimination) : Solution × Elimination :=
  match h : s.nextVariable? with
  | none => (.sat none, s)
  | some v =>
      match he : s.eliminate v with
      | (.refuted, left) => (.unsat, left)
      | (.eliminated, left) =>
          have : left.vars.length < s.vars.length := by
            simpa [he] using vars_eliminate_lt h
          eliminateAll left
termination_by s.vars.length

/-- Decide satisfiability by elimination.  A working formula with the empty clause is
unsatisfiable as it is. -/
def solve (s : Elimination) : Solution × Elimination :=
  if s.working.toList.any Clause.isEmpty then (.unsat, s) else s.eliminateAll

/-- The log since it was last taken, and the solver without it. -/
def takeLog (s : Elimination) : List LogEntry × Elimination :=
  let (events, journal) := s.journal.take
  (events.map Event.entry, { s with journal })

end Elimination

end Clausal
