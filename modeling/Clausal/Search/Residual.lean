import Clausal.Search.Rules

/-!
# Search on simplified formulas

The search as a textbook tells it, on an explicit list of clauses.  Making a literal
true removes the clauses that hold it and removes its complement from the others.  The
empty clause is a conflict, and an empty list is a success.  The rules, the counters and
the log are those of `Clausal.Search.Rules`: unit clauses first, in order, then pure
literals and then branches, by least variable, true before false.

It ends because a literal that is made true takes its variable away
(`Residual.vars_assign_lt`).
-/

namespace Clausal

/-- A simplified formula and the literals that were made true for it, newest first. -/
structure Residual where
  /-- What is left of the clauses. -/
  clauses : List Clause
  /-- The literals made true. -/
  trail : List Literal

/-- The clause without a literal. -/
def Clause.erase (c : Clause) (l : Literal) : Clause :=
  ⟨c.literals.filter fun m => m != l, c.ascending.filter _⟩

@[simp] theorem Clause.mem_erase {c : Clause} {l m : Literal} : m ∈ c.erase l ↔ m ∈ c ∧ m ≠ l := by
  have h : m ∈ c.erase l ↔ m ∈ c.literals.filter fun m => m != l := Iff.rfl
  rw [h, List.mem_filter, bne_iff_ne]
  exact Iff.rfl

namespace Residual

open Search (Status Forced Event)

/-- The formula before any step. -/
def start (f : Formula) : Residual := ⟨f.clauses, []⟩

/-- Make a literal true. -/
def assign (r : Residual) (l : Literal) : Residual where
  clauses := (r.clauses.filter fun c => !decide (l ∈ c)).map fun c => c.erase (-l)
  trail := l :: r.trail

/-- Where the search stands. -/
def status (r : Residual) : Status :=
  if r.clauses.any Clause.isEmpty then .conflict
  else if r.clauses.isEmpty then .satisfied
  else .undecided

/-- The literals that are left, clause by clause. -/
def literals (r : Residual) : List Literal := r.clauses.flatMap Clause.literals

/-- The variables that are left, in ascending order. -/
def vars (r : Residual) : List Variable := Ascending.ofList (r.literals.map Literal.var)

/-- The literal of the first clause that has no other. -/
def unitLiteral? (r : Residual) : Option Literal :=
  (r.clauses.find? fun c => c.size == 1).bind fun c => c.literals.head?

/-- The literal of a variable that is left, if its complement is not. -/
def pureOver? (ls : List Literal) (v : Variable) : Option Literal :=
  match decide (⟨v, true⟩ ∈ ls), decide (⟨v, false⟩ ∈ ls) with
  | true, false => some ⟨v, true⟩
  | false, true => some ⟨v, false⟩
  | _, _ => none

/-- The pure literal of the least variable. -/
def pureLiteral? (r : Residual) : Option Literal := r.vars.findSome? (pureOver? r.literals)

/-- The next step that needs no decision. -/
def forced? (r : Residual) : Option Forced :=
  match r.unitLiteral? with
  | some l => some (.unit l)
  | none => r.pureLiteral?.map .pure

/-- The variable to branch on. -/
def branch? (r : Residual) : Option Variable := r.vars.head?

/-! ### Variables that are left -/

theorem mem_vars {r : Residual} {v : Variable} :
    v ∈ r.vars ↔ ∃ c ∈ r.clauses, ∃ l ∈ c, l.var = v := by
  simp only [vars, literals, Ascending.mem_ofList, List.mem_map, List.mem_flatMap,
    Clause.mem_literals]
  constructor
  · rintro ⟨l, ⟨c, hc, hl⟩, hv⟩
    exact ⟨c, hc, l, hl, hv⟩
  · rintro ⟨c, hc, l, hl, hv⟩
    exact ⟨l, ⟨c, hc, hl⟩, hv⟩

/-- Making a literal true brings in no variable and takes its own away. -/
theorem mem_vars_of_assign {r : Residual} {l : Literal} {v : Variable}
    (h : v ∈ (r.assign l).vars) : v ∈ r.vars ∧ v ≠ l.var := by
  obtain ⟨d, hd, m, hm, rfl⟩ := mem_vars.mp h
  obtain ⟨c, hc, rfl⟩ := List.mem_map.mp hd
  obtain ⟨hcr, hcl⟩ := List.mem_filter.mp hc
  obtain ⟨hmc, hne⟩ := Clause.mem_erase.mp hm
  refine ⟨mem_vars.mpr ⟨c, hcr, m, hmc, rfl⟩, fun hv => ?_⟩
  cases Literal.eq_or_eq_neg hv with
  | inl he => subst he; simp [hmc] at hcl
  | inr he => exact hne he

/-- Making a literal of a variable that is left true leaves fewer variables. -/
theorem vars_assign_lt {r : Residual} {l : Literal} (h : l.var ∈ r.vars) :
    (r.assign l).vars.length < r.vars.length := by
  have hsub : l.var :: (r.assign l).vars ⊆ r.vars := by
    intro v hv
    cases List.mem_cons.mp hv with
    | inl he => exact he ▸ h
    | inr hv => exact (mem_vars_of_assign hv).1
  have hnodup : (l.var :: (r.assign l).vars).Nodup :=
    List.nodup_cons.mpr ⟨fun hv => (mem_vars_of_assign hv).2 rfl,
      (Ascending.ofList_ascending _).nodup⟩
  have hle := hnodup.length_le_of_subset hsub
  rw [List.length_cons] at hle
  exact hle

theorem mem_vars_of_unitLiteral? {r : Residual} {l : Literal} (h : r.unitLiteral? = some l) :
    l.var ∈ r.vars := by
  obtain ⟨c, hc, hl⟩ := Option.bind_eq_some_iff.mp h
  exact mem_vars.mpr ⟨c, List.mem_of_find?_eq_some hc, l, List.mem_of_mem_head? hl, rfl⟩

theorem mem_vars_of_pureLiteral? {r : Residual} {l : Literal} (h : r.pureLiteral? = some l) :
    l.var ∈ r.vars := by
  obtain ⟨v, hv, hl⟩ := List.exists_of_findSome?_eq_some h
  unfold pureOver? at hl
  split at hl <;> cases hl <;> exact hv

/-- The literal of a step that needs no decision. -/
def literal : Forced → Literal
  | .unit l => l
  | .pure l => l

theorem mem_vars_of_forced? {r : Residual} {step : Forced} (h : r.forced? = some step) :
    (literal step).var ∈ r.vars := by
  unfold forced? at h
  split at h
  · next hl => cases h; exact mem_vars_of_unitLiteral? hl
  · obtain ⟨l, hl, rfl⟩ := Option.map_eq_some_iff.mp h
    exact mem_vars_of_pureLiteral? hl

/-! ### Propagation and branching -/

/-- A step that needs no decision is one event, and one step of its kind. -/
def noteForced (j : Journal Event) : Forced → Journal Event
  | .unit l =>
      { stats := { j.stats with propagations := j.stats.propagations + 1 },
        events := j.events.push (.unit l) }
  | .pure l =>
      { stats := { j.stats with pureLiterals := j.stats.pureLiterals + 1 },
        events := j.events.push (.pure l) }

/-- A decision below `depth` others is one event, and one decision. -/
def noteDecision (j : Journal Event) (l : Literal) (depth : Nat) : Journal Event :=
  { stats := { j.stats with decisions := j.stats.decisions + 1 },
    events := j.events.push (.decide l depth) }

/-- A conflict is counted, and is no event. -/
def noteConflict (j : Journal Event) : Journal Event :=
  { j with stats := { j.stats with conflicts := j.stats.conflicts + 1 } }

/-- Take forced steps until the formula is decided or there is none. -/
def propagate (r : Residual) (j : Journal Event) : Status × Residual × Journal Event :=
  match r.status with
  | .satisfied => (.satisfied, r, j)
  | .conflict => (.conflict, r, j)
  | .undecided =>
      match h : r.forced? with
      | none => (.undecided, r, j)
      | some step =>
          have : (r.assign (literal step)).vars.length < r.vars.length :=
            vars_assign_lt (mem_vars_of_forced? h)
          propagate (r.assign (literal step)) (noteForced j step)
termination_by r.vars.length

/-- Propagation leaves no more variables. -/
theorem vars_propagate_le (r : Residual) (j : Journal Event) :
    (r.propagate j).2.1.vars.length ≤ r.vars.length := by
  fun_induction propagate r j with
  | case1 => exact Nat.le_refl _
  | case2 => exact Nat.le_refl _
  | case3 => exact Nat.le_refl _
  | case4 r j _ step h hlt ih => exact Nat.le_trans ih (Nat.le_of_lt hlt)

/-- Search below `depth` decisions.  Success comes with the simplified formula that it
ends in. -/
def explore (depth : Nat) (r : Residual) (j : Journal Event) :
    Option Residual × Journal Event :=
  match hp : r.propagate j with
  | (.satisfied, s, k) => (some s, k)
  | (.conflict, _, k) => (none, noteConflict k)
  | (.undecided, s, k) =>
      match hb : s.branch? with
      | none => (none, k)
      | some v =>
          have hs : s.vars.length ≤ r.vars.length := by
            simpa [hp] using vars_propagate_le r j
          have hv : v ∈ s.vars := List.mem_of_mem_head? hb
          have htrue : (s.assign ⟨v, true⟩).vars.length < r.vars.length :=
            Nat.lt_of_lt_of_le (vars_assign_lt hv) hs
          have hfalse : (s.assign ⟨v, false⟩).vars.length < r.vars.length :=
            Nat.lt_of_lt_of_le (vars_assign_lt hv) hs
          match explore (depth + 1) (s.assign ⟨v, true⟩) (noteDecision k ⟨v, true⟩ depth) with
          | (some found, k) => (some found, k)
          | (none, k) =>
              explore (depth + 1) (s.assign ⟨v, false⟩) (noteDecision k ⟨v, false⟩ depth)
termination_by r.vars.length

end Residual

end Clausal
