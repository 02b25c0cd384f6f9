import Clausal.Clause

/-!
# Formulas

A formula is a conjunction of clauses together with a number of declared
variables.  The declared range covers every variable that occurs, and it may go
beyond them.  Clauses keep their order and may repeat.
-/

namespace Clausal

/-- A conjunction of clauses over a declared range of variables. -/
structure Formula where
  /-- The number of declared variables. -/
  numVariables : Nat
  /-- The clauses, in order. -/
  clauses : List Clause
  /-- The declared variables have numbers. -/
  numVariables_le : numVariables ≤ Variable.maxId
  /-- Every variable that occurs is declared. -/
  covers : ∀ c ∈ clauses, ∀ l ∈ c, l.var.id ≤ numVariables

namespace Formula

/-- The number of variables that a clause needs. -/
def variablesNeeded (c : Clause) : Nat :=
  match c.greatestVariable? with
  | none => 0
  | some v => v.id

theorem id_le_variablesNeeded {c : Clause} {l : Literal} (hl : l ∈ c) :
    l.var.id ≤ variablesNeeded c := by
  unfold variablesNeeded
  split
  · next h =>
      rw [Clause.greatestVariable?_eq_none] at h
      subst h
      exact absurd hl Clause.not_mem_empty
  · next h => exact Clause.id_le_of_greatestVariable? h hl

theorem variablesNeeded_le (c : Clause) : variablesNeeded c ≤ Variable.maxId := by
  unfold variablesNeeded
  split
  · exact Nat.zero_le _
  · next v _ => exact v.id_le_maxId

/-- The number needed is that of a variable that occurs, unless it is zero. -/
theorem variablesNeeded_attained (c : Clause) :
    variablesNeeded c = 0 ∨ ∃ l ∈ c, l.var.id = variablesNeeded c := by
  cases h : c.greatestVariable? with
  | none => exact .inl (by rw [variablesNeeded, h])
  | some v =>
      obtain ⟨l, hl, rfl⟩ := Option.map_eq_some_iff.mp h
      exact .inr ⟨l, List.mem_of_getLast? hl, by rw [variablesNeeded, h]⟩

theorem variablesNeeded_le_iff {c : Clause} {n : Nat} :
    variablesNeeded c ≤ n ↔ ∀ l ∈ c, l.var.id ≤ n := by
  constructor
  · exact fun h l hl => Nat.le_trans (id_le_variablesNeeded hl) h
  · intro h
    obtain h0 | ⟨l, hl, hid⟩ := variablesNeeded_attained c
    · exact h0 ▸ Nat.zero_le n
    · exact hid ▸ h l hl

/-! ### Building -/

/-- The formula without clauses over `n` variables. -/
def empty (n : Nat) (h : n ≤ Variable.maxId) : Formula :=
  ⟨n, [], h, fun _ hc => absurd hc List.not_mem_nil⟩

/-- The formula without clauses over `n` variables, if there are that many. -/
def empty? (n : Nat) : Option Formula :=
  if h : n ≤ Variable.maxId then some (empty n h) else none

theorem foldl_max_le_iff {cs : List Clause} : ∀ {n k : Nat},
    cs.foldl (fun n c => max n (variablesNeeded c)) n ≤ k ↔
      n ≤ k ∧ ∀ c ∈ cs, variablesNeeded c ≤ k := by
  induction cs with
  | nil => simp
  | cons c cs ih =>
      intro n k
      rw [List.foldl_cons, ih, Nat.max_le, List.forall_mem_cons, and_assoc]

theorem foldl_max_ge (cs : List Clause) (n : Nat) :
    n ≤ cs.foldl (fun n c => max n (variablesNeeded c)) n :=
  (foldl_max_le_iff.mp (Nat.le_refl _)).1

theorem foldl_max_covers {c : Clause} {cs : List Clause} (n : Nat) (h : c ∈ cs) :
    variablesNeeded c ≤ cs.foldl (fun n c => max n (variablesNeeded c)) n :=
  (foldl_max_le_iff.mp (Nat.le_refl _)).2 c h

theorem foldl_max_le (cs : List Clause) {n : Nat} (h : n ≤ Variable.maxId) :
    cs.foldl (fun n c => max n (variablesNeeded c)) n ≤ Variable.maxId :=
  foldl_max_le_iff.mpr ⟨h, fun c _ => variablesNeeded_le c⟩

theorem foldl_max_attained {cs : List Clause} : ∀ {n : Nat},
    cs.foldl (fun n c => max n (variablesNeeded c)) n = n ∨
      ∃ c ∈ cs, variablesNeeded c = cs.foldl (fun n c => max n (variablesNeeded c)) n := by
  induction cs with
  | nil => exact .inl rfl
  | cons c cs ih =>
      intro n
      rw [List.foldl_cons]
      obtain hmax | ⟨d, hd, hmax⟩ := @ih (max n (variablesNeeded c))
      · rw [hmax]
        obtain h | h := Nat.le_total n (variablesNeeded c)
        · exact .inr ⟨c, List.mem_cons_self, (Nat.max_eq_right h).symm⟩
        · exact .inl (Nat.max_eq_left h)
      · exact .inr ⟨d, List.mem_cons_of_mem c hd, hmax⟩

/-- Add clauses at the end, widening the declared range where they need it. -/
def addAll (f : Formula) (cs : List Clause) : Formula where
  numVariables := cs.foldl (fun n c => max n (variablesNeeded c)) f.numVariables
  clauses := f.clauses ++ cs
  numVariables_le := foldl_max_le cs f.numVariables_le
  covers := by
    intro c hc l hl
    cases List.mem_append.mp hc with
    | inl hf => exact Nat.le_trans (f.covers c hf l hl) (foldl_max_ge cs _)
    | inr hs => exact Nat.le_trans (id_le_variablesNeeded hl) (foldl_max_covers _ hs)

/-- Clauses over declared variables do not widen the declared range. -/
theorem numVariables_addAll {f : Formula} {cs : List Clause}
    (h : ∀ c ∈ cs, variablesNeeded c ≤ f.numVariables) :
    (f.addAll cs).numVariables = f.numVariables :=
  Nat.le_antisymm (foldl_max_le_iff.mpr ⟨Nat.le_refl _, h⟩) (foldl_max_ge cs _)

/-- Add one clause at the end. -/
def add (f : Formula) (c : Clause) : Formula := f.addAll [c]

/-- The formula of some clauses, over as many variables as they need. -/
def ofClauses (cs : List Clause) : Formula := (empty 0 (Nat.zero_le _)).addAll cs

/-! ### Views -/

/-- Whether there is no clause. -/
def isEmpty (f : Formula) : Bool := f.clauses.isEmpty

/-- Whether a clause without literals is among the clauses. -/
def hasEmptyClause (f : Formula) : Bool := f.clauses.any Clause.isEmpty

/-- The variables that occur in a clause, in ascending order. -/
def vars (f : Formula) : List Variable :=
  Ascending.ofList (f.clauses.flatMap fun c => c.literals.map Literal.var)

/-- A formula is shown as its number of variables and its clauses with `∧` between
them, in parentheses. -/
def text (f : Formula) : String :=
  "CNF with " ++ toString f.numVariables ++ " variables (" ++
    String.intercalate " ∧ " (f.clauses.map Clause.text) ++ ")"

@[simp] theorem clauses_addAll (f : Formula) (cs : List Clause) :
    (f.addAll cs).clauses = f.clauses ++ cs := rfl

@[simp] theorem clauses_ofClauses (cs : List Clause) : (ofClauses cs).clauses = cs := rfl

@[simp] theorem clauses_empty (n : Nat) (h : n ≤ Variable.maxId) : (empty n h).clauses = [] := rfl

theorem eq_of_fields {f g : Formula} (hn : f.numVariables = g.numVariables)
    (hc : f.clauses = g.clauses) : f = g := by
  cases f; cases g; cases hn; cases hc; rfl

theorem eq_iff {f g : Formula} :
    f = g ↔ f.numVariables = g.numVariables ∧ f.clauses = g.clauses :=
  ⟨fun h => h ▸ ⟨rfl, rfl⟩, fun h => eq_of_fields h.1 h.2⟩

instance : DecidableEq Formula := fun _ _ => decidable_of_iff _ eq_iff.symm

/-- Adding two lists one after the other adds their concatenation. -/
theorem addAll_append (f : Formula) (cs ds : List Clause) :
    f.addAll (cs ++ ds) = (f.addAll cs).addAll ds :=
  eq_of_fields (by simp [addAll, List.foldl_append]) (by simp)

/-- Adding a list is adding its clauses one by one. -/
theorem addAll_cons (f : Formula) (c : Clause) (cs : List Clause) :
    f.addAll (c :: cs) = (f.add c).addAll cs :=
  addAll_append f [c] cs

theorem foldl_add (f : Formula) (cs : List Clause) : cs.foldl add f = f.addAll cs := by
  induction cs generalizing f with
  | nil => exact eq_of_fields rfl (by simp)
  | cons c cs ih => rw [List.foldl_cons, ih, addAll_cons]

end Formula

end Clausal
