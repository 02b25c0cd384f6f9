import Clausal.Search.State

/-!
# The table of occurrences

The table lists for every literal the rows of the clauses that hold it, in order and each of
them once (`rows?_ofClauses`).  Both literals of a variable have their list, so a tautology
is in two lists of one variable, once in each.

The variables of a formula have entries, since the table reaches to the greatest variable
that occurs (`index_lt_of_mem_vars`), and the declared variables are no fewer
(`tableWidth_le_numVariables`).
-/

namespace Clausal

theorem Formula.mem_vars {f : Formula} {v : Variable} :
    v ∈ f.vars ↔ ∃ c ∈ f.clauses, ∃ l ∈ c, l.var = v := by
  simp only [vars, Ascending.mem_ofList, List.mem_flatMap, List.mem_map, Clause.mem_literals]

namespace Search

/-! ## The width of the tables -/

theorem index_lt_tableWidth {cs : List Clause} {c : Clause} {l : Literal} (hc : c ∈ cs)
    (hl : l ∈ c) : l.var.index < tableWidth cs := by
  have hneeded := Formula.id_le_variablesNeeded hl
  have hcovers : Formula.variablesNeeded c ≤ tableWidth cs := Formula.foldl_max_covers 0 hc
  have hindex := l.var.index_add_one
  omega

theorem index_lt_of_mem_vars {f : Formula} {v : Variable} (h : v ∈ f.vars) :
    v.index < tableWidth f.clauses := by
  obtain ⟨c, hc, l, hl, rfl⟩ := Formula.mem_vars.mp h
  exact index_lt_tableWidth hc hl

theorem variablesNeeded_le_numVariables {f : Formula} {c : Clause} (hc : c ∈ f.clauses) :
    Formula.variablesNeeded c ≤ f.numVariables :=
  Formula.variablesNeeded_le_iff.mpr (f.covers c hc)

theorem tableWidth_le_numVariables (f : Formula) : tableWidth f.clauses ≤ f.numVariables :=
  Formula.foldl_max_le_iff.mpr ⟨Nat.zero_le _, fun _ hc => variablesNeeded_le_numVariables hc⟩

/-! ## Filling the table -/

namespace Occurrences

variable {o : Occurrences} {l m : Literal} {i width : Nat}

theorem rows?_blank (h : l.var.index < width) : (blank width).rows? l = some #[] := by
  rw [rows?, blank]
  split
  · simp [h]
  · simp [h]

/-- A row that is added for a literal goes to the list of that literal and to no other. -/
theorem rows?_add :
    (o.add i m).rows? l = if l = m then (o.rows? l).map (·.push i) else o.rows? l := by
  by_cases hv : m.var.index = l.var.index
  · have hvar : m.var = l.var := Variable.eq_of_index_eq hv
    cases l with
    | mk u p =>
        cases m with
        | mk v q =>
            cases hvar
            cases p <;> cases q <;> simp [add, rows?, Array.getElem?_modify]
  · have hlm : l ≠ m := fun he => hv (he ▸ rfl)
    rw [if_neg hlm]
    cases hm : m.positive <;> cases hl : l.positive <;>
      simp [add, rows?, Array.getElem?_modify, hm, hl, hv]

/-- Entering a row number under distinct literals appends it to the list of each of them. -/
theorem rows?_foldl_add : ∀ {ls : List Literal} {o : Occurrences}, ls.Nodup →
    (ls.foldl (fun o l => o.add i l) o).rows? l =
      if l ∈ ls then (o.rows? l).map (·.push i) else o.rows? l
  | [], o, _ => by simp
  | m :: ls, o, h => by
      obtain ⟨hm, hls⟩ := List.nodup_cons.mp h
      rw [List.foldl_cons, rows?_foldl_add hls, rows?_add]
      by_cases hlm : l = m
      · subst hlm
        simp [hm]
      · simp [hlm]

theorem rows?_addClause (c : Clause × Nat) : (o.addClause c).rows? l =
    if l ∈ c.1 then (o.rows? l).map (·.push c.2) else o.rows? l :=
  rows?_foldl_add c.1.ascending.nodup

/-- The numbers of the clauses that hold a literal. -/
def numbersOf (l : Literal) (cs : List (Clause × Nat)) : List Nat :=
  (cs.filter fun c => decide (l ∈ c.1)).map Prod.snd

theorem numbersOf_cons (l : Literal) (c : Clause) (i : Nat) (cs : List (Clause × Nat)) :
    numbersOf l ((c, i) :: cs) = if l ∈ c then i :: numbersOf l cs else numbersOf l cs := by
  by_cases h : l ∈ c
  · simp [numbersOf, h]
  · simp [numbersOf, h]

/-- Entering the clauses one after the other appends to each list the numbers of the clauses that
hold its literal, in order. -/
theorem rows?_foldl_addClause : ∀ {cs : List (Clause × Nat)} {o : Occurrences} {is : List Nat},
    o.rows? l = some is.toArray →
      (cs.foldl addClause o).rows? l = some (is ++ numbersOf l cs).toArray
  | [], o, is, h => by
      rw [numbersOf, List.filter_nil, List.map_nil, List.append_nil]
      exact h
  | (c, i) :: cs, o, is, h => by
      rw [List.foldl_cons, numbersOf_cons]
      by_cases hc : l ∈ c
      · have hpush : (o.addClause (c, i)).rows? l = some (is ++ [i]).toArray := by
          rw [rows?_addClause, if_pos hc, h]
          simp
        rw [rows?_foldl_addClause hpush, if_pos hc, List.append_assoc]
        rfl
      · have hsame : (o.addClause (c, i)).rows? l = some is.toArray := by
          rw [rows?_addClause, if_neg hc, h]
        rw [rows?_foldl_addClause hsame, if_neg hc]

/-- The table lists for every literal the rows of the clauses that hold it. -/
theorem rows?_ofClauses {cs : List Clause} (h : l.var.index < width) :
    (ofClauses width cs).rows? l = some (numbersOf l cs.zipIdx).toArray := by
  have hfold : (cs.zipIdx.foldl addClause (blank width)).rows? l =
      some ([] ++ numbersOf l cs.zipIdx).toArray := rows?_foldl_addClause (rows?_blank h)
  rw [List.nil_append] at hfold
  exact hfold

end Occurrences

end Search

end Clausal
