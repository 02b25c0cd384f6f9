import Clausal.Proofs.Search.Choice
import Clausal.Proofs.Search.Trail

/-!
# Counting and simplifying

The state along a trail keeps every clause and counts its true and its false literals.  The
simplified formula along the same trail keeps the clauses without a true literal, and of these
the literals that are not false.  The two say the same of the next step: where the search
stands (`status_along`), which step is forced (`forced?_along`) and which variable to branch on
(`branch?_along`).

Simplifying by one more literal is simplifying along the longer trail if the variable is new
(`Residual.assign_along`).  A clause that is a tautology stays open until one of its two
literals of a variable is true, and only then does it lose the other, so the two views agree on
tautologies as on any other clause.
-/

namespace Clausal

variable {f : Formula} {t : List Literal} {l : Literal} {c : Clause} {v : Variable}

/-! ## Simplifying along a trail -/

/-- No literal of the clause is on the trail. -/
def Clause.isOpenUnder (t : List Literal) (c : Clause) : Bool :=
  c.literals.all fun l => !decide (l ∈ t)

/-- The literals of the clause whose complement is not on the trail. -/
def Clause.remaining (t : List Literal) (c : Clause) : Clause :=
  ⟨c.literals.filter fun l => !decide (-l ∈ t), c.ascending.filter _⟩

/-- No literal of the clause is on the trail, and all but one are false by it. -/
def Clause.isUnitUnder (t : List Literal) (c : Clause) : Bool :=
  c.isOpenUnder t && (c.remaining t).size == 1

/-- The formula simplified by the literals of a trail. -/
def Residual.along (f : Formula) (t : List Literal) : Residual where
  clauses := (f.clauses.filter (Clause.isOpenUnder t)).map (Clause.remaining t)
  trail := t

theorem Clause.isOpenUnder_iff : c.isOpenUnder t = true ↔ ∀ l ∈ c, l ∉ t := by
  simp [isOpenUnder, Clause.mem_literals]

theorem Clause.mem_remaining : l ∈ c.remaining t ↔ l ∈ c ∧ -l ∉ t := by
  have h : l ∈ c.remaining t ↔ l ∈ c.literals.filter fun l => !decide (-l ∈ t) := Iff.rfl
  rw [h, List.mem_filter, Clause.mem_literals]
  simp

/-- The simplified formula has what is left of the clauses without a true literal. -/
theorem Residual.mem_along {d : Clause} : d ∈ (along f t).clauses ↔
    ∃ c ∈ f.clauses, c.isOpenUnder t = true ∧ c.remaining t = d := by
  simp only [along, List.mem_map, List.mem_filter, and_assoc]

theorem Residual.start_eq_along (f : Formula) : start f = along f [] := by
  have hopen : f.clauses.filter (Clause.isOpenUnder []) = f.clauses :=
    List.filter_eq_self.mpr fun c _ => Clause.isOpenUnder_iff.mpr fun l _ => List.not_mem_nil
  have hall : Clause.remaining [] = id := by
    funext c
    exact Clause.ext_mem fun l => by simp [Clause.mem_remaining]
  rw [start, along, hopen, hall, List.map_id]

/-- A clause without a true literal stays so if the next literal is not left in it. -/
theorem Clause.isOpenUnder_cons (hn : -l ∉ t) :
    (c.isOpenUnder t && !decide (l ∈ c.remaining t)) = c.isOpenUnder (l :: t) := by
  rw [Bool.eq_iff_iff]
  simp only [Bool.and_eq_true, Bool.not_eq_true', decide_eq_false_iff_not, isOpenUnder_iff,
    mem_remaining, List.mem_cons, not_or]
  constructor
  · intro ⟨hc, hl⟩ m hm
    exact ⟨fun he => hl ⟨he ▸ hm, hn⟩, hc m hm⟩
  · intro h
    exact ⟨fun m hm => (h m hm).2, fun hl => (h l hl.1).1 rfl⟩

/-- Making one more literal true takes its complement out of what is left. -/
theorem Clause.remaining_cons : (c.remaining t).erase (-l) = c.remaining (l :: t) := by
  apply Clause.ext_mem
  intro m
  simp only [mem_erase, mem_remaining, List.mem_cons, not_or, Search.neg_eq_iff, and_assoc, ne_eq]
  exact and_congr_right fun _ => and_comm

/-- Making a literal of a new variable true is simplifying along the longer trail. -/
theorem Residual.assign_along (hv : ∀ m ∈ t, m.var ≠ l.var) :
    (along f t).assign l = along f (l :: t) := by
  have hn : -l ∉ t := fun hm => hv _ hm rfl
  have hopen : (fun c : Clause => c.isOpenUnder t && !decide (l ∈ c.remaining t)) =
      Clause.isOpenUnder (l :: t) := by
    funext c
    exact Clause.isOpenUnder_cons hn
  have hrest : (fun c : Clause => c.erase (-l)) ∘ Clause.remaining t =
      Clause.remaining (l :: t) := by
    funext c
    exact Clause.remaining_cons
  simp only [assign, along, List.filter_map, List.map_map, List.filter_filter, hrest]
  rw [← hopen]
  simp only [Function.comp_apply, Bool.and_comm]

/-- The variables that are left occur in the formula and not on the trail. -/
theorem Residual.mem_vars_along (h : v ∈ (along f t).vars) :
    v ∈ f.vars ∧ ∀ m ∈ t, m.var ≠ v := by
  obtain ⟨d, hd, l, hl, rfl⟩ := mem_vars.mp h
  obtain ⟨c, hc, hopen, rfl⟩ := mem_along.mp hd
  obtain ⟨hlc, hn⟩ := Clause.mem_remaining.mp hl
  refine ⟨Formula.mem_vars.mpr ⟨c, hc, l, hlc, rfl⟩, fun m hm hv => ?_⟩
  rcases Literal.eq_or_eq_neg hv with he | he
  · exact Clause.isOpenUnder_iff.mp hopen l hlc (he ▸ hm)
  · exact hn (he ▸ hm)

namespace Search

variable {j : Journal Event} {ls : List Literal}

/-! ## Rows -/

theorem isOpen_tally : (tally t t c).isOpen = c.isOpenUnder t := by
  rw [Bool.eq_iff_iff, Clause.isOpenUnder_iff]
  simp [Row.isOpen, tally, List.countP_eq_zero, Clause.mem_literals]

/-- Every literal of a clause is false or left. -/
theorem falsified_add_size_remaining :
    (tally t t c).falsified + (c.remaining t).size = c.size := by
  show c.literals.countP (fun m => decide (-m ∈ t)) +
    (c.literals.filter fun m => !decide (-m ∈ t)).length = c.literals.length
  rw [← List.countP_eq_length_filter, List.length_eq_countP_add_countP fun m => decide (-m ∈ t)]
  simp only [Bool.not_eq_true, Bool.decide_eq_false]

/-- A clause has false literals only if nothing is left of it. -/
theorem isFalsified_tally : (tally t t c).isFalsified = (c.remaining t).isEmpty := by
  have hsize := falsified_add_size_remaining (t := t) (c := c)
  rw [Bool.eq_iff_iff, Row.isFalsified, beq_iff_eq, Clause.isEmpty, List.isEmpty_iff,
    ← List.length_eq_zero_iff]
  show (tally t t c).falsified = c.size ↔ (c.remaining t).size = 0
  omega

theorem isUnit_tally : (tally t t c).isUnit = c.isUnitUnder t := by
  have hsize := falsified_add_size_remaining (t := t) (c := c)
  rw [Row.isUnit, isOpen_tally, Clause.isUnitUnder]
  congr 1
  rw [Bool.eq_iff_iff, beq_iff_eq, beq_iff_eq]
  show (tally t t c).falsified + 1 = c.size ↔ _
  omega

/-- A clause whose literals are all false has no true one, if the trail does not hold both
literals of a variable. -/
theorem Fits.isOpenUnder_of_isFalsified (h : Fits f t) (hc : (tally t t c).isFalsified = true) :
    c.isOpenUnder t = true := by
  rw [isFalsified_tally, Clause.isEmpty_iff] at hc
  refine Clause.isOpenUnder_iff.mpr fun l hl hm => ?_
  have hnone : l ∉ c.remaining t := hc ▸ Clause.not_mem_empty
  exact hnone (Clause.mem_remaining.mpr ⟨hl, h.not_mem_neg hm⟩)

/-- Where the search stands can be read off the simplified formula. -/
theorem status_along (h : Fits f t) : (along f t j).status = (Residual.along f t).status := by
  have hconflict : 0 < (along f t j).falsifiedClauses ↔
      (Residual.along f t).clauses.any Clause.isEmpty = true := by
    show 0 < (f.clauses.map (tally t t)).countP Row.isFalsified ↔ _
    rw [List.countP_map, List.countP_pos_iff, List.any_eq_true]
    constructor
    · intro ⟨c, hc, hr⟩
      have hopen := h.isOpenUnder_of_isFalsified hr
      exact ⟨_, Residual.mem_along.mpr ⟨c, hc, hopen, rfl⟩, isFalsified_tally.symm.trans hr⟩
    · intro ⟨d, hd, he⟩
      obtain ⟨c, hc, _, rfl⟩ := Residual.mem_along.mp hd
      exact ⟨c, hc, isFalsified_tally.trans he⟩
  have hsatisfied : (along f t j).satisfiedClauses = (along f t j).rows.size ↔
      (Residual.along f t).clauses.isEmpty = true := by
    show (f.clauses.map (tally t t)).countP (fun r => !r.isOpen) =
      (f.clauses.map (tally t t)).length ↔ _
    rw [List.countP_eq_length, List.forall_mem_map, Residual.along, List.isEmpty_iff,
      List.map_eq_nil_iff, List.filter_eq_nil_iff]
    simp only [isOpen_tally, Bool.not_eq_true', Bool.not_eq_true]
  simp only [status, Residual.status, hconflict, hsatisfied]

/-! ## Literals without a value -/

theorem value_along (hv : v.index < tableWidth f.clauses) :
    (along f t j).value v = .ok (valueAt t v.index) := by
  have hget : (along f t j).values.values[v.index]? = some (valueAt t v.index) := by
    show (Array.ofFn fun i : Fin (tableWidth f.clauses) => valueAt t i)[v.index]? = _
    rw [Array.getElem?_ofFn, dif_pos hv]
  rw [value, hget]

/-- A trail gives no value to the variables that it has no literal of. -/
theorem valueAt_eq_none_iff : valueAt t v.index = none ↔ ∀ m ∈ t, m.var ≠ v := by
  rw [valueAt, Option.map_eq_none_iff, List.find?_eq_none]
  refine forall₂_congr fun m _ => not_congr ?_
  rw [beq_iff_eq]
  exact ⟨Variable.eq_of_index_eq, congrArg Variable.index⟩

/-- A literal of an open clause has no value unless it is false. -/
theorem isNone_valueAt (hl : l ∉ t) : (valueAt t l.var.index).isNone = !decide (-l ∈ t) := by
  rw [Bool.eq_iff_iff, valueAt, Option.isNone_iff_eq_none, Option.map_eq_none_iff,
    List.find?_eq_none, Bool.not_eq_true', decide_eq_false_iff_not]
  constructor
  · intro h hn
    exact h _ hn (beq_self_eq_true _)
  · intro hn m hm he
    rcases Literal.eq_or_eq_neg (Variable.eq_of_index_eq (beq_iff_eq.mp he)) with he | he
    · exact hl (he ▸ hm)
    · exact hn (he ▸ hm)

theorem unassigned_along : ∀ {ls : List Literal}, (∀ l ∈ ls, l.var.index < tableWidth f.clauses) →
    (along f t j).unassigned ls = .ok (ls.filter fun l => (valueAt t l.var.index).isNone)
  | [], _ => rfl
  | l :: ls, h => by
      rw [unassigned, value_along (h l List.mem_cons_self), ok_bind,
        unassigned_along fun m hm => h m (List.mem_cons_of_mem _ hm), ok_bind, List.filter_cons]
      rfl

/-- What is left of an open clause are its literals over variables without a value. -/
theorem filter_isNone (hc : c.isOpenUnder t = true) :
    (c.literals.filter fun l => (valueAt t l.var.index).isNone) = (c.remaining t).literals :=
  List.filter_congr fun l hl => isNone_valueAt (Clause.isOpenUnder_iff.mp hc l hl)

/-- The remaining literals of the open clauses are those of the simplified formula. -/
theorem openLiterals_along :
    (along f t j).openLiterals = .ok (Residual.along f t).literals := by
  have hrows : (((along f t j).rows.toList.filter Row.isOpen).flatMap fun r => r.clause.literals) =
      (f.clauses.filter (Clause.isOpenUnder t)).flatMap Clause.literals := by
    have hopen : Row.isOpen ∘ tally t t = Clause.isOpenUnder t := by
      funext c
      exact isOpen_tally
    show ((f.clauses.map (tally t t)).filter Row.isOpen).flatMap _ = _
    rw [List.filter_map, hopen, List.flatMap_map]
    rfl
  rw [openLiterals, hrows, unassigned_along]
  · rw [List.filter_flatMap, Residual.literals, Residual.along, List.flatMap_map,
      List.flatMap_def, List.flatMap_def]
    congr 2
    exact List.map_congr_left fun c hc => filter_isNone (List.mem_filter.mp hc).2
  · intro l hl
    obtain ⟨c, hc, hlc⟩ := List.mem_flatMap.mp hl
    exact index_lt_tableWidth (List.mem_filter.mp hc).1 hlc

/-! ## The next step -/

/-- The first unit clause is that of the simplified formula, and so is its literal. -/
theorem unitLiteral?_along :
    (along f t j).unitLiteral? = .ok (Residual.along f t).unitLiteral? := by
  have hrows : (along f t j).rows.find? Row.isUnit =
      (f.clauses.find? (Clause.isUnitUnder t)).map (tally t t) := by
    have hunit : Row.isUnit ∘ tally t t = Clause.isUnitUnder t := by
      funext c
      exact isUnit_tally
    show (f.clauses.map (tally t t)).toArray.find? Row.isUnit = _
    rw [List.find?_toArray, List.find?_map, hunit]
  have hclauses : ((Residual.along f t).clauses.find? fun c => c.size == 1) =
      (f.clauses.find? (Clause.isUnitUnder t)).map (Clause.remaining t) := by
    rw [Residual.along, List.find?_map, List.find?_filter]
    simp only [Function.comp_apply, Bool.decide_and, Bool.decide_eq_true]
    rfl
  rw [unitLiteral?, Residual.unitLiteral?, hrows, hclauses]
  cases hfind : f.clauses.find? (Clause.isUnitUnder t) with
  | none => rfl
  | some c =>
      have hc : c ∈ f.clauses := List.mem_of_find?_eq_some hfind
      have hunit : c.isUnitUnder t = true := List.find?_some hfind
      have hopen : c.isOpenUnder t = true := (Bool.and_eq_true_iff.mp hunit).1
      show ((along f t j).unassigned c.literals).map List.head? = .ok (c.remaining t).literals.head?
      rw [unassigned_along fun l hl => index_lt_tableWidth hc hl, filter_isNone hopen]
      rfl

theorem index_lt_of_mem_literals (hl : l ∈ (Residual.along f t).literals) :
    l.var.index < tableWidth f.clauses := by
  have hv : l.var ∈ (Residual.along f t).vars := Ascending.mem_ofList.mpr (List.mem_map_of_mem hl)
  exact index_lt_of_mem_vars (Residual.mem_vars_along hv).1

/-- The forced step is that of the simplified formula. -/
theorem forced?_along : (along f t j).forced? = .ok (Residual.along f t).forced? := by
  have hsize : (along f t j).values.size = tableWidth f.clauses := size_valuesAlong _ t
  rw [forced?, unitLiteral?_along, ok_bind, Residual.forced?]
  cases (Residual.along f t).unitLiteral? with
  | some l => rfl
  | none =>
      show (along f t j).openLiterals >>= _ = _
      rw [openLiterals_along, ok_bind, hsize, pureLiteral?_eq fun l => index_lt_of_mem_literals]
      rfl

/-- The variable to branch on is that of the simplified formula. -/
theorem branch?_along : (along f t j).branch? = .ok (Residual.along f t).branch? := by
  rw [branch?, openLiterals_along, ok_bind, leastVariable?_eq]
  rfl

end Search

end Clausal
