import Clausal.Ascending

/-!
# Variables and literals

A variable is named by a number from 1 to `Variable.maxId`.  A literal is a
variable with a polarity, written `-l` for the opposite polarity.  As an integer
a literal is the number of its variable, negated for the negative one.

Literals are ordered by variable first and polarity second, negative before
positive, so the two literals of a variable are neighbours.
-/

namespace Clausal

/-- The largest number that names a variable. -/
def Variable.maxId : Nat := 4294967295

/-- A propositional variable. -/
structure Variable where
  /-- The number that names the variable. -/
  id : Nat
  /-- Numbers start at one. -/
  one_le_id : 1 ≤ id
  /-- Numbers fit into 32 bits. -/
  id_le_maxId : id ≤ Variable.maxId
deriving DecidableEq

namespace Variable

/-- The variable of a number, if there is one. -/
def ofId? (n : Nat) : Option Variable :=
  if h : 1 ≤ n ∧ n ≤ maxId then some ⟨n, h.1, h.2⟩ else none

/-- The position of a variable in a table of all variables. -/
def index (v : Variable) : Nat := v.id - 1

/-- The variable at a position, if there is one. -/
def ofIndex? (i : Nat) : Option Variable := ofId? (i + 1)

/-- A variable is shown as `x` and its number. -/
def text (v : Variable) : String := "x" ++ toString v.id

/-- The first three variables. -/
def x1 : Variable := ⟨1, by decide, by decide⟩

@[inherit_doc x1]
def x2 : Variable := ⟨2, by decide, by decide⟩

@[inherit_doc x1]
def x3 : Variable := ⟨3, by decide, by decide⟩

theorem eq_of_id_eq {v w : Variable} (h : v.id = w.id) : v = w := by
  cases v; cases w; cases h; rfl

instance : Ranked Variable := ⟨Variable.id, eq_of_id_eq⟩

@[simp] theorem rank_eq (v : Variable) : Ranked.rank v = v.id := rfl

theorem ofId?_eq_some {n : Nat} {v : Variable} : ofId? n = some v ↔ v.id = n := by
  unfold ofId?
  split
  · next h =>
      constructor
      · intro he; cases he; rfl
      · intro he; exact congrArg some (eq_of_id_eq he.symm)
  · next h =>
      constructor
      · intro he; cases he
      · intro he; exact absurd ⟨he ▸ v.one_le_id, he ▸ v.id_le_maxId⟩ h

@[simp] theorem ofId?_id (v : Variable) : ofId? v.id = some v := ofId?_eq_some.mpr rfl

theorem ofId?_eq_none {n : Nat} : ofId? n = none ↔ n = 0 ∨ maxId < n := by
  unfold ofId?
  split
  · next h => simp; omega
  · next h => simp; omega

@[simp] theorem index_add_one (v : Variable) : v.index + 1 = v.id := by
  have := v.one_le_id
  unfold index
  omega

@[simp] theorem ofIndex?_index (v : Variable) : ofIndex? v.index = some v := by
  simp [ofIndex?]

theorem eq_of_index_eq {v w : Variable} (h : v.index = w.index) : v = w :=
  eq_of_id_eq (by rw [← index_add_one v, ← index_add_one w, h])

end Variable

/-- The variable of the smaller number. -/
instance : Min Variable := ⟨fun v w => if v.id ≤ w.id then v else w⟩

theorem Variable.foldl_min {vs : List Variable} : ∀ {v : Variable},
    (vs.foldl min v = v ∨ vs.foldl min v ∈ vs) ∧ (vs.foldl min v).id ≤ v.id ∧
      ∀ w ∈ vs, (vs.foldl min v).id ≤ w.id := by
  induction vs with
  | nil => simp
  | cons u vs ih =>
      intro v
      have hmin : min v u = if v.id ≤ u.id then v else u := rfl
      obtain ⟨hm, hv, hw⟩ := @ih (min v u)
      rw [List.foldl_cons]
      by_cases hvu : v.id ≤ u.id
      · rw [hmin, if_pos hvu] at hm hv hw ⊢
        refine ⟨hm.imp (fun he => he) (List.mem_cons_of_mem _), hv, fun w hw' => ?_⟩
        cases List.mem_cons.mp hw' with
        | inl he => subst he; exact Nat.le_trans hv hvu
        | inr h => exact hw w h
      · rw [hmin, if_neg hvu] at hm hv hw ⊢
        refine ⟨.inr ?_, by omega, fun w hw' => ?_⟩
        · cases hm with
          | inl he => rw [he]; exact List.mem_cons_self
          | inr h => exact List.mem_cons_of_mem _ h
        · cases List.mem_cons.mp hw' with
          | inl he => subst he; exact hv
          | inr h => exact hw w h

/-- The least variable of a list is one of its elements and below all of them. -/
theorem Variable.min?_spec {vs : List Variable} {v : Variable} (h : vs.min? = some v) :
    v ∈ vs ∧ ∀ w ∈ vs, v.id ≤ w.id := by
  cases vs with
  | nil => cases h
  | cons u vs =>
      rw [List.min?_cons', Option.some.injEq] at h
      obtain ⟨hm, hu, hw⟩ := @Variable.foldl_min vs u
      rw [h] at hm hu hw
      refine ⟨?_, fun w hw' => ?_⟩
      · cases hm with
        | inl he => rw [he]; exact List.mem_cons_self
        | inr hmem => exact List.mem_cons_of_mem _ hmem
      · cases List.mem_cons.mp hw' with
        | inl he => subst he; exact hu
        | inr h' => exact hw w h'

/-- A variable together with its polarity. -/
structure Literal where
  /-- The variable. -/
  var : Variable
  /-- Whether the literal is the variable itself and not its negation. -/
  positive : Bool
deriving DecidableEq

namespace Literal

/-- The literal of the same variable with the opposite polarity. -/
protected def neg (l : Literal) : Literal := ⟨l.var, !l.positive⟩

instance : Neg Literal := ⟨Literal.neg⟩

/-- The place of a literal in the order: by variable, negative before positive. -/
def code (l : Literal) : Nat := 2 * l.var.id + l.positive.toNat

/-- A literal as a signed number. -/
def toInt (l : Literal) : Int := if l.positive then l.var.id else -(l.var.id : Int)

/-- The literal of a signed number, if there is one. -/
def ofInt? (z : Int) : Option Literal :=
  (Variable.ofId? z.natAbs).map fun v => ⟨v, decide (0 < z)⟩

/-- A literal is shown as its variable, with `¬` in front of a negative one. -/
def text (l : Literal) : String := (if l.positive then "" else "¬") ++ l.var.text

@[simp] theorem var_neg (l : Literal) : (-l).var = l.var := rfl

@[simp] theorem positive_neg (l : Literal) : (-l).positive = !l.positive := rfl

@[simp] theorem neg_neg (l : Literal) : - -l = l := by
  cases l with
  | mk v p => exact congrArg (Literal.mk v) (Bool.not_not p)

theorem ne_neg (l : Literal) : l ≠ -l := by
  intro h
  have := congrArg Literal.positive h
  simp at this

/-- Two literals of one variable are equal or complementary. -/
theorem eq_or_eq_neg {l m : Literal} (h : l.var = m.var) : l = m ∨ l = -m := by
  cases l with
  | mk v p =>
      cases m with
      | mk w q =>
          cases h
          by_cases hpq : p = q
          · exact .inl (congrArg (Literal.mk v) hpq)
          · exact .inr (congrArg (Literal.mk v) (Bool.eq_not.mpr hpq))

theorem eq_of_code_eq {l m : Literal} (h : l.code = m.code) : l = m := by
  cases l with
  | mk v p =>
      cases m with
      | mk w q =>
          have hp : p = q := by cases p <;> cases q <;> simp [code] at h ⊢ <;> omega
          subst hp
          have hv : v = w := Variable.eq_of_id_eq (by simp [code] at h; omega)
          rw [hv]

instance : Ranked Literal := ⟨Literal.code, eq_of_code_eq⟩

@[simp] theorem rank_eq (l : Literal) : Ranked.rank l = l.code := rfl

instance : Ord Literal := ⟨compareOn code⟩

instance : Std.TransOrd Literal := inferInstanceAs (Std.TransCmp (compareOn code))

instance : Std.LawfulEqOrd Literal where
  eq_of_compare h := eq_of_code_eq (Nat.compare_eq_eq.mp h)

end Literal

end Clausal
