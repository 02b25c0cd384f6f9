/-!
# Ascending lists

A finite set is kept here as a list in strictly ascending order.  The order is
given by a rank, a natural number that also tells the elements apart, so a set
has exactly one such list: `Ascending.eq_of_mem_iff`.  `Ascending.ofList` builds
the list of any collection by insertion, and `Ascending.mem_ofList` says that it
holds the same elements.
-/

namespace Clausal

variable {α : Type}

/-- A type whose elements are ordered, and told apart, by a natural number. -/
class Ranked (α : Type) where
  /-- The number of an element. -/
  rank : α → Nat
  /-- Elements of one rank are equal. -/
  rank_inj : ∀ {a b : α}, rank a = rank b → a = b

open Ranked (rank rank_inj)

/-- Every element of the list has a smaller rank than all that follow it. -/
def Ascending [Ranked α] (l : List α) : Prop := l.Pairwise fun a b => rank a < rank b

namespace Ascending

/-! ### Building -/

/-- Put an element in its place, unless it is there already. -/
def insert [Ranked α] (a : α) : List α → List α
  | [] => [a]
  | b :: l =>
      if rank a < rank b then a :: b :: l
      else if rank a = rank b then b :: l
      else b :: insert a l

/-- The ascending list of the elements of `l`. -/
def ofList [Ranked α] (l : List α) : List α := l.foldr insert []

@[simp] theorem ofList_nil [Ranked α] : ofList ([] : List α) = [] := rfl

@[simp] theorem ofList_cons [Ranked α] (a : α) (l : List α) :
    ofList (a :: l) = insert a (ofList l) := rfl

@[simp] theorem mem_insert [Ranked α] {a b : α} {l : List α} :
    b ∈ insert a l ↔ b = a ∨ b ∈ l := by
  induction l with
  | nil => simp [insert]
  | cons c l ih =>
      simp only [insert]
      split
      · simp
      · split
        · next h => simp [rank_inj h]
        · simp only [List.mem_cons, ih]
          constructor <;> (rintro (h | h | h) <;> simp [h])

@[simp] theorem mem_ofList [Ranked α] {a : α} {l : List α} : a ∈ ofList l ↔ a ∈ l := by
  induction l with
  | nil => simp
  | cons b l ih => simp [ih]

/-! ### Order -/

protected theorem nil [Ranked α] : Ascending ([] : List α) := List.Pairwise.nil

protected theorem singleton [Ranked α] (a : α) : Ascending [a] := List.pairwise_singleton _ _

theorem cons_iff [Ranked α] {a : α} {l : List α} :
    Ascending (a :: l) ↔ (∀ b ∈ l, rank a < rank b) ∧ Ascending l :=
  List.pairwise_cons

theorem insert_ascending [Ranked α] (a : α) {l : List α} (h : Ascending l) :
    Ascending (insert a l) := by
  induction l with
  | nil => exact Ascending.singleton a
  | cons b l ih =>
      obtain ⟨hb, hl⟩ := cons_iff.mp h
      simp only [insert]
      split
      · next hab =>
          refine cons_iff.mpr ⟨fun c hc => ?_, h⟩
          cases List.mem_cons.mp hc with
          | inl he => exact he ▸ hab
          | inr hc' => exact Nat.lt_trans hab (hb c hc')
      · split
        · exact h
        · next hlt hne =>
            refine cons_iff.mpr ⟨fun c hc => ?_, ih hl⟩
            cases mem_insert.mp hc with
            | inl he => subst he; omega
            | inr hc' => exact hb c hc'

theorem ofList_ascending [Ranked α] (l : List α) : Ascending (ofList l) := by
  induction l with
  | nil => exact Ascending.nil
  | cons a l ih => exact insert_ascending a ih

theorem filter [Ranked α] (p : α → Bool) {l : List α} (h : Ascending l) :
    Ascending (l.filter p) :=
  List.Pairwise.filter p h

theorem nodup [Ranked α] {l : List α} (h : Ascending l) : l.Nodup :=
  h.imp fun hab he => by subst he; exact Nat.lt_irrefl _ hab

/-- An ascending list is determined by its elements. -/
theorem eq_of_mem_iff [Ranked α] : ∀ {l m : List α}, Ascending l → Ascending m →
    (∀ a, a ∈ l ↔ a ∈ m) → l = m
  | [], [], _, _, _ => rfl
  | [], b :: _, _, _, h => by simpa using (h b).mpr List.mem_cons_self
  | a :: _, [], _, _, h => by simpa using (h a).mp List.mem_cons_self
  | a :: l, b :: m, hl, hm, h => by
      obtain ⟨ha, hl'⟩ := cons_iff.mp hl
      obtain ⟨hb, hm'⟩ := cons_iff.mp hm
      have hab : a = b := by
        cases List.mem_cons.mp ((h a).mp List.mem_cons_self) with
        | inl he => exact he
        | inr ham =>
            cases List.mem_cons.mp ((h b).mpr List.mem_cons_self) with
            | inl he => exact he.symm
            | inr hbl => exact absurd (ha b hbl) (Nat.lt_asymm (hb a ham))
      subst hab
      have htl : ∀ c, c ∈ l ↔ c ∈ m := by
        intro c
        constructor
        · intro hc
          cases List.mem_cons.mp ((h c).mp (List.mem_cons_of_mem _ hc)) with
          | inl he => exact absurd (ha c hc) (by subst he; exact Nat.lt_irrefl _)
          | inr hc' => exact hc'
        · intro hc
          cases List.mem_cons.mp ((h c).mpr (List.mem_cons_of_mem _ hc)) with
          | inl he => exact absurd (hb c hc) (by subst he; exact Nat.lt_irrefl _)
          | inr hc' => exact hc'
      rw [eq_of_mem_iff hl' hm' htl]

/-- An ascending list is the ascending list of its elements. -/
theorem ofList_eq_self [Ranked α] {l : List α} (h : Ascending l) : ofList l = l :=
  eq_of_mem_iff (ofList_ascending l) h fun _ => mem_ofList

/-- The first element of an ascending list has the least rank. -/
theorem rank_head_le [Ranked α] {a b : α} {l : List α} (h : Ascending (a :: l))
    (hb : b ∈ a :: l) : rank a ≤ rank b := by
  cases List.mem_cons.mp hb with
  | inl he => exact Nat.le_of_eq (by rw [he])
  | inr hb' => exact Nat.le_of_lt ((cons_iff.mp h).1 b hb')

/-- The last element of an ascending list has the greatest rank. -/
theorem rank_le_getLast [Ranked α] {b : α} : ∀ {l : List α} (_ : Ascending l) (hne : l ≠ []),
    b ∈ l → rank b ≤ rank (l.getLast hne)
  | [a], _, _, hb => by simp at hb; simp [hb]
  | a :: c :: l, h, _, hb => by
      rw [List.getLast_cons (by simp)]
      obtain ⟨ha, h'⟩ := cons_iff.mp h
      cases List.mem_cons.mp hb with
      | inl he =>
          subst he
          exact Nat.le_of_lt (ha _ (List.getLast_mem _))
      | inr hb' => exact rank_le_getLast h' (by simp) hb'

end Ascending

end Clausal
