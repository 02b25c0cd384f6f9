import Clausal.Ascending

/-!
# Searching by halving

In an ascending list an element can be looked for by halving: what is smaller than the middle
element stands before it, and what is greater stands behind it.  Such a search finds just the
elements of the list (`Ascending.binSearchContains_iff`), so it answers like a look at all of them.

The search keeps a range of positions.  A step compares with the element in the middle and leaves
out the half in which the element looked for cannot stand (`Ascending.standsIn_iff_above`,
`Ascending.standsIn_iff_below`).  It fails where no position is left.
-/

namespace Clausal

namespace Ascending

open Ranked (rank rank_inj)

variable {α : Type} {l : List α} {as : Array α} {a : α} {lt : α → α → Bool} {lo hi m : Nat}

/-- The element stands at a position from `lo` on and below `hi`. -/
def StandsIn (as : Array α) (a : α) (lo hi : Nat) : Prop :=
  ∃ i, ∃ h : i < as.size, lo ≤ i ∧ i < hi ∧ as[i] = a

theorem not_standsIn (h : hi ≤ lo) : ¬StandsIn as a lo hi := by
  rintro ⟨i, _, hlo, hhi, _⟩
  omega

theorem standsIn_all_iff : StandsIn l.toArray a 0 l.length ↔ a ∈ l := by
  rw [List.mem_iff_getElem]
  constructor
  · rintro ⟨i, hi, _, _, hia⟩
    exact ⟨i, hi, hia⟩
  · rintro ⟨i, hi, hia⟩
    exact ⟨i, hi, Nat.zero_le i, hi, hia⟩

variable [Ranked α]

/-- Smaller elements stand at smaller positions. -/
theorem lt_of_rank_lt (h : Ascending as.toList) {i j : Nat} (hi : i < as.size) (hj : j < as.size)
    (hlt : rank as[i] < rank as[j]) : i < j := by
  rcases Nat.lt_trichotomy i j with hij | rfl | hji
  · exact hij
  · exact absurd hlt (Nat.lt_irrefl _)
  · have hrank := List.pairwise_iff_getElem.mp h j i hj hi hji
    exact absurd hlt (Nat.lt_asymm hrank)

/-- It stands behind every smaller element. -/
theorem standsIn_iff_above (h : Ascending as.toList) (hm : m < as.size)
    (hsmall : rank as[m] < rank a) (hlo : lo ≤ m) :
    StandsIn as a lo hi ↔ StandsIn as a (m + 1) hi := by
  constructor
  · rintro ⟨i, hi', _, hhi, rfl⟩
    exact ⟨i, hi', lt_of_rank_lt h hm hi' hsmall, hhi, rfl⟩
  · rintro ⟨i, hi', hmi, hhi, hia⟩
    exact ⟨i, hi', by omega, hhi, hia⟩

/-- It stands before every greater element. -/
theorem standsIn_iff_below (h : Ascending as.toList) (hm : m < as.size)
    (hgreat : rank a < rank as[m]) (hhi : m ≤ hi) :
    StandsIn as a lo hi ↔ StandsIn as a lo m := by
  constructor
  · rintro ⟨i, hi', hlo, _, rfl⟩
    exact ⟨i, hi', hlo, lt_of_rank_lt h hi' hm hgreat, rfl⟩
  · rintro ⟨i, hi', hlo, him, hia⟩
    exact ⟨i, hi', hlo, by omega, hia⟩

/-- The search in a range finds an element just if it stands there. -/
theorem binSearchAux_iff (h : Ascending as.toList) (hlt : ∀ b c, lt b c = true ↔ rank b < rank c)
    (lo : Fin (as.size + 1)) (hi : Fin as.size) (hle : lo.val ≤ hi.val) :
    Array.binSearchAux lt Option.isSome as a lo hi hle = true ↔
      StandsIn as a lo (hi + 1) := by
  fun_induction Array.binSearchAux lt Option.isSome as a lo hi hle with
  | case1 lo hi hle m b hsmall hnext _ ih =>
      rw [ih, standsIn_iff_above h _ ((hlt _ _).mp hsmall) (show lo.val ≤ m by omega)]
  | case2 lo hi hle m b hsmall hlast _ =>
      rw [standsIn_iff_above h _ ((hlt _ _).mp hsmall) (show lo.val ≤ m by omega)]
      exact iff_of_false Bool.false_ne_true (not_standsIn (by omega))
  | case3 lo hi hle m b _ hgreat hfirst _ =>
      rw [standsIn_iff_below h _ ((hlt _ _).mp hgreat) (show m ≤ hi.val + 1 by omega)]
      exact iff_of_false Bool.false_ne_true (not_standsIn (by omega))
  | case4 lo hi hle m b _ hgreat hnext _ ih =>
      rw [ih, standsIn_iff_below h _ ((hlt _ _).mp hgreat) (show m ≤ hi.val + 1 by omega)]
      rw [show m - 1 + 1 = m by omega]
  | case5 lo hi hle m b hsmall hgreat _ =>
      rw [hlt] at hsmall hgreat
      have hb : b = a := rank_inj (by omega)
      exact iff_of_true rfl ⟨m, by omega, by omega, by omega, hb⟩

/-- Halving an ascending list finds just its elements. -/
theorem binSearchContains_iff (h : Ascending l) (hlt : ∀ b c, lt b c = true ↔ rank b < rank c) :
    l.toArray.binSearchContains a lt = true ↔ a ∈ l := by
  rw [← standsIn_all_iff, Array.binSearchContains]
  split
  · next hpos =>
      have hlast : l.toArray.size - 1 + 1 = l.length := Nat.sub_add_cancel hpos
      simp only [ite_self, Nat.zero_le, ↓reduceDIte]
      rw [binSearchAux_iff h hlt, hlast]
  · next hempty =>
      exact iff_of_false Bool.false_ne_true (not_standsIn (Nat.le_of_not_lt hempty))

end Ascending

end Clausal
