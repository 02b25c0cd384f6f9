import Clausal.Random.Formula
import Mathlib.Data.List.Nodup
import Mathlib.Data.List.Range

/-!
# Samples are distinct

Whatever the words of a source are, a sample that comes to an end holds as many numbers as were
asked for, no number twice and none beyond the bound (`sample_gives`).  Each of the
three ways to draw keeps an invariant of its own from one number to the next.

* *Few numbers.*  Before the bound `j` comes up, the numbers chosen are below `j`.  The number drawn
  next is at most `j`, and where it was chosen before, `j` itself is new (`takeIn_perm`).  The
  shuffle at the end only exchanges.
* *Many numbers.*  The list of all numbers is permuted, so its front has none twice.
* *Skipping.*  A number is accepted only if it is not among those chosen.

What a draw gives is said by `Gives`, which holds also of a draw that does not come to an end.
-/

namespace Clausal

namespace Random

variable {σ α β : Type}

/-! ## What a draw gives -/

/-- What the draw gives has the property, from any state, if it gives anything. -/
def Gives (d : StateT σ Option α) (P : α → Prop) : Prop :=
  ∀ state a after, d state = some (a, after) → P a

/-- Two draws come to an end one after the other if each of them does. -/
theorem bind_eq_some_iff {d : StateT σ Option α} {k : α → StateT σ Option β} {state after : σ}
    {b : β} : (d >>= k) state = some (b, after) ↔
      ∃ a middle, d state = some (a, middle) ∧ k a middle = some (b, after) := by
  show (d state).bind (fun x => k x.1 x.2) = _ ↔ _
  simp only [Option.bind_eq_some_iff, Prod.exists]

theorem isSome_bind_iff {d : StateT σ Option α} {k : α → StateT σ Option β} {state : σ} :
    ((d >>= k) state).isSome = true ↔
      ∃ a middle, d state = some (a, middle) ∧ (k a middle).isSome = true := by
  simp only [Option.isSome_iff_exists, Prod.exists, bind_eq_some_iff]
  constructor
  · rintro ⟨b, after, a, middle, ha, hb⟩
    exact ⟨a, middle, ha, b, after, hb⟩
  · rintro ⟨a, middle, ha, b, after, hb⟩
    exact ⟨b, after, a, middle, ha, hb⟩

theorem isSome_bind_pure (d : StateT σ Option α) (f : α → β) (state : σ) :
    ((do return f (← d)) state : Option (β × σ)).isSome = (d state).isSome := by
  show ((d state).bind _).isSome = _
  cases d state with
  | none => rfl
  | some drawn => rfl

theorem Gives.pure {P : α → Prop} {a : α} (h : P a) : Gives (pure a : StateT σ Option α) P := by
  intro state b after hb
  cases hb
  exact h

/-- What the second draw gives may depend on the first, and on what is known of it. -/
theorem Gives.bind {P : α → Prop} {Q : β → Prop} {d : StateT σ Option α}
    {k : α → StateT σ Option β} (hd : Gives d P) (hk : ∀ a, P a → Gives (k a) Q) :
    Gives (d >>= k) Q := by
  intro state b after h
  obtain ⟨a, middle, ha, hb⟩ := bind_eq_some_iff.mp h
  exact hk a (hd _ _ _ ha) _ _ _ hb

theorem Gives.imp {P Q : α → Prop} {d : StateT σ Option α} (hd : Gives d P)
    (h : ∀ a, P a → Q a) : Gives d Q :=
  fun state a after ha => h a (hd state a after ha)

/-- A loop over the numbers from `start` on keeps what each of its steps keeps. -/
theorem Gives.foldlM_range' {I : Nat → β → Prop} {f : β → Nat → StateT σ Option β} :
    ∀ {amount start : Nat} {b : β},
      (∀ j b, start ≤ j → j < start + amount → I j b → Gives (f b j) (I (j + 1))) →
      I start b → Gives ((List.range' start amount).foldlM f b) (I (start + amount))
  | 0, _, _, _, hb => Gives.pure hb
  | amount + 1, start, b, hstep, hb => by
      have hsum : start + (amount + 1) = start + 1 + amount := by omega
      rw [List.range'_succ, List.foldlM_cons, hsum]
      refine (hstep start b (Nat.le_refl _) (by omega) hb).bind fun c hc => ?_
      exact Gives.foldlM_range' (fun j d hj hlt => hstep j d (by omega) (by omega)) hc

/-! ## Numbers of a range -/

/-- A sample of so many numbers below a bound. -/
structure IsSample (length amount : Nat) (numbers : List Nat) : Prop where
  /-- There are so many. -/
  length_eq : numbers.length = amount
  /-- None comes twice. -/
  nodup : numbers.Nodup
  /-- They are below the bound. -/
  lt : ∀ n ∈ numbers, n < length

/-- A word scaled to a range is within the range. -/
theorem scale_lt (w : UInt32) {count : Nat} (h : 0 < count) : (scale w count).1 < count := by
  have hw : w.toNat < 4294967296 := w.toNat_lt
  exact Nat.div_lt_of_lt_mul (Nat.mul_lt_mul_of_pos_right hw h)

/-- A number that is drawn from a range is not beyond its end. -/
theorem between_gives (s : Source) {low high : Nat} (h : low ≤ high) :
    Gives (between s low high) (· ≤ high) := by
  intro p n q hn
  obtain ⟨w, hw⟩ := firstAccepted_accept hn
  have hlt : (scale w (high - low + 1)).1 < high - low + 1 := scale_lt w (Nat.succ_pos _)
  dsimp only at hw
  split at hw
  · cases hw
    omega
  · cases hw

/-! ## Few numbers -/

/-- Putting a number before another one adds it. -/
theorem putBefore_perm {old new : Nat} {l : List Nat} (h : old ∈ l) :
    (putBefore old new l).Perm (new :: l) := by
  induction l with
  | nil => cases h
  | cons n rest ih =>
      rw [putBefore]
      split
      · exact .refl _
      · next hne =>
          have hrest : old ∈ rest := (List.mem_cons.mp h).resolve_left fun he => hne he.symm
          exact ((ih hrest).cons n).trans (.swap new n rest)

/-- Whether order is kept or not, one number comes in: the one that was drawn, or `j` for one that
is there. -/
theorem takeIn_perm (keepsOrder : Bool) (chosen : List Nat) (t j : Nat) :
    (takeIn keepsOrder chosen t j).Perm ((if t ∈ chosen then j else t) :: chosen) := by
  simp only [takeIn, List.contains_iff_mem]
  split
  · next ht =>
      split
      · exact putBefore_perm ht
      · exact List.perm_append_singleton j chosen
  · exact List.perm_append_singleton t chosen

/-- A number up to the bound is taken in, or the bound itself if the number is there already, so the
sample grows by one. -/
theorem IsSample.takeIn {j amount t : Nat} {chosen : List Nat} (h : IsSample j amount chosen)
    (ht : t ≤ j) (keepsOrder : Bool) :
    IsSample (j + 1) (amount + 1) (takeIn keepsOrder chosen t j) := by
  have hperm := takeIn_perm keepsOrder chosen t j
  have hnew : (if t ∈ chosen then j else t) ∉ chosen ∧ (if t ∈ chosen then j else t) ≤ j := by
    split
    · exact ⟨fun hj => Nat.lt_irrefl j (h.lt j hj), Nat.le_refl j⟩
    · next hnot => exact ⟨hnot, ht⟩
  constructor
  · rw [hperm.length_eq, List.length_cons, h.length_eq]
  · exact hperm.nodup_iff.mpr (h.nodup.cons hnew.1)
  · intro n hn
    rcases List.mem_cons.mp (hperm.mem_iff.mp hn) with rfl | hmem
    · exact Nat.lt_succ_of_le hnew.2
    · exact Nat.lt_succ_of_lt (h.lt n hmem)

/-- In another order it is still a sample. -/
theorem IsSample.of_perm {length amount : Nat} {l m : List Nat} (h : IsSample length amount l)
    (hperm : m.Perm l) : IsSample length amount m where
  length_eq := hperm.length_eq.trans h.length_eq
  nodup := hperm.nodup_iff.mpr h.nodup
  lt := fun n hn => h.lt n (hperm.mem_iff.mp hn)

/-- Exchanging two numbers changes their order only. -/
theorem exchange_perm (a : Array Nat) (i j : Nat) : (exchange a i j).toList.Perm a.toList := by
  rw [exchange, Array.swapIfInBounds]
  split
  · split
    · exact (Array.swap_perm _ _).toList
    · exact .refl _
  · exact .refl _

/-- Shuffling changes the order only, whatever is drawn. -/
theorem shuffle_gives (s : Source) : ∀ (n : Nat) (a : Array Nat),
    Gives (shuffle s n a) fun b => b.toList.Perm a.toList
  | 0, _ => Gives.pure (.refl _)
  | n + 1, a => by
      rw [shuffle]
      refine (between_gives s (Nat.zero_le (n + 1))).bind fun t _ => ?_
      exact (shuffle_gives s n _).imp fun b hb => hb.trans (exchange_perm a (n + 1) t)

/-- Before the bound `j` comes up, one number is chosen for each bound below it. -/
theorem sampleFew_loop (s : Source) (keepsOrder : Bool) (start amount : Nat) :
    Gives ((List.range' start amount).foldlM (fun chosen j => do
      return takeIn keepsOrder chosen (← between s 0 j) j) [])
      (IsSample (start + amount) amount) := by
  have hloop : Gives ((List.range' start amount).foldlM (fun chosen j => do
      return takeIn keepsOrder chosen (← between s 0 j) j) [])
      fun chosen => IsSample (start + amount) (start + amount - start) chosen := by
    refine Gives.foldlM_range' (I := fun j chosen => IsSample j (j - start) chosen) ?_ ?_
    · intro j chosen hj _ hchosen
      refine (between_gives s (Nat.zero_le j)).bind fun t ht => Gives.pure ?_
      rw [Nat.sub_add_comm hj]
      exact hchosen.takeIn ht keepsOrder
    · rw [Nat.sub_self]
      exact ⟨rfl, List.nodup_nil, fun n hn => absurd hn List.not_mem_nil⟩
  rwa [Nat.add_sub_cancel_left] at hloop

/-- The way for few numbers gives a sample. -/
theorem sampleFew_gives (s : Source) {length amount : Nat} (h : amount ≤ length) :
    Gives (sampleFew s length amount) (IsSample length amount) := by
  have hloop := sampleFew_loop s (decide (amount < 50)) (length - amount) amount
  rw [Nat.sub_add_cancel h] at hloop
  refine hloop.bind fun chosen hchosen => ?_
  split
  · exact Gives.pure hchosen
  · refine (shuffle_gives s _ _).bind fun b hb => Gives.pure ?_
    exact hchosen.of_perm hb

/-! ## Many numbers -/

/-- The way for many numbers gives a sample. -/
theorem sampleInPlace_gives (s : Source) {length amount : Nat} (h : amount ≤ length) :
    Gives (sampleInPlace s length amount) (IsSample length amount) := by
  rw [sampleInPlace, List.range_eq_range']
  have hloop : Gives ((List.range' 0 amount).foldlM (fun a i => do
      return exchange a i (← between s i (length - 1))) (Array.range length))
      fun a => a.toList.Perm (List.range length) := by
    refine Gives.foldlM_range' (I := fun _ (a : Array Nat) => a.toList.Perm (List.range length))
      ?_ ?_
    · intro i a _ hi ha
      refine (between_gives s (by omega)).bind fun t _ => Gives.pure ?_
      exact (exchange_perm a i t).trans ha
    · rw [Array.toList_range]
  refine hloop.bind fun all hall => Gives.pure ?_
  constructor
  · rw [List.length_take, hall.length_eq, List.length_range, Nat.min_eq_left h]
  · exact (hall.nodup_iff.mpr List.nodup_range).sublist (List.take_sublist _ _)
  · exact fun n hn => List.mem_range.mp (hall.mem_iff.mp (List.mem_of_mem_take hn))

/-! ## Skipping -/

/-- What is accepted is below the bound and new. -/
theorem fresh_gives (s : Source) {length : Nat} (h : 0 < length) (chosen : List Nat) :
    Gives (fresh s length chosen) fun n => n < length ∧ n ∉ chosen := by
  intro p n q hn
  obtain ⟨w, hw⟩ := firstAccepted_accept hn
  dsimp only at hw
  split at hw
  · next hfresh =>
      cases hw
      exact ⟨scale_lt w h, by simpa using hfresh.2⟩
  · cases hw

/-- A new number below the bound makes the sample larger. -/
theorem IsSample.cons {length amount n : Nat} {chosen : List Nat}
    (h : IsSample length amount chosen) (hlt : n < length) (hnew : n ∉ chosen) :
    IsSample length (amount + 1) (n :: chosen) where
  length_eq := by rw [List.length_cons, h.length_eq]
  nodup := h.nodup.cons hnew
  lt := List.forall_mem_cons.mpr ⟨hlt, h.lt⟩

/-- The way that skips what was drawn before gives a sample. -/
theorem sampleFresh_gives (s : Source) {length amount : Nat} (h : amount ≤ length) :
    Gives (sampleFresh s length amount) (IsSample length amount) := by
  rw [sampleFresh, List.range_eq_range']
  have hloop : Gives ((List.range' 0 amount).foldlM (fun chosen _ => do
      return (← fresh s length chosen) :: chosen) []) (IsSample length (0 + amount)) := by
    refine Gives.foldlM_range' ?_ ⟨rfl, List.nodup_nil, fun n hn => absurd hn List.not_mem_nil⟩
    intro j chosen _ hj hchosen
    refine (fresh_gives s (by omega) chosen).bind fun n hn => Gives.pure ?_
    exact hchosen.cons hn.1 hn.2
  rw [Nat.zero_add] at hloop
  refine hloop.bind fun newestFirst hsample => Gives.pure ?_
  exact hsample.of_perm newestFirst.reverse_perm

/-! ## Any sample -/

/-- Each of the three ways gives a sample, so it does not matter which is taken. -/
theorem sample_gives (s : Source) {length amount : Nat} (h : amount ≤ length) :
    Gives (sample s length amount) (IsSample length amount) := by
  rw [sample]
  split
  · exact sampleFew_gives s h
  · exact sampleInPlace_gives s h
  · exact sampleFresh_gives s h

end Random

end Clausal
