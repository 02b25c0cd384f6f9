import Clausal.ClauseSet

/-!
# Room for more clauses

Clauses over given literals are choices among them, so there are finitely many.
A set of clauses has room for those that it does not hold yet: `ClauseSet.room`.
`ClauseSet.room_insertAll_lt` says that room shrinks when new clauses over the same
literals come in.  A procedure that only adds such clauses ends for this reason.
-/

namespace Clausal

variable {α : Type}

/-- All ways to choose some elements of a list. -/
def choices : List α → List (List α)
  | [] => [[]]
  | a :: l => choices l ++ (choices l).map (a :: ·)

theorem nil_mem_choices (l : List α) : [] ∈ choices l := by
  induction l with
  | nil => simp [choices]
  | cons a l ih => simp [choices, ih]

/-- An ascending list of elements of an ascending list is a choice. -/
theorem mem_choices [Ranked α] : ∀ {l m : List α}, Ascending l → Ascending m → m ⊆ l →
    m ∈ choices l
  | l, [], _, _, _ => nil_mem_choices l
  | [], b :: m, _, _, h => absurd (h List.mem_cons_self) List.not_mem_nil
  | a :: l, b :: m, hl, hm, h => by
      obtain ⟨ha, hl'⟩ := Ascending.cons_iff.mp hl
      obtain ⟨hb, hm'⟩ := Ascending.cons_iff.mp hm
      -- What lies above an element of the longer list's tail is in that tail.
      have tail : ∀ c ∈ a :: l, Ranked.rank a < Ranked.rank c → c ∈ l := by
        intro c hc hac
        cases List.mem_cons.mp hc with
        | inl he => subst he; exact absurd hac (Nat.lt_irrefl _)
        | inr hc' => exact hc'
      rw [choices, List.mem_append]
      cases List.mem_cons.mp (h List.mem_cons_self) with
      | inl he =>
          subst he
          refine .inr (List.mem_map_of_mem (mem_choices hl' hm' fun c hc => ?_))
          exact tail c (h (List.mem_cons_of_mem _ hc)) (hb c hc)
      | inr hbl =>
          refine .inl (mem_choices hl' hm fun c hc => ?_)
          refine tail c (h hc) (Nat.lt_of_lt_of_le (ha b hbl) ?_)
          exact Ascending.rank_head_le hm hc

namespace ClauseSet

/-- The literals that occur in the clauses of the set, in ascending order. -/
def literals (s : ClauseSet) : List Literal := Ascending.ofList (s.toList.flatMap Clause.literals)

theorem mem_literals {s : ClauseSet} {l : Literal} : l ∈ s.literals ↔ ∃ c ∈ s.toList, l ∈ c := by
  simp [literals, Clause.mem_literals]

/-- How many clauses over the same literals the set does not hold. -/
def room (s : ClauseSet) : Nat := (choices s.literals).length - s.size

theorem size_le (s : ClauseSet) : s.size ≤ (choices s.literals).length := by
  rw [← length_toList, ← List.length_map (f := Clause.literals)]
  apply List.Nodup.length_le_of_subset
  · refine List.Pairwise.map _ ?_ s.toList_nodup
    intro a b hab he
    exact hab (Clause.eq_of_literals_eq he)
  · intro ls hls
    obtain ⟨c, hc, rfl⟩ := List.mem_map.mp hls
    exact mem_choices (Ascending.ofList_ascending _) c.ascending
      fun l hl => mem_literals.mpr ⟨c, hc, hl⟩

theorem size_insert_le (s : ClauseSet) (c : Clause) : s.size ≤ (s.insert c).size := by
  rw [← length_toList, ← length_toList, toList_insert]
  split <;> simp

theorem size_insertAll_le (cs : List Clause) : ∀ s : ClauseSet, s.size ≤ (s.insertAll cs).size := by
  induction cs with
  | nil => exact fun s => Nat.le_refl _
  | cons c cs ih => exact fun s => Nat.le_trans (s.size_insert_le c) (ih _)

theorem size_insertAll_lt {c : Clause} : ∀ {cs : List Clause} {s : ClauseSet}, c ∈ cs →
    c ∉ s.toList → s.size < (s.insertAll cs).size
  | d :: cs, s, hc, hn => by
      have step : s.insertAll (d :: cs) = (s.insert d).insertAll cs := rfl
      by_cases hd : d ∈ s.toList
      · have hcs : c ∈ cs := by
          cases List.mem_cons.mp hc with
          | inl he => subst he; exact absurd hd hn
          | inr h => exact h
        rw [step, insert_of_mem hd]
        exact size_insertAll_lt hcs hn
      · rw [step]
        refine Nat.lt_of_lt_of_le ?_ (size_insertAll_le cs _)
        rw [← length_toList, ← length_toList, toList_insert, if_neg hd]
        simp

/-- New clauses over the same literals leave less room. -/
theorem room_insertAll_lt {s : ClauseSet} {cs : List Clause} {c : Clause}
    (hover : ∀ d ∈ cs, ∀ l ∈ d, l ∈ s.literals) (hc : c ∈ cs) (hn : c ∉ s.toList) :
    (s.insertAll cs).room < s.room := by
  have same : (s.insertAll cs).literals = s.literals := by
    refine Ascending.eq_of_mem_iff (Ascending.ofList_ascending _) (Ascending.ofList_ascending _) ?_
    intro l
    constructor
    · intro hl
      obtain ⟨d, hd, hld⟩ := mem_literals.mp hl
      cases mem_insertAll.mp hd with
      | inl hs => exact mem_literals.mpr ⟨d, hs, hld⟩
      | inr hcs => exact hover d hcs l hld
    · intro hl
      obtain ⟨d, hd, hld⟩ := mem_literals.mp hl
      exact mem_literals.mpr ⟨d, mem_insertAll.mpr (.inl hd), hld⟩
  have hle := (s.insertAll cs).size_le
  have hlt := size_insertAll_lt hc hn
  unfold room
  rw [same] at hle ⊢
  omega

end ClauseSet

end Clausal
