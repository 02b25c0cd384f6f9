import Clausal.ClauseSet

/-!
# The list of a clause set

Insertion only adds at the end (`ClauseSet.prefix_insertAll`), and what it adds are the clauses
that are not there, each at its first occurrence (`ClauseSet.toList_insertAll`).  Of a list without
repetition nothing is lost.
-/

namespace Clausal

namespace ClauseSet

variable {s : ClauseSet} {cs : List Clause}

/-- Insertion adds the clauses that are not there, each at its first occurrence. -/
theorem toList_insertAll : ∀ {cs : List Clause} {s : ClauseSet}, (s.insertAll cs).toList =
    s.toList ++ (cs.filter fun c => !decide (c ∈ s.toList)).eraseDups
  | [], s => by
      rw [List.filter_nil, List.eraseDups_nil, List.append_nil]
      rfl
  | c :: cs, s => by
      have hnext : (s.insertAll (c :: cs)).toList = ((s.insert c).insertAll cs).toList := rfl
      rw [hnext, toList_insertAll, toList_insert]
      by_cases hc : c ∈ s.toList
      · simp [hc]
      · have hfilter : (cs.filter fun d => !decide (d ∈ s.toList ++ [c])) =
            (cs.filter fun d => !decide (d ∈ s.toList)).filter fun d => !d == c := by
          rw [List.filter_filter]
          refine List.filter_congr fun d _ => ?_
          rw [Bool.eq_iff_iff]
          simp [and_comm]
        rw [if_neg hc, hfilter, List.filter_cons_of_pos (by simp [hc]), List.eraseDups_cons,
          List.append_assoc]
        rfl

theorem toList_ofList : (ofList cs).toList = cs.eraseDups := by
  have hall : (cs.filter fun c => !decide (c ∈ empty.toList)) = cs :=
    List.filter_eq_self.mpr fun c _ => by simp
  rw [ofList, toList_insertAll, hall, toList_empty, List.nil_append]

theorem toList_ofList_of_nodup (h : cs.Nodup) : (ofList cs).toList = cs := by
  rw [toList_ofList]
  induction cs with
  | nil => rfl
  | cons c cs ih =>
      obtain ⟨hc, hcs⟩ := List.nodup_cons.mp h
      have hfilter : (cs.filter fun d => !d == c) = cs := by
        refine List.filter_eq_self.mpr fun d hd => ?_
        have hne : d ≠ c := fun he => hc (he ▸ hd)
        simpa using hne
      rw [List.eraseDups_cons, hfilter, ih hcs]

/-- Distinct clauses that are no tautologies are taken as they come. -/
theorem toList_ofProper_of_nodup (h : cs.Nodup) (ht : ∀ c ∈ cs, c.isTautology = false) :
    (ofList (cs.filter fun c => !c.isTautology)).toList = cs := by
  have hfilter : (cs.filter fun c => !c.isTautology) = cs :=
    List.filter_eq_self.mpr fun c hc => by simp [ht c hc]
  rw [hfilter, toList_ofList_of_nodup h]

/-- Insertion leaves the beginning of the list as it is. -/
theorem prefix_insertAll : s.toList <+: (s.insertAll cs).toList :=
  ⟨_, toList_insertAll.symm⟩

end ClauseSet

end Clausal
