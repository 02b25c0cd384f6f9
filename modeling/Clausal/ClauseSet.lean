import Clausal.Clause
import Std.Data.TreeSet

/-!
# Sets of clauses in order of insertion

A working set of clauses is listed in the order in which its clauses came, each of
them once.  An index beside the list answers whether a clause is there.
`ClauseSet.toList_insert` says what insertion does to the list.
-/

namespace Clausal

/-- Distinct clauses in order of insertion. -/
structure ClauseSet where
  /-- The clauses, oldest first. -/
  members : Array Clause
  /-- The same clauses, for finding them. -/
  index : Std.TreeSet Clause
  /-- The index finds exactly the clauses of the list. -/
  mem_index : ∀ c, index.contains c = true ↔ c ∈ members.toList
  /-- No clause comes twice. -/
  nodup : members.toList.Nodup

namespace ClauseSet

/-- The clauses, oldest first. -/
def toList (s : ClauseSet) : List Clause := s.members.toList

/-- The number of clauses. -/
def size (s : ClauseSet) : Nat := s.members.size

/-- Whether there is no clause. -/
def isEmpty (s : ClauseSet) : Bool := s.members.isEmpty

/-- Whether the clause is in the set. -/
def contains (s : ClauseSet) (c : Clause) : Bool := s.index.contains c

instance : Membership Clause ClauseSet := ⟨fun s c => c ∈ s.toList⟩

/-- The set without clauses. -/
def empty : ClauseSet where
  members := #[]
  index := ∅
  mem_index := by simp
  nodup := List.nodup_nil

@[simp] theorem contains_iff {s : ClauseSet} {c : Clause} : s.contains c = true ↔ c ∈ s.toList :=
  s.mem_index c

theorem toList_nodup (s : ClauseSet) : s.toList.Nodup := s.nodup

/-- Put a clause behind the others, unless it is there already. -/
def insert (s : ClauseSet) (c : Clause) : ClauseSet :=
  if h : s.contains c = true then s
  else
    { members := s.members.push c
      index := s.index.insert c
      mem_index := by
        intro d
        rw [Std.TreeSet.contains_insert, Bool.or_eq_true, beq_iff_eq, s.mem_index,
          Std.LawfulEqCmp.compare_eq_iff_eq, Array.toList_push, List.mem_append,
          List.mem_singleton]
        constructor
        · rintro (he | hd)
          · exact .inr he.symm
          · exact .inl hd
        · rintro (hd | he)
          · exact .inr hd
          · exact .inl he.symm
      nodup := by
        rw [Array.toList_push, List.nodup_append]
        refine ⟨s.nodup, by simp, fun d hd e he => ?_⟩
        rw [List.mem_singleton] at he
        rintro rfl
        exact h (contains_iff.mpr (he ▸ hd)) }

/-- Insert clauses in order. -/
def insertAll (s : ClauseSet) (cs : List Clause) : ClauseSet := cs.foldl insert s

/-- The distinct clauses of a list, in order of their first occurrence. -/
def ofList (cs : List Clause) : ClauseSet := empty.insertAll cs

/-! ### The list -/

@[simp] theorem toList_empty : empty.toList = [] := rfl

theorem length_toList (s : ClauseSet) : s.toList.length = s.size := rfl

/-- Insertion adds the clause at the end of the list, unless it is there already. -/
theorem toList_insert (s : ClauseSet) (c : Clause) :
    (s.insert c).toList = if c ∈ s.toList then s.toList else s.toList ++ [c] := by
  unfold insert
  split
  · next h => rw [if_pos (contains_iff.mp h)]
  · next h =>
      rw [if_neg fun hc => h (contains_iff.mpr hc)]
      exact Array.toList_push

@[simp] theorem mem_insert {s : ClauseSet} {c d : Clause} :
    d ∈ (s.insert c).toList ↔ d ∈ s.toList ∨ d = c := by
  rw [toList_insert]
  split
  · next h =>
      constructor
      · exact .inl
      · rintro (hd | rfl)
        · exact hd
        · exact h
  · simp

@[simp] theorem mem_insertAll {cs : List Clause} : ∀ {s : ClauseSet} {d : Clause},
    d ∈ (s.insertAll cs).toList ↔ d ∈ s.toList ∨ d ∈ cs := by
  induction cs with
  | nil => simp [insertAll]
  | cons c cs ih =>
      intro s d
      have step : s.insertAll (c :: cs) = (s.insert c).insertAll cs := rfl
      rw [step, ih, mem_insert, List.mem_cons, or_assoc]

@[simp] theorem mem_ofList {cs : List Clause} {d : Clause} : d ∈ (ofList cs).toList ↔ d ∈ cs := by
  simp [ofList]

/-- A clause that is there already changes nothing, not even in the index. -/
theorem insert_of_mem {s : ClauseSet} {c : Clause} (h : c ∈ s.toList) : s.insert c = s :=
  dif_pos (contains_iff.mpr h)

/-- A further copy of a clause changes nothing. -/
theorem ofList_append_cons_of_mem {before : List Clause} {c : Clause} (h : c ∈ before)
    (after : List Clause) : ofList (before ++ c :: after) = ofList (before ++ after) := by
  have step : ofList (before ++ c :: after) = ((ofList before).insert c).insertAll after := by
    rw [ofList, insertAll, List.foldl_append]
    rfl
  rw [step, insert_of_mem (mem_ofList.mpr h), ofList, ofList, insertAll, insertAll, insertAll,
    List.foldl_append]

theorem isEmpty_iff {s : ClauseSet} : s.isEmpty = true ↔ s.toList = [] := by
  unfold isEmpty toList
  rw [Array.isEmpty_iff, Array.toList_eq_nil_iff]

end ClauseSet

end Clausal
