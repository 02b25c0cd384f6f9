import Clausal.Proofs.Dimacs.Renumbered

/-!
# The pieces of a text

A text is divided at every line feed, also at its last one.  So what stands before a line, the line
itself, and what stands behind it make up the pieces of the text one after the other
(`AtStart.exists_contentLines`).  The lines of a text are not put together in this way, since no
empty line stands behind the last line feed.  But an empty piece says nothing, and the lines of
content are those among the pieces (`contentLines_eq_splitOn`).
-/

namespace Clausal

namespace Dimacs

variable {before after : List Char}

/-! ### Numbered lines -/

/-- Lines that have so many before them, numbered and trimmed. -/
def numbered (i : Nat) (ls : List (List Char)) : List Line :=
  (ls.zipIdx i).map fun (line, j) => ⟨j + 1, trim line⟩

theorem numbered_cons (i : Nat) (line : List Char) (ls : List (List Char)) :
    numbered i (line :: ls) = ⟨i + 1, trim line⟩ :: numbered (i + 1) ls := rfl

theorem numbered_append (i : Nat) (ls more : List (List Char)) :
    numbered i (ls ++ more) = numbered i ls ++ numbered (i + ls.length) more := by
  simp only [numbered, List.zipIdx_append, List.map_append]

theorem map_renumber_numbered {f : Nat → Nat} : ∀ {i j : Nat} {ls : List (List Char)},
    (∀ m < ls.length, f (i + m + 1) = j + m + 1) →
    (numbered i ls).map (Line.renumber f) = numbered j ls
  | _, _, [], _ => rfl
  | i, j, line :: ls, h => by
      have hline : f (i + 1) = j + 1 := h 0 (Nat.zero_lt_succ _)
      have hls : ∀ m < ls.length, f (i + 1 + m + 1) = j + 1 + m + 1 := fun m hm => by
        have hm' := h (m + 1) (Nat.succ_lt_succ hm)
        rwa [← Nat.add_assoc, Nat.add_right_comm i, ← Nat.add_assoc, Nat.add_right_comm j] at hm'
      rw [numbered_cons, numbered_cons, List.map_cons, map_renumber_numbered hls, Line.renumber,
        hline]

/-- An empty piece at the end says nothing. -/
theorem content_append_blank (before : List Line) (i : Nat) :
    content (before ++ numbered i [[]]) = content before := by
  have hsilent : content (numbered i [[]]) = content [] := content_cons_silent rfl []
  rw [content_append_congr hsilent, List.append_nil]

/-- A text has the lines of content of its pieces. -/
theorem contentLines_eq_splitOn (text : List Char) :
    contentLines text = content (numbered 0 (text.splitOn '\n')) := by
  obtain h | h := (linesOf_iff.mpr (rfl : lines text = lines text)).splitOn_eq
  · rw [h]
    rfl
  · rw [h, numbered_append, content_append_blank]
    rfl

/-! ### Where a line starts and ends -/

/-- What comes next starts a line. -/
def AtStart (before : List Char) : Prop := ∀ c ∈ before.getLast?, c = '\n'

/-- What came before ends with its line. -/
def AtEnd (after : List Char) : Prop := ∀ c ∈ after.head?, c = '\n'

instance (before : List Char) : Decidable (AtStart before) := Option.decidableForallMem _

instance (after : List Char) : Decidable (AtEnd after) := Option.decidableForallMem _

theorem AtStart.exists_splitOn (h : AtStart before) : ∃ above,
    above.length = before.count '\n' ∧
      ∀ rest, (before ++ rest).splitOn '\n' = above ++ rest.splitOn '\n' := by
  obtain rfl | ⟨text, c, rfl⟩ := before.eq_nil_or_concat'
  · exact ⟨[], rfl, fun _ => rfl⟩
  · obtain rfl : c = '\n' := h c (by simp)
    refine ⟨text.splitOn '\n', ?_, fun rest => ?_⟩
    · rw [length_splitOn, List.count_append]
      rfl
    · rw [List.append_assoc]
      exact List.splitOn_append_cons_self text rest

theorem AtEnd.exists_splitOn (h : AtEnd after) : ∃ below, ∀ line, '\n' ∉ line →
    (line ++ after).splitOn '\n' = line :: below := by
  cases after with
  | nil => exact ⟨[], fun line hline => by rw [List.append_nil, List.splitOn_eq_singleton hline]⟩
  | cons c rest =>
      obtain rfl : c = '\n' := h c rfl
      exact ⟨rest.splitOn '\n', fun line hline =>
        List.splitOn_append_cons_self_of_not_mem hline rest⟩

/-- The lines before a line are those of what stands before it, and the lines behind it those of
what stands behind it. -/
theorem AtStart.exists_contentLines (h : AtStart before) : ∃ above : List Line,
    ∀ after, AtEnd after → ∃ below : List Line, ∀ line, '\n' ∉ line →
      contentLines (before ++ (line ++ after)) =
        content (above ++ ⟨before.count '\n' + 1, trim line⟩ :: below) := by
  obtain ⟨above, hlen, habove⟩ := h.exists_splitOn
  refine ⟨numbered 0 above, fun after hafter => ?_⟩
  obtain ⟨below, hbelow⟩ := hafter.exists_splitOn
  refine ⟨numbered (above.length + 1) below, fun line hline => ?_⟩
  rw [contentLines_eq_splitOn, habove, hbelow line hline, numbered_append, numbered_cons,
    Nat.zero_add, hlen]

/-- A text is its first line and what stands behind that line. -/
theorem exists_firstLine (text : List Char) : ∃ line after, text = line ++ after ∧
    '\n' ∉ line ∧ AtEnd after := by
  induction text with
  | nil => exact ⟨[], [], rfl, List.not_mem_nil, fun c hc => by cases hc⟩
  | cons c text ih =>
      by_cases hc : c = '\n'
      · exact ⟨[], c :: text, rfl, List.not_mem_nil, by simp [AtEnd, hc]⟩
      · obtain ⟨line, after, rfl, hline, hafter⟩ := ih
        exact ⟨c :: line, after, rfl, by simp [hline, Ne.symm hc], hafter⟩

/-- A text is what stands before its last line and that line. -/
theorem exists_lastLine (text : List Char) : ∃ before line, text = before ++ line ∧
    AtStart before ∧ '\n' ∉ line := by
  obtain ⟨line, before, htext, hline, hbefore⟩ := exists_firstLine text.reverse
  refine ⟨before.reverse, line.reverse, ?_, ?_, mt List.mem_reverse.mp hline⟩
  · rw [← List.reverse_append, ← htext, List.reverse_reverse]
  · rw [AtStart, List.getLast?_reverse]
    exact hbefore

end Dimacs

end Clausal
