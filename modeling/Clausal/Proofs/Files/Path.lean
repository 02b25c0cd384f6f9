import Clausal.Files.Path

/-!
# The pieces of a path

The pieces of two paths with a slash between them are those of the one and then those of the other
(`Path.pieces_append_slash`), and a text without a slash is one piece.  So the last piece of a
joined path is the name that was joined, and what comes before it leads where the folder does
(`Path.pieces_join`).
-/

namespace Clausal

namespace Path

variable {folder name : String}

/-! ## Cutting at the slashes -/

theorem consPiece_ne_nil (c : Char) (ps : List (List Char)) : consPiece c ps ≠ [] := by
  unfold consPiece
  split
  · split <;> simp
  · split <;> simp

theorem consPiece_append (c : Char) {ps : List (List Char)} (h : ps ≠ []) (qs : List (List Char)) :
    consPiece c (ps ++ qs) = consPiece c ps ++ qs := by
  cases ps with
  | nil => exact absurd rfl h
  | cons p ps =>
      simp only [consPiece, List.cons_append]
      split <;> rfl

theorem foldr_consPiece_ne_nil (piece : List Char) (cs : List Char) :
    cs.foldr consPiece [piece] ≠ [] := by
  cases cs with
  | nil => exact List.cons_ne_nil _ _
  | cons c cs => exact consPiece_ne_nil c _

/-- Pieces that come behind are not touched. -/
theorem foldr_consPiece_cons (piece : List Char) (rest : List (List Char)) (cs : List Char) :
    cs.foldr consPiece (piece :: rest) = cs.foldr consPiece [piece] ++ rest := by
  induction cs with
  | nil => rfl
  | cons c cs ih =>
      rw [List.foldr_cons, ih, consPiece_append c (foldr_consPiece_ne_nil piece cs),
        List.foldr_cons]

/-- A path is cut at a slash into the pieces before it and the pieces behind it. -/
theorem pieces_append_slash (before after : String) :
    pieces (before ++ "/" ++ after) = pieces before ++ pieces after := by
  have hchars : (before ++ "/" ++ after).toList = before.toList ++ '/' :: after.toList := by
    rw [String.toList_append, String.toList_append, List.append_assoc]
    rfl
  cases hafter : after.toList.foldr consPiece [[]] with
  | nil => exact absurd hafter (foldr_consPiece_ne_nil [] _)
  | cons p ps =>
      rw [pieces, pieces, pieces, hchars, List.foldr_append, List.foldr_cons, hafter,
        ← List.map_append]
      exact congrArg _ (foldr_consPiece_cons [] (p :: ps) before.toList)

/-- A text without a slash is one piece. -/
theorem pieces_of_not_mem (h : '/' ∉ name.toList) : pieces name = [name] := by
  have hchars : ∀ cs : List Char, '/' ∉ cs → cs.foldr consPiece [[]] = [cs] := by
    intro cs
    induction cs with
    | nil => exact fun _ => rfl
    | cons c cs ih =>
        intro h
        have hc := List.ne_of_not_mem_cons h
        have hcs := List.not_mem_of_not_mem_cons h
        rw [List.foldr_cons, ih hcs, consPiece, if_neg (Ne.symm hc)]
  rw [pieces, hchars _ h, List.map_singleton, String.ofList_toList]

theorem not_mem_consPiece {c : Char} {ps : List (List Char)} (h : ∀ p ∈ ps, '/' ∉ p) :
    ∀ p ∈ consPiece c ps, '/' ∉ p := by
  intro p hp
  cases ps with
  | nil =>
      rw [consPiece] at hp
      split at hp
      · have he : p = [] := by simpa using hp
        rw [he]
        exact List.not_mem_nil
      · next hc =>
          rw [List.mem_singleton.mp hp, List.mem_singleton]
          exact Ne.symm hc
  | cons q qs =>
      rw [consPiece] at hp
      split at hp
      · rcases List.mem_cons.mp hp with rfl | hp
        · exact List.not_mem_nil
        · exact h p hp
      · next hc =>
          rcases List.mem_cons.mp hp with rfl | hp
          · exact List.not_mem_cons_of_ne_of_not_mem (Ne.symm hc) (h q List.mem_cons_self)
          · exact h p (List.mem_cons_of_mem _ hp)

/-- No piece has a slash. -/
theorem not_mem_of_mem_pieces {path piece : String} (h : piece ∈ pieces path) :
    '/' ∉ piece.toList := by
  have hchars : ∀ cs : List Char, ∀ p ∈ cs.foldr consPiece [[]], '/' ∉ p := by
    intro cs
    induction cs with
    | nil => simp
    | cons c cs ih => exact not_mem_consPiece ih
  obtain ⟨p, hp, rfl⟩ := List.mem_map.mp h
  rw [String.toList_ofList]
  exact hchars _ p hp

/-! ## Joined paths -/

theorem isRooted_of_not_mem (h : '/' ∉ name.toList) : isRooted name = false := by
  rw [isRooted, beq_eq_false_iff_ne, ne_eq]
  exact fun hh => h (List.mem_of_head? hh)

/-- A folder path that ends in a slash has an empty piece at the end. -/
theorem exists_of_getLast? (h : folder.toList.getLast? = some '/') :
    ∃ before, folder = before ++ "/" ∧ pieces folder = pieces before ++ [""] := by
  obtain ⟨cs, hcs⟩ := List.getLast?_eq_some_iff.mp h
  have hfolder : folder = String.ofList cs ++ "/" := by
    rw [← String.ofList_toList (s := folder), hcs, String.ofList_append]
  refine ⟨_, hfolder, ?_⟩
  have hempty : folder = String.ofList cs ++ "/" ++ "" := by rw [String.append_empty, hfolder]
  rw [hempty, pieces_append_slash]
  rfl

/-- How a name is put behind the path of a folder. -/
theorem pieces_join (folder : String) (h : '/' ∉ name.toList) :
    (folder = "" ∧ pieces (join folder name) = [name]) ∨
      (folder ≠ "" ∧ isRooted (join folder name) = isRooted folder ∧
        ∃ before, pieces (join folder name) = before ++ [name] ∧
          (pieces folder = before ∨ pieces folder = before ++ [""])) := by
  unfold join
  rw [isRooted_of_not_mem h, Bool.false_or]
  by_cases hfolder : folder = ""
  · subst hfolder
    exact .inl ⟨rfl, pieces_of_not_mem h⟩
  · have hrooted : ∀ after : String, isRooted (folder ++ after) = isRooted folder := by
      intro after
      cases hchars : folder.toList with
      | nil => exact absurd (String.toList_eq_nil_iff.mp hchars) hfolder
      | cons c cs =>
          rw [isRooted, isRooted, String.toList_append, hchars]
          rfl
    rw [if_neg (by simpa using hfolder)]
    refine .inr ⟨hfolder, ?_⟩
    by_cases hlast : folder.toList.getLast? = some '/'
    · obtain ⟨before, hbefore, hpieces⟩ := exists_of_getLast? hlast
      rw [if_pos (by rw [hlast]; rfl)]
      refine ⟨hrooted name, pieces before, ?_, .inr hpieces⟩
      rw [hbefore, pieces_append_slash, pieces_of_not_mem h]
    · rw [if_neg (by simpa using hlast)]
      refine ⟨by rw [String.append_assoc, hrooted], pieces folder, ?_, .inl rfl⟩
      rw [pieces_append_slash, pieces_of_not_mem h]

/-- Joining a name without a slash keeps the folder in front and the name at the end. -/
theorem join_eq_append (folder : String) (h : '/' ∉ name.toList) :
    ∃ rest, join folder name = folder ++ rest ++ name := by
  unfold join
  rw [isRooted_of_not_mem h, Bool.false_or]
  split
  · next hfolder =>
      rw [eq_of_beq hfolder]
      exact ⟨"", by simp⟩
  · split
    · exact ⟨"", by simp⟩
    · exact ⟨"/", rfl⟩

end Path

end Clausal
