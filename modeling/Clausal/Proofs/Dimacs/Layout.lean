import Clausal.Proofs.Dimacs.Pieces
import Mathlib.Order.Monotone.Basic

/-!
# Layout carries no meaning

An `Edit` changes the layout of a text in one place: a line end, the blanks at the margins of a line
or between its words, what stands behind the end of the formula, or a line that says nothing.
Edited texts are read alike, whatever the text and however many edits follow one another.  Only
lines put in before the one at fault change the number that a fault names (`ofDimacs_edits`).

Most edits leave the lines of content as they are.  There are two exceptions.  Other blanks between
the words of a line change its text, but neither its words nor what they are read as, and a text is
quoted only of the line at fault.  A line put in gives those behind it other numbers.
-/

namespace Clausal

namespace Dimacs

variable {text other before after line : List Char} {places : List Nat}

/-! ### Edits -/

/-- Between the two parts of a text stands a line. -/
structure IsLine (before line after : List Char) : Prop where
  /-- It starts where a line starts. -/
  start : AtStart before
  /-- It is one line. -/
  unbroken : '\n' ∉ line
  /-- It ends where a line ends. -/
  finish : AtEnd after

/-- Blanks that end no line. -/
structure IsGap (gap : List Char) : Prop where
  /-- Every character is blank. -/
  blank : AllBlank gap
  /-- No line ends there. -/
  unbroken : '\n' ∉ gap

/-- The line is blank or a comment. -/
def SaysNothing (line : List Char) : Prop := trim line = [] ∨ StartsWith 'c' (trim line)

instance (before line after : List Char) : Decidable (IsLine before line after) :=
  decidable_of_iff (AtStart before ∧ '\n' ∉ line ∧ AtEnd after)
    ⟨fun ⟨h, h', h''⟩ => ⟨h, h', h''⟩, fun h => ⟨h.start, h.unbroken, h.finish⟩⟩

instance (gap : List Char) : Decidable (IsGap gap) :=
  decidable_of_iff (AllBlank gap ∧ '\n' ∉ gap)
    ⟨fun ⟨h, h'⟩ => ⟨h, h'⟩, fun h => ⟨h.blank, h.unbroken⟩⟩

instance (line : List Char) : Decidable (SaysNothing line) :=
  inferInstanceAs (Decidable (trim line = [] ∨ StartsWith 'c' (trim line)))

/-- The line with this number is the first at fault. -/
def AtFault (text : List Char) (n : Nat) : Prop :=
  ∃ line e, FirstFault (contentLines text) line e ∧ line.number = n

/-- A change of the layout.  If it puts in a line, the number is that of the lines before it. -/
inductive Edit : List Nat → List Char → List Char → Prop
  /-- A line ends with a carriage return and a line feed. -/
  | carriageReturn {before after : List Char} :
      Edit [] (before ++ '\n' :: after) (before ++ '\r' :: '\n' :: after)
  /-- Blanks are added at the start and at the end of a line. -/
  | margins {before line after left right : List Char} : IsLine before line after →
      IsGap left → IsGap right →
      Edit [] (before ++ (line ++ after)) (before ++ ((left ++ (line ++ right)) ++ after))
  /-- Blanks within a line become others, unless the line is the one at fault. -/
  | gap {before left gap gap' right after : List Char} :
      IsLine before (left ++ (gap ++ right)) after →
      IsGap gap → gap ≠ [] → IsGap gap' → gap' ≠ [] →
      ¬AtFault (before ++ ((left ++ (gap ++ right)) ++ after)) (before.count '\n' + 1) →
      Edit [] (before ++ ((left ++ (gap ++ right)) ++ after))
        (before ++ ((left ++ (gap' ++ right)) ++ after))
  /-- Behind the sign that ends the formula stands another text. -/
  | trailer {before margin after after' : List Char} : AtStart before → IsGap margin →
      Edit [] (before ++ (margin ++ '%' :: after)) (before ++ (margin ++ '%' :: after'))
  /-- A line is put in where a line starts. -/
  | insert {before line after : List Char} : IsLine before line ('\n' :: after) →
      SaysNothing line →
      Edit [before.count '\n'] (before ++ after) (before ++ (line ++ '\n' :: after))
  /-- A line is put in behind the last one. -/
  | append {text line : List Char} : IsLine text line [] → SaysNothing line →
      Edit [] text (text ++ line)
  /-- The last line gets a line feed. -/
  | lineFeed {text : List Char} : Edit [] text (text ++ ['\n'])

/-- Edits one after the other. -/
inductive Edits : List Nat → List Char → List Char → Prop
  | none {text : List Char} : Edits [] text text
  | cons {places more : List Nat} {text next other : List Char} : Edit places text next →
      Edits more next other → Edits (places ++ more) text other

/-- How many lines are put in before the one with this number, where each of them in turn has so
many lines before it. -/
def insertedBefore : List Nat → Nat → Nat
  | [], _ => 0
  | i :: places, n =>
      if n ≤ i then insertedBefore places n else insertedBefore places (n + 1) + 1

/-- The lines put in first are counted first, and move the places of those put in later. -/
theorem insertedBefore_append (places more : List Nat) (n : Nat) :
    insertedBefore (places ++ more) n =
      insertedBefore places n + insertedBefore more (n + insertedBefore places n) := by
  induction places generalizing n with
  | nil => simp [insertedBefore]
  | cons i places ih =>
      rw [List.cons_append, insertedBefore, insertedBefore]
      split
      · exact ih n
      · rw [ih (n + 1), Nat.add_right_comm, Nat.add_right_comm n, Nat.add_assoc n]

/-- A line stays before another one if lines are put in. -/
theorem strictMono_insertedBefore : ∀ places, StrictMono fun n => n + insertedBefore places n
  | [] => fun _ _ h => h
  | i :: places => fun n m h => by
      have hkeep : n + insertedBefore places n < m + 1 + insertedBefore places (m + 1) :=
        strictMono_insertedBefore places (Nat.lt_succ_of_lt h)
      have hlt : n + insertedBefore places n < m + insertedBefore places m :=
        strictMono_insertedBefore places h
      have hlt' : n + 1 + insertedBefore places (n + 1) < m + 1 + insertedBefore places (m + 1) :=
        strictMono_insertedBefore places (Nat.succ_lt_succ h)
      simp only [insertedBefore]
      split
      · split <;> omega
      · rw [if_neg (by omega)]
        omega

/-! ### Edits that keep the lines of content -/

theorem SaysNothing.isSilent (h : SaysNothing line) (n : Nat) :
    (⟨n, trim line⟩ : Line).isSilent = true := Line.isSilent_iff.mpr h

/-- Blanks at the margins of a line do not change the lines of content. -/
theorem contentLines_margins {left right : List Char} (h : IsLine before line after)
    (hl : IsGap left) (hr : IsGap right) :
    contentLines (before ++ ((left ++ (line ++ right)) ++ after)) =
      contentLines (before ++ (line ++ after)) := by
  obtain ⟨above, habove⟩ := h.start.exists_contentLines
  obtain ⟨below, hlines⟩ := habove after h.finish
  have hwide : '\n' ∉ left ++ (line ++ right) := by
    simp [hl.unbroken, hr.unbroken, h.unbroken]
  rw [hlines _ hwide, hlines _ h.unbroken, trim_margins hl.blank hr.blank]

/-- A carriage return is a blank at the end of its line. -/
theorem contentLines_carriageReturn (before after : List Char) :
    contentLines (before ++ '\r' :: '\n' :: after) = contentLines (before ++ '\n' :: after) := by
  obtain ⟨before, line, rfl, hbefore, hline⟩ := exists_lastLine before
  have h : IsLine before line ('\n' :: after) := ⟨hbefore, hline, by simp [AtEnd]⟩
  have hr : IsGap ['\r'] := ⟨AllBlank.nil.cons (by decide), by decide⟩
  simpa using contentLines_margins h ⟨.nil, List.not_mem_nil⟩ hr

/-- Neither does what stands behind the sign that ends the formula. -/
theorem contentLines_trailer {margin : List Char} (hbefore : AtStart before)
    (hmargin : IsGap margin) (after after' : List Char) :
    contentLines (before ++ (margin ++ '%' :: after')) =
      contentLines (before ++ (margin ++ '%' :: after)) := by
  obtain ⟨above, habove⟩ := hbefore.exists_contentLines
  have hread (after : List Char) :
      contentLines (before ++ (margin ++ '%' :: after)) = content (above ++ []) := by
    obtain ⟨line, after, rfl, hline, hafter⟩ := exists_firstLine after
    obtain ⟨below, hlines⟩ := habove after hafter
    have hunbroken : '\n' ∉ margin ++ '%' :: line := by simp [hmargin.unbroken, hline]
    have hpercent : ∀ c ∈ ('%' :: line).head?, isBlank c = false :=
      fun c hc => by cases hc; decide
    have htrailer (n : Nat) : (⟨n, trim (margin ++ '%' :: line)⟩ : Line).isTrailer = true := by
      rw [Line.isTrailer_iff, StartsWith, head?_trim, words_allBlank_append hmargin.blank,
        head?_words hpercent]
      rfl
    calc contentLines (before ++ (margin ++ '%' :: (line ++ after)))
        = contentLines (before ++ ((margin ++ '%' :: line) ++ after)) := by simp
      _ = content (above ++ []) := by
        rw [hlines _ hunbroken]
        exact content_append_congr (content_cons_trailer (htrailer _) below) above
  rw [hread, hread]

/-- A line that says nothing can be put at the end. -/
theorem contentLines_append (h : IsLine text line []) (hline : SaysNothing line) :
    contentLines (text ++ line) = contentLines text := by
  obtain ⟨above, habove⟩ := h.start.exists_contentLines
  obtain ⟨below, hlines⟩ := habove [] h.finish
  have hread {line : List Char} (hunbroken : '\n' ∉ line) (hline : SaysNothing line) :
      contentLines (text ++ line) = content (above ++ below) := by
    rw [← List.append_nil line, hlines line hunbroken]
    exact content_append_congr (content_cons_silent (hline.isSilent _) below) above
  rw [hread h.unbroken hline, ← hread List.not_mem_nil (.inl rfl), List.append_nil]

/-- So can a line feed. -/
theorem contentLines_lineFeed (text : List Char) :
    contentLines (text ++ ['\n']) = contentLines text := by
  rw [contentLines_eq_splitOn, List.splitOn_append_cons_self, List.splitOn_nil, numbered_append,
    content_append_blank, ← contentLines_eq_splitOn]

/-! ### Blanks between words -/

section Words

variable {pre post : List Line} {l l' : Line}

/-- A line that is read is read like any other that has its words. -/
theorem read_of_words_eq {s s' : Progress} (hwords : words l.text = words l'.text)
    (hhead : l.text.head? = l'.text.head?) (h : s.read l = .ok s') : s.read l' = .ok s' := by
  by_cases hp : StartsWith 'p' l.text
  · have hp' : StartsWith 'p' l'.text := hhead.symm.trans hp
    rw [read_problem_iff hp] at h
    rw [read_problem_iff hp']
    simpa only [ProblemLine, wordsOf_iff, hwords] using h
  · have hp' : ¬StartsWith 'p' l'.text := fun hp' => hp (hhead.trans hp')
    rw [read_clause_iff hp] at h
    rw [read_clause_iff hp']
    simpa only [ClauseLine, wordsOf_iff, hwords] using h

/-- Behind these lines, the one line and the other are read, and alike. -/
def ReadAlike (pre : List Line) (l l' : Line) : Prop :=
  ∀ s, pre.foldlM Progress.read {} = .ok s → ∃ s', s.read l = .ok s' ∧ s.read l' = .ok s'

theorem ReadAlike.symm (h : ReadAlike pre l l') : ReadAlike pre l' l := fun s hs => by
  obtain ⟨s', hl, hl'⟩ := h s hs
  exact ⟨s', hl', hl⟩

/-- What is read after either of the two lines is read alike. -/
theorem ReadAlike.foldlM_eq (h : ReadAlike pre l l') (post : List Line) :
    (pre ++ l' :: post).foldlM Progress.read {} = (pre ++ l :: post).foldlM Progress.read {} := by
  rw [List.foldlM_append, List.foldlM_append]
  cases hs : pre.foldlM Progress.read {} with
  | error _ => rfl
  | ok s =>
      obtain ⟨s', hl, hl'⟩ := h s hs
      show (l' :: post).foldlM Progress.read s = (l :: post).foldlM Progress.read s
      rw [List.foldlM_cons, List.foldlM_cons, hl, hl']

/-- The one at fault is another line. -/
theorem ReadAlike.firstFault {line : Line} {e : Error} (h : ReadAlike pre l l')
    (hfault : FirstFault (pre ++ l :: post) line e) :
    FirstFault (pre ++ l' :: post) line e := by
  rw [firstFault_iff_foldlM] at hfault ⊢
  obtain ⟨before, after, s, hls, hs, hline⟩ := hfault
  have hne (hbefore : before = pre) (heq : l = line) : False := by
    obtain ⟨s', hread, -⟩ := h s (hbefore ▸ hs)
    rw [heq, hline] at hread
    cases hread
  -- So the line that is changed stands before it or behind it.
  obtain ⟨more, hbefore, hrest⟩ | ⟨more, hpre, hrest⟩ := List.append_eq_append_iff.mp hls
  · obtain ⟨rfl, hcons⟩ | ⟨more, rfl, rfl⟩ := List.cons_eq_append_iff.mp hrest
    · exact (hne (by rw [hbefore, List.append_nil]) (List.cons.inj hcons).1.symm).elim
    · refine ⟨pre ++ l' :: more, after, s, by simp, ?_, hline⟩
      rw [h.foldlM_eq, ← hbefore, hs]
  · obtain ⟨rfl, hcons⟩ | ⟨more, rfl, rfl⟩ := List.cons_eq_append_iff.mp hrest
    · exact (hne (by rw [hpre, List.append_nil]) (List.cons.inj hcons).1).elim
    · exact ⟨before, more ++ l' :: post, s, by simp [hpre], hs, hline⟩

/-- Lines of content that are the same, or all but one that is read like the other. -/
def Alike (ls ls' : List Line) : Prop :=
  ls' = ls ∨ ∃ pre l l' post, ls = pre ++ l :: post ∧ ls' = pre ++ l' :: post ∧ ReadAlike pre l l'

/-- Lines of content that are alike are read alike. -/
theorem Alike.readContent_eq {ls ls' : List Line} (h : Alike ls ls') :
    readContent ls' = readContent ls := by
  obtain rfl | ⟨pre, l, l', post, rfl, rfl, hread⟩ := h
  · rfl
  · rw [readContent, hread.foldlM_eq, readContent]

/-- They have the same first fault. -/
theorem Alike.firstFault_iff {ls ls' : List Line} {line : Line} {e : Error} (h : Alike ls ls') :
    FirstFault ls' line e ↔ FirstFault ls line e := by
  obtain rfl | ⟨pre, l, l', post, rfl, rfl, hread⟩ := h
  · rfl
  · exact ⟨hread.symm.firstFault, hread.firstFault⟩

/-- A line that is not at fault can be changed for one with its words, be it a line of content or
not. -/
theorem alike_of_words_eq {above below : List Line}
    (hwords : words l.text = words l'.text) (hhead : l.text.head? = l'.text.head?)
    (h : ∀ e, ¬FirstFault (content (above ++ l :: below)) l e) :
    Alike (content (above ++ l :: below)) (content (above ++ l' :: below)) := by
  have htrailer : l'.isTrailer = l.isTrailer := by rw [Line.isTrailer, Line.isTrailer, hhead]
  have hsilent : l'.isSilent = l.isSilent := by
    rw [Bool.eq_iff_iff, Line.isSilent_iff, Line.isSilent_iff, StartsWith, StartsWith,
      ← List.head?_eq_none_iff, ← List.head?_eq_none_iff, hhead]
  obtain hread | hended := content_append_or above
  · rw [hread] at h ⊢
    rw [hread]
    cases ht : l.isTrailer with
    | true => exact .inl (by rw [content_cons_trailer ht, content_cons_trailer (htrailer.trans ht)])
    | false =>
        cases hs : l.isSilent with
        | true =>
            exact .inl (by rw [content_cons_silent hs, content_cons_silent (hsilent.trans hs)])
        | false =>
            rw [content_cons ht hs] at h ⊢
            rw [content_cons (htrailer.trans ht) (hsilent.trans hs)]
            refine .inr ⟨_, l, l', _, rfl, rfl, fun s hpre => ?_⟩
            cases hline : s.read l with
            | error e => exact absurd (firstFault_iff_foldlM.mpr ⟨_, _, s, rfl, hpre, hline⟩) (h e)
            | ok s' => exact ⟨s', rfl, read_of_words_eq hwords hhead hline⟩
  · exact .inl (by rw [hended, hended])

end Words

/-- Other blanks between two words of a line, unless it is the one at fault, leave lines of content
that are alike. -/
theorem alike_gap {left gap gap' right : List Char}
    (h : IsLine before (left ++ (gap ++ right)) after) (hgap : IsGap gap) (hne : gap ≠ [])
    (hgap' : IsGap gap') (hne' : gap' ≠ [])
    (hfault : ¬AtFault (before ++ ((left ++ (gap ++ right)) ++ after)) (before.count '\n' + 1)) :
    Alike (contentLines (before ++ ((left ++ (gap ++ right)) ++ after)))
      (contentLines (before ++ ((left ++ (gap' ++ right)) ++ after))) := by
  obtain ⟨above, habove⟩ := h.start.exists_contentLines
  obtain ⟨below, hlines⟩ := habove after h.finish
  have hunbroken' : '\n' ∉ left ++ (gap' ++ right) := by
    have hunbroken := h.unbroken
    simp only [List.mem_append, not_or] at hunbroken ⊢
    exact ⟨hunbroken.1, hgap'.unbroken, hunbroken.2.2⟩
  have hwords : words (left ++ (gap ++ right)) = words (left ++ (gap' ++ right)) := by
    rw [words_append_gap hgap.blank hne, words_append_gap hgap'.blank hne']
  rw [AtFault, hlines _ h.unbroken] at hfault
  rw [hlines _ hunbroken', hlines _ h.unbroken]
  refine alike_of_words_eq ?_ ?_ fun e he => hfault ⟨_, e, he, rfl⟩
  · rw [words_trim, words_trim, hwords]
  · rw [head?_trim, head?_trim, hwords]

/-! ### Lines put in -/

/-- A line that says nothing gives the lines behind it other numbers, and does nothing else. -/
theorem contentLines_insert (h : IsLine before line ('\n' :: after)) (hline : SaysNothing line) :
    contentLines (before ++ (line ++ '\n' :: after)) = (contentLines (before ++ after)).map
      (Line.renumber fun n => n + insertedBefore [before.count '\n'] n) := by
  obtain ⟨above, hlen, habove⟩ := h.start.exists_splitOn
  have hkeep : (numbered 0 above).map
      (Line.renumber fun n => n + insertedBefore [above.length] n) = numbered 0 above :=
    map_renumber_numbered fun m hm => by
      rw [insertedBefore, if_pos (by omega), insertedBefore, Nat.add_zero]
  have hmove : (numbered above.length (after.splitOn '\n')).map
      (Line.renumber fun n => n + insertedBefore [above.length] n) =
        numbered (above.length + 1) (after.splitOn '\n') :=
    map_renumber_numbered fun m _ => by
      rw [insertedBefore, if_neg (by omega), insertedBefore]
      omega
  rw [contentLines_eq_splitOn (before ++ after), habove, numbered_append, Nat.zero_add,
    ← content_renumber, List.map_append, ← hlen, hkeep, hmove, contentLines_eq_splitOn, habove,
    List.splitOn_append_cons_self_of_not_mem h.unbroken, numbered_append, numbered_cons,
    Nat.zero_add]
  exact content_append_congr (content_cons_silent (hline.isSilent _) _) _

/-! ### Edited texts -/

theorem map_renumber_nil (ls : List Line) :
    ls.map (Line.renumber fun n => n + insertedBefore [] n) = ls := List.map_id ls

theorem alike_of_eq (h : contentLines other = contentLines text) :
    Alike ((contentLines text).map (Line.renumber fun n => n + insertedBefore [] n))
      (contentLines other) :=
  .inl (h.trans (map_renumber_nil _).symm)

/-- An edit leaves lines of content that are alike, up to their numbers. -/
theorem Edit.alike (h : Edit places text other) :
    Alike ((contentLines text).map (Line.renumber fun n => n + insertedBefore places n))
      (contentLines other) := by
  cases h with
  | carriageReturn => exact alike_of_eq (contentLines_carriageReturn _ _)
  | margins hline hl hr => exact alike_of_eq (contentLines_margins hline hl hr)
  | gap hline hgap hne hgap' hne' hfault =>
      rw [map_renumber_nil]
      exact alike_gap hline hgap hne hgap' hne' hfault
  | trailer hbefore hmargin => exact alike_of_eq (contentLines_trailer hbefore hmargin _ _)
  | insert hline hsays => exact .inl (contentLines_insert hline hsays)
  | append hline hsays => exact alike_of_eq (contentLines_append hline hsays)
  | lineFeed => exact alike_of_eq (contentLines_lineFeed _)

/-- An edited text is read as before, but for the number that a fault names. -/
theorem Edit.read_eq (h : Edit places text other) : read other = (read text).mapError
    (Error.renumber fun n => n + insertedBefore places n) := by
  rw [Dimacs.read_eq, h.alike.readContent_eq, readContent_renumber, ← Dimacs.read_eq]

/-- The line at fault is the same line, under its new number. -/
theorem Edit.atFault_iff (h : Edit places text other) (n : Nat) :
    AtFault other (n + insertedBefore places n) ↔ AtFault text n := by
  simp only [AtFault, h.alike.firstFault_iff, firstFault_renumber]
  constructor
  · rintro ⟨_, _, ⟨line, fault, hfault, rfl, rfl⟩, hnumber⟩
    exact ⟨line, fault, hfault, (strictMono_insertedBefore places).injective hnumber⟩
  · rintro ⟨line, fault, hfault, rfl⟩
    exact ⟨_, _, ⟨line, fault, hfault, rfl, rfl⟩, rfl⟩

theorem mapError_renumber_nil {α : Type} (x : Except Error α) :
    x.mapError (Error.renumber fun n => n + insertedBefore [] n) = x := by
  cases x with
  | ok _ => rfl
  | error e => exact congrArg Except.error e.renumber_self

/-- So is a text after several edits, and the numbers are moved by all lines put in. -/
theorem Edits.read_eq (h : Edits places text other) : read other = (read text).mapError
    (Error.renumber fun n => n + insertedBefore places n) := by
  induction h with
  | none => exact (mapError_renumber_nil _).symm
  | @cons places more text next other hedit _ ih =>
      rw [ih, hedit.read_eq]
      cases read text with
      | ok _ => rfl
      | error e =>
          simp only [Except.mapError, Error.renumber_renumber, insertedBefore_append,
            Nat.add_assoc]

/-- The line at fault is still the same. -/
theorem Edits.atFault_iff (h : Edits places text other) (n : Nat) :
    AtFault other (n + insertedBefore places n) ↔ AtFault text n := by
  induction h generalizing n with
  | none => rfl
  | cons hedit _ ih => rw [insertedBefore_append, ← Nat.add_assoc, ih, hedit.atFault_iff]

/-- Texts that differ in layout are read alike: as the same formula, or with the same fault on the
same line.  The number of that line counts the lines put in before it. -/
theorem ofDimacs_edits {text other : String} {places : List Nat}
    (h : Edits places text.toList other.toList) :
    Formula.ofDimacs other = (Formula.ofDimacs text).mapError
      (Error.renumber fun n => n + insertedBefore places n) ∧
    (∀ n, AtFault other.toList (n + insertedBefore places n) ↔ AtFault text.toList n) ∧
    (places = [] → Formula.ofDimacs other = Formula.ofDimacs text) := by
  refine ⟨h.read_eq, h.atFault_iff, ?_⟩
  rintro rfl
  exact h.read_eq.trans (mapError_renumber_nil _)

/-- A fault on the second line is on the third one behind a comment, whatever is done to the
blanks, the line ends and the text behind the formula. -/
theorem ofDimacs_misplacedZero :
    Edits [0] "1 2\n1 0 2\n%\nx".toList "c\n1\t 2\n 1 0 2 \r\n%1 0".toList ∧
    Formula.ofDimacs "1 2\n1 0 2\n%\nx" = .error (.malformedClause 2 "1 0 2") ∧
    Formula.ofDimacs "c\n1\t 2\n 1 0 2 \r\n%1 0" = .error (.malformedClause 3 "1 0 2") := by
  have hread : Formula.ofDimacs "1 2\n1 0 2\n%\nx" = .error (.malformedClause 2 "1 0 2") := rfl
  have hfault : ¬AtFault "1 2\n1 0 2\n%\nx".toList 1 := by
    rintro ⟨line, e, h, hline⟩
    have he := (readContent_eq_error_iff.mpr ⟨line, h⟩).1.symm.trans hread
    cases he
    have hnumber := h.isAbout.number 2 rfl
    omega
  have hgap : Edit [] "1 2\n1 0 2\n%\nx".toList "1\t 2\n1 0 2\n%\nx".toList :=
    @Edit.gap [] ['1'] [' '] ['\t', ' '] ['2'] "\n1 0 2\n%\nx".toList (by decide) (by decide)
      (by decide) (by decide) (by decide) hfault
  have hmargins : Edit [] "1\t 2\n1 0 2\n%\nx".toList "1\t 2\n 1 0 2 \n%\nx".toList :=
    @Edit.margins "1\t 2\n".toList "1 0 2".toList "\n%\nx".toList [' '] [' '] (by decide)
      (by decide) (by decide)
  have hreturn : Edit [] "1\t 2\n 1 0 2 \n%\nx".toList "1\t 2\n 1 0 2 \r\n%\nx".toList :=
    @Edit.carriageReturn "1\t 2\n 1 0 2 ".toList "%\nx".toList
  have htrailer : Edit [] "1\t 2\n 1 0 2 \r\n%\nx".toList
      "1\t 2\n 1 0 2 \r\n%1 0".toList :=
    @Edit.trailer "1\t 2\n 1 0 2 \r\n".toList [] "\nx".toList "1 0".toList (by decide) (by decide)
  have hcomment : Edit [0] "1\t 2\n 1 0 2 \r\n%1 0".toList
      "c\n1\t 2\n 1 0 2 \r\n%1 0".toList :=
    @Edit.insert [] ['c'] "1\t 2\n 1 0 2 \r\n%1 0".toList (by decide) (by decide)
  have hedits : Edits [0] "1 2\n1 0 2\n%\nx".toList "c\n1\t 2\n 1 0 2 \r\n%1 0".toList :=
    .cons hgap (.cons hmargins (.cons hreturn (.cons htrailer (.cons hcomment .none))))
  refine ⟨hedits, hread, ?_⟩
  rw [(ofDimacs_edits hedits).1, hread]
  rfl

end Dimacs

end Clausal
