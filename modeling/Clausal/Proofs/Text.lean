import Clausal.Text.Lines

/-!
# Lines, margins and words as relations

What it means that a text has given lines, that a text is what is left of another
without the blanks around it, and that a line has given words: each is a relation
that says how the pieces make up the text, with no regard to how they are found.
Each relation is the graph of the function that finds the pieces (`linesOf_iff`,
`trimmed_iff`, `wordsOf_iff`), so the pieces exist and there is one choice of them.

In all three, one direction recomputes a text put together from its pieces, and the
other takes the pieces off the text, character by character from its end.
-/

namespace Clausal

/-- Every character is blank. -/
def AllBlank (text : List Char) : Prop := ∀ c ∈ text, isBlank c = true

instance (text : List Char) : Decidable (AllBlank text) := List.decidableBAll _ text

/-- No character is blank. -/
def NoBlank (text : List Char) : Prop := ∀ c ∈ text, isBlank c = false

theorem AllBlank.nil : AllBlank [] := fun _ h => absurd h List.not_mem_nil

theorem AllBlank.cons {c : Char} {text : List Char} (hc : isBlank c = true) (h : AllBlank text) :
    AllBlank (c :: text) := List.forall_mem_cons.mpr ⟨hc, h⟩

theorem AllBlank.append {text more : List Char} (h : AllBlank text) (hmore : AllBlank more) :
    AllBlank (text ++ more) := List.forall_mem_append.mpr ⟨h, hmore⟩

theorem NoBlank.nil : NoBlank [] := fun _ h => absurd h List.not_mem_nil

theorem NoBlank.cons {c : Char} {text : List Char} (hc : isBlank c = false) (h : NoBlank text) :
    NoBlank (c :: text) := List.forall_mem_cons.mpr ⟨hc, h⟩

/-! ### Lines -/

/-- The text has these lines: each ends at a line feed, and the last one may end with
the text, but is not empty then. -/
inductive LinesOf : List Char → List (List Char) → Prop
  | none : LinesOf [] []
  | last {line : List Char} : line ≠ [] → '\n' ∉ line → LinesOf line [line]
  | line {line text : List Char} {ls : List (List Char)} : '\n' ∉ line → LinesOf text ls →
      LinesOf (line ++ '\n' :: text) (line :: ls)

/-- A line feed behind a line splits the text there. -/
theorem lines_append_line {line : List Char} (h : '\n' ∉ line) (text : List Char) :
    lines (line ++ '\n' :: text) = line :: lines text := by
  induction line with
  | nil =>
      rw [List.nil_append, lines_cons]
      cases lines text <;> simp [consLine]
  | cons c line ih =>
      rw [List.cons_append, lines_cons, ih (List.not_mem_of_not_mem_cons h), consLine,
        if_neg (List.ne_of_not_mem_cons h).symm]

/-- A text without line feeds is one line. -/
theorem lines_of_unbroken {line : List Char} (hne : line ≠ []) (h : '\n' ∉ line) :
    lines line = [line] := by
  induction line with
  | nil => exact absurd rfl hne
  | cons c line ih =>
      have hc : ¬c = '\n' := (List.ne_of_not_mem_cons h).symm
      rw [lines_cons]
      cases line with
      | nil => rw [lines_nil, consLine, if_neg hc]
      | cons d line =>
          rw [ih (List.cons_ne_nil d line) (List.not_mem_of_not_mem_cons h), consLine, if_neg hc]

/-- The lines of a text are those that are found. -/
theorem LinesOf.lines_eq {text : List Char} {ls : List (List Char)} (h : LinesOf text ls) :
    lines text = ls := by
  induction h with
  | none => rfl
  | last hne hline => exact lines_of_unbroken hne hline
  | line hline _ ih => rw [lines_append_line hline, ih]

/-- A character in front of the text belongs to its first line, or ends a line before it. -/
theorem LinesOf.cons {text : List Char} {ls : List (List Char)} (c : Char) (h : LinesOf text ls) :
    ∃ ls', LinesOf (c :: text) ls' := by
  by_cases hc : c = '\n'
  · subst hc
    exact ⟨[] :: ls, .line List.not_mem_nil h⟩
  · have keep {line : List Char} (hline : '\n' ∉ line) : '\n' ∉ c :: line :=
      List.not_mem_cons_of_ne_of_not_mem (Ne.symm hc) hline
    cases h with
    | none => exact ⟨[[c]], .last (List.cons_ne_nil c []) (keep List.not_mem_nil)⟩
    | last _ hline => exact ⟨[c :: text], .last (List.cons_ne_nil c text) (keep hline)⟩
    | @line line rest ls hline hrest => exact ⟨(c :: line) :: ls, .line (keep hline) hrest⟩

/-- Every text has lines. -/
theorem LinesOf.exists (text : List Char) : ∃ ls, LinesOf text ls := by
  induction text with
  | nil => exact ⟨[], .none⟩
  | cons c text ih =>
      obtain ⟨ls, h⟩ := ih
      exact h.cons c

/-- Dividing a text leaves no choice: its lines are those that are found, and no others. -/
theorem linesOf_iff {text : List Char} {ls : List (List Char)} :
    LinesOf text ls ↔ lines text = ls := by
  constructor
  · exact LinesOf.lines_eq
  · rintro rfl
    obtain ⟨ls, h⟩ := LinesOf.exists text
    exact h.lines_eq ▸ h

/-- A text has no more lines than characters. -/
theorem LinesOf.length_le {text : List Char} {ls : List (List Char)} (h : LinesOf text ls) :
    ls.length ≤ text.length := by
  induction h with
  | none => exact Nat.le_refl 0
  | last hne _ => exact List.length_pos_iff.mpr hne
  | line _ _ ih =>
      simp only [List.length_cons, List.length_append]
      omega

/-- A text starts with a text of its first lines. -/
theorem LinesOf.exists_take {text : List Char} {ls : List (List Char)} (h : LinesOf text ls)
    (n : Nat) : ∃ other, other <+: text ∧ LinesOf other (ls.take n) := by
  induction h generalizing n with
  | none => exact ⟨[], List.prefix_refl [], by simpa using LinesOf.none⟩
  | @last line hne hline =>
      cases n with
      | zero => exact ⟨[], List.nil_prefix, .none⟩
      | succ n => exact ⟨line, List.prefix_refl line, by simpa using LinesOf.last hne hline⟩
  | @line line text ls hline _ ih =>
      cases n with
      | zero => exact ⟨[], List.nil_prefix, .none⟩
      | succ n =>
          obtain ⟨other, hother, hlines⟩ := ih n
          exact ⟨line ++ '\n' :: other, (List.prefix_append_right_inj line).mpr
            (List.cons_prefix_cons.mpr ⟨rfl, hother⟩), .line hline hlines⟩

/-- Divided at its line feeds, a text is its lines, and an empty piece if a line feed or nothing
comes last. -/
theorem LinesOf.splitOn_eq {text : List Char} {ls : List (List Char)} (h : LinesOf text ls) :
    text.splitOn '\n' = ls ∨ text.splitOn '\n' = ls ++ [[]] := by
  induction h with
  | none => exact .inr rfl
  | last _ hline => exact .inl (List.splitOn_eq_singleton hline)
  | @line line _ _ hline _ ih =>
      rw [List.splitOn_append_cons_self_of_not_mem hline]
      exact ih.imp (congrArg (line :: ·)) (congrArg (line :: ·))

/-- A text has one piece more than line feeds. -/
theorem length_splitOn (text : List Char) :
    (text.splitOn '\n').length = text.count '\n' + 1 := by
  induction text with
  | nil => rfl
  | cons c text ih =>
      rw [List.splitOn_cons_eq_if_modifyHead, List.count_cons]
      split
      · rw [List.length_cons, ih]
      · rw [List.length_modifyHead, ih, Nat.add_zero]

/-! ### Margins -/

/-- The inner text is what is left without the blanks at the start and at the end. -/
structure Trimmed (text inner : List Char) : Prop where
  /-- Only blanks have gone. -/
  margins : ∃ before after, text = before ++ (inner ++ after) ∧ AllBlank before ∧ AllBlank after
  /-- No blank is left at the start. -/
  start : ∀ c ∈ inner.head?, isBlank c = false
  /-- No blank is left at the end. -/
  finish : ∀ c ∈ inner.getLast?, isBlank c = false

theorem dropWhile_allBlank_append {before : List Char} (h : AllBlank before) (text : List Char) :
    (before ++ text).dropWhile isBlank = text.dropWhile isBlank :=
  List.dropWhile_append_of_pos h

theorem dropWhile_allBlank {text : List Char} (h : AllBlank text) :
    text.dropWhile isBlank = [] := by
  rw [← List.append_nil text, dropWhile_allBlank_append h, List.dropWhile_nil]

theorem dropWhile_of_start {text : List Char} (h : ∀ c ∈ text.head?, isBlank c = false) :
    text.dropWhile isBlank = text := by
  cases text with
  | nil => rfl
  | cons c text => rw [List.dropWhile_cons_of_neg (by rw [h c rfl]; decide)]

/-- The margins of a text are those that are taken off. -/
theorem Trimmed.trim_eq {text inner : List Char} (h : Trimmed text inner) : trim text = inner := by
  obtain ⟨before, after, rfl, hb, ha⟩ := h.margins
  have hr : AllBlank after.reverse := fun c hc => ha c (List.mem_reverse.mp hc)
  rw [trim, dropWhile_allBlank_append hb]
  cases inner with
  | nil => rw [List.nil_append, dropWhile_allBlank ha]; rfl
  | cons c inner =>
      have hstart : (c :: inner ++ after).dropWhile isBlank = c :: inner ++ after :=
        dropWhile_of_start h.start
      rw [hstart, List.reverse_append, dropWhile_allBlank_append hr, dropWhile_of_start,
        List.reverse_reverse]
      rw [List.head?_reverse]
      exact h.finish

/-- Every text starts with blanks that can be dropped, and no blank comes next. -/
theorem exists_dropWhile (text : List Char) :
    ∃ before, text = before ++ text.dropWhile isBlank ∧ AllBlank before ∧
      ∀ c ∈ (text.dropWhile isBlank).head?, isBlank c = false := by
  refine ⟨text.takeWhile isBlank, List.takeWhile_append_dropWhile.symm,
    List.all_eq_true.mp List.all_takeWhile, fun c hc => ?_⟩
  have h := List.head?_dropWhile_not isBlank text
  rw [Option.mem_def.mp hc] at h
  exact h

theorem trimmed_trim (text : List Char) : Trimmed text (trim text) := by
  obtain ⟨before, ht, hb, hstart⟩ := exists_dropWhile text
  obtain ⟨after, hd, ha, hfinish⟩ := exists_dropWhile (text.dropWhile isBlank).reverse
  have hinner : text.dropWhile isBlank = trim text ++ after.reverse := by
    rw [← List.reverse_reverse (text.dropWhile isBlank), hd, List.reverse_append]
    rfl
  refine ⟨⟨before, after.reverse, hinner ▸ ht, hb, fun c hc => ha c (List.mem_reverse.mp hc)⟩,
    fun c hc => hstart c ?_, fun c hc => hfinish c ?_⟩
  · rw [hinner, Option.mem_def, List.head?_append, Option.mem_def.mp hc, Option.some_or]
  · rw [trim, List.getLast?_reverse] at hc
    exact hc

/-- Taking off the margins leaves no choice. -/
theorem trimmed_iff {text inner : List Char} : Trimmed text inner ↔ trim text = inner :=
  ⟨Trimmed.trim_eq, fun h => h ▸ trimmed_trim text⟩

/-- Further blanks around a text are taken off with the others. -/
theorem trim_margins {before after : List Char} (hb : AllBlank before) (ha : AllBlank after)
    (text : List Char) : trim (before ++ (text ++ after)) = trim text := by
  obtain ⟨⟨b, a, htext, hb', ha'⟩, hstart, hfinish⟩ := trimmed_trim text
  refine Trimmed.trim_eq ⟨⟨before ++ b, a ++ after, ?_, hb.append hb', ha'.append ha⟩, hstart,
    hfinish⟩
  calc before ++ (text ++ after) = before ++ ((b ++ (trim text ++ a)) ++ after) := by rw [← htext]
    _ = _ := by simp only [List.append_assoc]

/-! ### Words -/

/-- The line has these words: blanks may stand before and behind them, and each one is
as long as it can be. -/
inductive WordsOf : List Char → List (List Char) → Prop
  | blank {gap : List Char} : AllBlank gap → WordsOf gap []
  | word {gap word rest : List Char} {ws : List (List Char)} : AllBlank gap → word ≠ [] →
      NoBlank word → (∀ c ∈ rest.head?, isBlank c = true) → WordsOf rest ws →
      WordsOf (gap ++ (word ++ rest)) (word :: ws)

/-- Blanks in front do not change the words. -/
theorem words_allBlank_append {gap : List Char} (h : AllBlank gap) (text : List Char) :
    words (gap ++ text) = words text := by
  induction gap with
  | nil => rfl
  | cons c gap ih =>
      obtain ⟨hc, hgap⟩ := List.forall_mem_cons.mp h
      rw [List.cons_append, words_cons_of_isBlank hc, ih hgap]

/-- A word that ends before a blank or at the end of the text is divided off as it is. -/
theorem ofText_word {word rest : List Char} (hw : NoBlank word)
    (hr : ∀ c ∈ rest.head?, isBlank c = true) :
    Worded.ofText (word ++ rest) = ⟨word, words rest⟩ := by
  induction word with
  | nil =>
      cases rest with
      | nil => rfl
      | cons c rest =>
          rw [words_cons_of_isBlank (hr c rfl), List.nil_append, Worded.ofText_cons, Worded.cons,
            if_pos (hr c rfl)]
          rfl
  | cons c word ih =>
      obtain ⟨hc, hword⟩ := List.forall_mem_cons.mp hw
      rw [List.cons_append, Worded.ofText_cons, ih hword, Worded.cons, if_neg (by rw [hc]; decide)]

/-- A word before a blank, or before the end, is the first word. -/
theorem words_word {word rest : List Char} (hne : word ≠ []) (hw : NoBlank word)
    (hr : ∀ c ∈ rest.head?, isBlank c = true) : words (word ++ rest) = word :: words rest := by
  rw [words, ofText_word hw hr, Worded.words, if_neg (by simpa using hne)]

theorem Worded.words_append (w : Worded) (more : List (List Char)) :
    (⟨w.first, w.others ++ more⟩ : Worded).words = w.words ++ more := by
  unfold Worded.words
  split <;> rfl

/-- Blanks in the middle of a text divide its words. -/
theorem words_append_gap {gap : List Char} (h : AllBlank gap) (hne : gap ≠ [])
    (left right : List Char) : words (left ++ (gap ++ right)) = words left ++ words right := by
  have hgap : Worded.ofText (gap ++ right) = ⟨[], words right⟩ := by
    obtain ⟨c, gap, rfl⟩ := List.exists_cons_of_ne_nil hne
    obtain ⟨hc, hgap⟩ := List.forall_mem_cons.mp h
    rw [List.cons_append, Worded.ofText_cons, Worded.cons, if_pos hc, ← words,
      words_allBlank_append hgap]
  have hleft : Worded.ofText (left ++ (gap ++ right)) =
      ⟨(Worded.ofText left).first, (Worded.ofText left).others ++ words right⟩ := by
    induction left with
    | nil => exact hgap
    | cons c left ih =>
        rw [List.cons_append, Worded.ofText_cons, ih, Worded.ofText_cons, Worded.cons, Worded.cons]
        split
        · rw [Worded.words_append]
        · rfl
  rw [words, hleft, Worded.words_append, ← words]

/-- Blanks at the margins do not change the words. -/
theorem words_trim (text : List Char) : words (trim text) = words text := by
  obtain ⟨⟨before, after, htext, hb, ha⟩, -, -⟩ := trimmed_trim text
  have hafter : words (trim text ++ after) = words (trim text) := by
    by_cases hne : after = []
    · rw [hne, List.append_nil]
    · simpa using words_append_gap ha hne (trim text) []
  calc words (trim text) = words (before ++ (trim text ++ after)) := by
        rw [words_allBlank_append hb, hafter]
    _ = words text := by rw [← htext]

/-- A text without blanks at the start starts as its first word does. -/
theorem head?_words {text : List Char} (h : ∀ c ∈ text.head?, isBlank c = false) :
    (words text).head?.bind List.head? = text.head? := by
  cases text with
  | nil => rfl
  | cons c text =>
      rw [words, Worded.ofText_cons, Worded.cons, if_neg (by rw [h c rfl]; decide)]
      rfl

/-- A line starts, margins aside, with the first character of its first word. -/
theorem head?_trim (text : List Char) :
    (trim text).head? = (words text).head?.bind List.head? := by
  rw [← words_trim, head?_words (trimmed_trim text).start]

theorem WordsOf.words_eq {text : List Char} {ws : List (List Char)} (h : WordsOf text ws) :
    words text = ws := by
  induction h with
  | @blank gap hg => rw [← List.append_nil gap, words_allBlank_append hg, words_nil]
  | word hg hne hw hr _ ih => rw [words_allBlank_append hg, words_word hne hw hr, ih]

theorem WordsOf.cons_blank {c : Char} {text : List Char} {ws : List (List Char)}
    (hc : isBlank c = true) (h : WordsOf text ws) : WordsOf (c :: text) ws := by
  cases h with
  | blank hg => exact .blank (.cons hc hg)
  | word hg hne hw hr hrest => exact .word (.cons hc hg) hne hw hr hrest

/-- A text has words: behind its first one, which may be empty, come those of the rest. -/
theorem WordsOf.exists (text : List Char) : ∃ word rest ws, text = word ++ rest ∧ NoBlank word ∧
    (∀ c ∈ rest.head?, isBlank c = true) ∧ WordsOf rest ws := by
  induction text with
  | nil => exact ⟨[], [], [], rfl, .nil, by simp, .blank .nil⟩
  | cons c text ih =>
      obtain ⟨word, rest, ws, rfl, hw, hr, hws⟩ := ih
      by_cases hc : isBlank c = true
      · refine ⟨[], c :: (word ++ rest), ?_⟩
        by_cases hne : word = []
        · subst hne
          exact ⟨ws, rfl, .nil, fun d hd => by cases hd; exact hc, hws.cons_blank hc⟩
        · exact ⟨word :: ws, rfl, .nil, fun d hd => by cases hd; exact hc,
            (WordsOf.word .nil hne hw hr hws).cons_blank hc⟩
      · exact ⟨c :: word, rest, ws, rfl, .cons (Bool.eq_false_iff.mpr hc) hw, hr, hws⟩

/-- The words of a text are those that are found, and no others. -/
theorem wordsOf_iff {text : List Char} {ws : List (List Char)} :
    WordsOf text ws ↔ words text = ws := by
  constructor
  · exact WordsOf.words_eq
  · rintro rfl
    obtain ⟨word, rest, ws, rfl, hw, hr, hws⟩ := WordsOf.exists text
    by_cases hne : word = []
    · subst hne
      exact hws.words_eq.symm ▸ hws
    · have h : WordsOf (word ++ rest) (word :: ws) := .word .nil hne hw hr hws
      exact h.words_eq.symm ▸ h

/-! ### Words with single spaces between them -/

/-- The text is a word: not empty and without blanks. -/
structure IsWord (word : List Char) : Prop where
  /-- There is a character. -/
  ne_nil : word ≠ []
  /-- No character is blank. -/
  noBlank : NoBlank word

/-- The words with a space between every two. -/
def spaced : List (List Char) → List Char
  | [] => []
  | [word] => word
  | word :: next :: ws => word ++ ' ' :: spaced (next :: ws)

theorem spaced_cons {word : List Char} {ws : List (List Char)} (h : ws ≠ []) :
    spaced (word :: ws) = word ++ ' ' :: spaced ws := by
  cases ws with
  | nil => exact absurd rfl h
  | cons next ws => rfl

theorem head?_spaced {word : List Char} (hw : word ≠ []) (ws : List (List Char)) :
    (spaced (word :: ws)).head? = word.head? := by
  obtain ⟨c, rest, rfl⟩ := List.exists_cons_of_ne_nil hw
  cases ws with
  | nil => rfl
  | cons next ws => rfl

theorem spaced_ne_nil {word : List Char} (hw : word ≠ []) (ws : List (List Char)) :
    spaced (word :: ws) ≠ [] := by
  intro h
  have hhead := head?_spaced hw ws
  rw [h] at hhead
  exact hw (List.head?_eq_none_iff.mp hhead.symm)

/-- Words with a space between any two hold the characters of the words and spaces. -/
theorem mem_spaced {c : Char} : ∀ {ws : List (List Char)}, c ∈ spaced ws →
    c = ' ' ∨ ∃ w ∈ ws, c ∈ w
  | [word], h => .inr ⟨word, List.mem_cons_self, h⟩
  | word :: next :: ws, h => by
      rw [spaced, List.mem_append, List.mem_cons] at h
      obtain hw | hspace | hrest := h
      · exact .inr ⟨word, List.mem_cons_self, hw⟩
      · exact .inl hspace
      · obtain hspace | ⟨w, hw, hc⟩ := mem_spaced hrest
        · exact .inl hspace
        · exact .inr ⟨w, List.mem_cons_of_mem word hw, hc⟩

theorem newline_not_mem_spaced {ws : List (List Char)} (h : ∀ w ∈ ws, IsWord w) :
    '\n' ∉ spaced ws := by
  intro hc
  obtain hspace | ⟨w, hw, hc⟩ := mem_spaced hc
  · exact absurd hspace (by decide)
  · exact absurd ((h w hw).noBlank '\n' hc) (by decide)

/-- Words are found again if there is a space between any two. -/
theorem wordsOf_spaced : ∀ {ws : List (List Char)}, (∀ w ∈ ws, IsWord w) → WordsOf (spaced ws) ws
  | [], _ => .blank .nil
  | [word], h => by
      have hw := h word List.mem_cons_self
      have hword : WordsOf ([] ++ (word ++ [])) [word] :=
        .word .nil hw.ne_nil hw.noBlank (by simp) (.blank .nil)
      rwa [List.nil_append, List.append_nil] at hword
  | word :: next :: ws, h => by
      obtain ⟨hw, hws⟩ := List.forall_mem_cons.mp h
      have hspace : isBlank ' ' = true := by decide
      exact .word .nil hw.ne_nil hw.noBlank (fun c hc => by cases hc; exact hspace)
        ((wordsOf_spaced hws).cons_blank hspace)

/-- The last character of spaced words is one of the last word. -/
theorem isBlank_getLast?_spaced : ∀ {ws : List (List Char)}, (∀ w ∈ ws, IsWord w) →
    ∀ c ∈ (spaced ws).getLast?, isBlank c = false
  | [], _ => by simp [spaced]
  | [word], h => fun c hc => (h word List.mem_cons_self).noBlank c (List.mem_of_getLast? hc)
  | word :: next :: ws, h => by
      obtain ⟨-, hws⟩ := List.forall_mem_cons.mp h
      obtain ⟨hnext, -⟩ := List.forall_mem_cons.mp hws
      have hlast := List.getLast?_eq_some_getLast (spaced_ne_nil hnext.ne_nil ws)
      rw [spaced, List.getLast?_append, List.getLast?_cons, hlast]
      exact fun c hc => isBlank_getLast?_spaced hws c (hlast.trans hc)

/-- Words with a space between any two have no margins. -/
theorem trimmed_spaced {ws : List (List Char)} (h : ∀ w ∈ ws, IsWord w) :
    Trimmed (spaced ws) (spaced ws) := by
  refine ⟨⟨[], [], by simp, .nil, .nil⟩, ?_, isBlank_getLast?_spaced h⟩
  cases ws with
  | nil => simp [spaced]
  | cons word ws =>
      have hw := h word List.mem_cons_self
      rw [head?_spaced hw.ne_nil]
      exact fun c hc => hw.noBlank c (List.mem_of_head? hc)

end Clausal
