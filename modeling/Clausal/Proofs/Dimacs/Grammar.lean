import Clausal.Dimacs.Parser
import Clausal.Proofs.Numeral
import Clausal.Proofs.Text
import Mathlib.Data.List.Forall2

/-!
# The grammar of a DIMACS text

The form of a text and the formula it denotes, stated without a reader: a text has
lines, a line has words, and words are numerals and literals, each in the sense of a
relation that says nothing of how the pieces are found.

`Content` picks the lines that say something.  `ProblemLine` and `ClauseLine` are the
two forms of such a line, `Conforms` is the form of a whole text, and `Denoted` is
what the formula of such a text is.  Beside each form of a line stands what its
reader makes of it.  Faults are not described: a line that has no form is a fault of
some kind.
-/

namespace Clausal

namespace Dimacs

/-- The line starts with the character. -/
def StartsWith (c : Char) (line : List Char) : Prop := line.head? = some c

instance (c : Char) (line : List Char) : Decidable (StartsWith c line) :=
  inferInstanceAs (Decidable (line.head? = some c))

theorem StartsWith.unique {line : List Char} {c d : Char} (hc : StartsWith c line)
    (hd : StartsWith d line) : c = d :=
  Option.some.inj (hc.symm.trans hd)

/-! ### Lines of content -/

/-- The lines of content of a text: its lines without the blanks around them, up to
the first that starts with `%`, but for the blank ones and those that start with `c`.
A carriage return before a line feed is one of the blanks. -/
def Content (text : List Char) (content : List (List Char)) : Prop :=
  ∃ raw trimmed, LinesOf text raw ∧ List.Forall₂ Trimmed raw trimmed ∧
    content = (trimmed.takeWhile fun l => ¬StartsWith '%' l).filter
      fun l => ¬(l = [] ∨ StartsWith 'c' l)

/-- The lines of a text without the blanks around them, numbered from one. -/
def NumberedLinesOf (text : List Char) (ls : List Line) : Prop :=
  ∃ raw, LinesOf text raw ∧
    List.Forall₂ (fun place l => l.number = place.2 + 1 ∧ Trimmed place.1 l.text) raw.zipIdx ls

/-- The lines of content of a text, with their numbers in it. -/
def NumberedContent (text : List Char) (ls : List Line) : Prop :=
  ∃ all, NumberedLinesOf text all ∧
    ls = (all.takeWhile fun l => ¬StartsWith '%' l.text).filter
      fun l => ¬(l.text = [] ∨ StartsWith 'c' l.text)

theorem Line.isTrailer_iff {l : Line} : l.isTrailer = true ↔ StartsWith '%' l.text := by
  simp [isTrailer, StartsWith]

theorem Line.isSilent_iff {l : Line} : l.isSilent = true ↔ l.text = [] ∨ StartsWith 'c' l.text := by
  simp [isSilent, StartsWith]

theorem Line.isProblem_iff {l : Line} : l.isProblem = true ↔ StartsWith 'p' l.text := by
  simp [isProblem, StartsWith]

/-- Lines without their margins are the lines with the margins taken off. -/
theorem forall₂_trimmed_iff {raw trimmed : List (List Char)} :
    List.Forall₂ Trimmed raw trimmed ↔ raw.map trim = trimmed := by
  rw [← List.forall₂_eq_eq_eq, List.forall₂_map_left_iff]
  exact ⟨fun h => h.imp fun _ _ => Trimmed.trim_eq, fun h => h.imp fun _ _ => trimmed_iff.mpr⟩

theorem map_text_numberedLines (text : List Char) :
    (numberedLines text).map Line.text = (lines text).map trim := by
  have h : (numberedLines text).map Line.text = ((lines text).zipIdx.map Prod.fst).map trim := by
    rw [numberedLines, List.map_map, List.map_map]
    rfl
  rw [h, List.zipIdx_map_fst]

/-- The parser picks the lines of content by their first characters. -/
theorem contentLines_eq_filter (text : List Char) : contentLines text =
    ((numberedLines text).takeWhile fun l => ¬StartsWith '%' l.text).filter
      fun l => ¬(l.text = [] ∨ StartsWith 'c' l.text) := by
  have htrailer (l : Line) : (!l.isTrailer) = decide ¬StartsWith '%' l.text := by
    rw [Bool.eq_iff_iff]
    simp [← Line.isTrailer_iff]
  have hsilent (l : Line) : (!l.isSilent) = decide ¬(l.text = [] ∨ StartsWith 'c' l.text) := by
    rw [Bool.eq_iff_iff]
    simp [← Line.isSilent_iff, -not_or]
  simp only [contentLines, htrailer, hsilent]

/-- The lines of content, without their numbers. -/
theorem map_text_contentLines (text : List Char) :
    (contentLines text).map Line.text =
      (((lines text).map trim).takeWhile fun l => ¬StartsWith '%' l).filter
        fun l => ¬(l = [] ∨ StartsWith 'c' l) := by
  rw [← map_text_numberedLines, List.takeWhile_map, List.filter_map, contentLines_eq_filter]
  rfl

/-- The lines of content are those that the parser picks. -/
theorem content_iff {text : List Char} {content : List (List Char)} :
    Content text content ↔ (contentLines text).map Line.text = content := by
  rw [map_text_contentLines]
  constructor
  · rintro ⟨raw, trimmed, hraw, htrimmed, rfl⟩
    rw [linesOf_iff.mp hraw, forall₂_trimmed_iff.mp htrimmed]
  · rintro rfl
    exact ⟨lines text, (lines text).map trim, linesOf_iff.mpr rfl, forall₂_trimmed_iff.mpr rfl, rfl⟩

/-- Numbering and trimming leave no choice. -/
theorem numberedLinesOf_iff {text : List Char} {ls : List Line} :
    NumberedLinesOf text ls ↔ numberedLines text = ls := by
  have hline : (fun (place : List Char × ℕ) (l : Line) =>
      l.number = place.2 + 1 ∧ Trimmed place.1 l.text) =
      fun place l => (⟨place.2 + 1, trim place.1⟩ : Line) = l := by
    funext ⟨raw, i⟩ ⟨number, line⟩
    simp only [trimmed_iff, Line.mk.injEq, @eq_comm _ number]
  simp only [NumberedLinesOf, linesOf_iff, exists_eq_left', hline, numberedLines]
  rw [← List.forall₂_map_left_iff (R := (· = ·)), List.forall₂_eq_eq_eq]

/-- So they are with their numbers. -/
theorem numberedContent_iff {text : List Char} {ls : List Line} :
    NumberedContent text ls ↔ contentLines text = ls := by
  simp only [NumberedContent, numberedLinesOf_iff, exists_eq_left', contentLines_eq_filter]
  exact eq_comm

/-- A text has at least as many characters as lines of content. -/
theorem Content.length_le {text : List Char} {content : List (List Char)}
    (h : Content text content) : content.length ≤ text.length := by
  obtain ⟨raw, trimmed, hraw, htrimmed, rfl⟩ := h
  calc _ ≤ (trimmed.takeWhile fun l => ¬StartsWith '%' l).length := List.length_filter_le _ _
    _ ≤ trimmed.length := (List.takeWhile_sublist _).length_le
    _ = raw.length := htrimmed.length_eq.symm
    _ ≤ text.length := hraw.length_le

/-! ### Clause lines -/

/-- The words of a clause line with their literals: after the last literal may stand one
word more, which is `0`. -/
inductive ClauseWords : List (List Char) → List Literal → Prop
  | none : ClauseWords [] []
  | zero : ClauseWords [['0']] []
  | literal {word : List Char} {l : Literal} {ws : List (List Char)} {ls : List Literal} :
      Literal.Denotes word l → ClauseWords ws ls → ClauseWords (word :: ws) (l :: ls)

/-- The line is a clause line with these literals, in order and with repetitions. -/
def ClauseLine (line : List Char) (ls : List Literal) : Prop :=
  ∃ ws, WordsOf line ws ∧ ClauseWords ws ls

/-- The word `0` is no literal, since no variable has the number zero. -/
theorem not_denotes_zero {l : Literal} : ¬Literal.Denotes ['0'] l := by
  intro h
  have hread := Literal.read_eq_ok_iff.mpr h
  cases hread

/-- Words are read exactly if they are literals, with a `0` behind them or not. -/
theorem readLiterals_eq_ok_iff {line : Line} : ∀ {ws : List (List Char)} {ls : List Literal},
    readLiterals line ws = .ok ls ↔ ClauseWords ws ls
  | [], ls => by
      simp only [readLiterals, Except.ok.injEq]
      constructor
      · rintro rfl
        exact .none
      · rintro ⟨⟩
        rfl
  | word :: rest, ls => by
      by_cases hzero : word = ['0']
      · subst hzero
        rw [readLiterals, if_pos rfl]
        constructor
        · intro h
          split at h
          · next hrest =>
              cases h
              exact List.isEmpty_iff.mp hrest ▸ .zero
          · cases h
        · intro h
          cases h with
          | zero => rfl
          | literal hl _ => exact absurd hl not_denotes_zero
      · rw [readLiterals, if_neg hzero]
        constructor
        · intro h
          split at h
          · cases h
          · next l hl =>
              obtain ⟨ls', hrest, rfl⟩ := map_eq_ok_iff.mp h
              exact .literal (Literal.read_eq_ok_iff.mp hl) (readLiterals_eq_ok_iff.mp hrest)
        · intro h
          cases h with
          | zero => exact absurd rfl hzero
          | literal hl hrest =>
              rw [Literal.read_eq_ok_iff.mpr hl]
              exact map_eq_ok_iff.mpr ⟨_, readLiterals_eq_ok_iff.mpr hrest, rfl⟩

/-- A line is read as a clause exactly if it is a clause line, and as the clause of its literals. -/
theorem readClause_eq_ok_iff {line : Line} {c : Clause} :
    readClause line = .ok c ↔ ∃ ls, ClauseLine line.text ls ∧ Clause.ofLiterals ls = c := by
  simp only [readClause, map_eq_ok_iff, readLiterals_eq_ok_iff, ClauseLine, wordsOf_iff,
    exists_eq_left']

/-! ### The problem line -/

/-- The line is `p cnf <n> <m>` with a number of 64 bits for each, and there are `n`
variables. -/
def ProblemLine (line : List Char) (n m : Nat) : Prop :=
  ∃ numVariables numClauses,
    WordsOf line [['p'], ['c', 'n', 'f'], numVariables, numClauses] ∧
    Numeral.Denotes numVariables n ∧ n ≤ Variable.maxId ∧
    Numeral.Denotes numClauses m ∧ m ≤ Numeral.maxWord

theorem ProblemLine.le_maxId {line : List Char} {n m : Nat} (h : ProblemLine line n m) :
    n ≤ Variable.maxId := by
  obtain ⟨_, _, -, -, hn, -, -⟩ := h
  exact hn

theorem ProblemLine.le_maxWord {line : List Char} {n m : Nat} (h : ProblemLine line n m) :
    m ≤ Numeral.maxWord := by
  obtain ⟨_, _, -, -, -, -, hm⟩ := h
  exact hm

/-- Two numerals are a declaration exactly if both numbers are within their limits. -/
theorem ofNumerals?_eq_some_iff {n m : List Char} {p : Problem} :
    Problem.ofNumerals? n m = some p ↔
      Numeral.Denotes n p.numVariables ∧ Numeral.Denotes m p.numClauses ∧
        p.numClauses ≤ Numeral.maxWord := by
  unfold Problem.ofNumerals?
  constructor
  · intro h
    split at h
    · next hn hm =>
        split at h
        · cases h
          exact ⟨(Numeral.read_eq_ok_iff.mp hn).1, Numeral.read_eq_ok_iff.mp hm⟩
        · cases h
    · cases h
  · rintro ⟨hn, hm, hle⟩
    have hword : p.numVariables ≤ Numeral.maxWord :=
      Nat.le_trans p.numVariables_le Variable.maxId_le_maxWord
    rw [Numeral.read_eq_ok_iff.mpr ⟨hn, hword⟩, Numeral.read_eq_ok_iff.mpr ⟨hm, hle⟩]
    exact dif_pos p.numVariables_le

theorem ofWords?_eq_some_iff {ws : List (List Char)} {p : Problem} :
    Problem.ofWords? ws = some p ↔
      ∃ n m, ws = [['p'], ['c', 'n', 'f'], n, m] ∧ Problem.ofNumerals? n m = some p := by
  unfold Problem.ofWords?
  split
  · next first second n m =>
      split
      · next heq =>
          obtain ⟨rfl, rfl⟩ := heq
          simp
      · next hne =>
          simp only [reduceCtorEq, false_iff]
          rintro ⟨n', m', heq, -⟩
          injection heq with hp heq
          injection heq with hcnf _
          exact hne ⟨hp, hcnf⟩
  · next hne =>
      simp only [reduceCtorEq, false_iff]
      rintro ⟨n, m, rfl, -⟩
      exact hne _ _ _ _ rfl

/-- A line is read as a problem line exactly if it is one. -/
theorem readProblem_eq_ok_iff {line : Line} {p : Problem} :
    readProblem line = .ok p ↔ ProblemLine line.text p.numVariables p.numClauses := by
  have hread : readProblem line = .ok p ↔ Problem.ofWords? (words line.text) = some p := by
    unfold readProblem
    split
    · next q hq => simp [hq]
    · next hq => simp [hq]
  rw [hread]
  constructor
  · intro h
    obtain ⟨n, m, hw, hp⟩ := ofWords?_eq_some_iff.mp h
    obtain ⟨hn, hm, hle⟩ := ofNumerals?_eq_some_iff.mp hp
    exact ⟨n, m, wordsOf_iff.mpr hw, hn, p.numVariables_le, hm, hle⟩
  · rintro ⟨n, m, hw, hn, -, hm, hle⟩
    exact ofWords?_eq_some_iff.mpr
      ⟨n, m, wordsOf_iff.mp hw, ofNumerals?_eq_some_iff.mpr ⟨hn, hm, hle⟩⟩

/-! ### The whole text -/

/-- The text has the form of a formula: its problem line, if it has one, declares these
numbers of variables and of clauses, and its clause lines have these literals. -/
inductive Conforms (text : List Char) : Option (Nat × Nat) → List (List Literal) → Prop
  | headless {content : List (List Char)} {lss : List (List Literal)} :
      Content text content → (∀ line ∈ content, ¬StartsWith 'p' line) →
      List.Forall₂ ClauseLine content lss → Conforms text none lss
  | headed {problem : List Char} {content : List (List Char)} {n m : Nat}
      {lss : List (List Literal)} :
      Content text (problem :: content) → StartsWith 'p' problem → ProblemLine problem n m →
      (∀ line ∈ content, ¬StartsWith 'p' line) → List.Forall₂ ClauseLine content lss →
      (∀ ls ∈ lss, ∀ l ∈ ls, l.var.id ≤ n) → lss.length = m → Conforms text (some (n, m)) lss

/-- A text has at least as many characters as clauses. -/
theorem Conforms.length_le {text : List Char} {declared : Option (Nat × Nat)}
    {lss : List (List Literal)} (h : Conforms text declared lss) : lss.length ≤ text.length := by
  cases h with
  | headless hcontent _ hlss => exact hlss.length_eq ▸ hcontent.length_le
  | headed hcontent _ _ _ hlss _ _ =>
      exact hlss.length_eq ▸ Nat.le_trans (Nat.le_succ _) hcontent.length_le

/-- What a problem line declares of the number of clauses is a number of 64 bits. -/
theorem Conforms.length_le_maxWord {text : List Char} {d : Nat × Nat} {lss : List (List Literal)}
    (h : Conforms text (some d) lss) : lss.length ≤ Numeral.maxWord := by
  cases h with
  | headed _ _ hproblem _ _ _ hcount => exact hcount ▸ hproblem.le_maxWord

/-- The number is that of the greatest variable of the literals, or zero without any. -/
structure Greatest (lss : List (List Literal)) (n : Nat) : Prop where
  /-- No variable has a greater number. -/
  bound : ∀ ls ∈ lss, ∀ l ∈ ls, l.var.id ≤ n
  /-- Some variable has the number, unless it is zero. -/
  attained : n = 0 ∨ ∃ ls ∈ lss, ∃ l ∈ ls, l.var.id = n

/-- There is one such number. -/
theorem Greatest.unique {lss : List (List Literal)} {n k : Nat} (hn : Greatest lss n)
    (hk : Greatest lss k) : n = k := by
  have le {n k : Nat} (hn : Greatest lss n) (hk : Greatest lss k) : n ≤ k := by
    obtain rfl | ⟨ls, hls, l, hl, rfl⟩ := hn.attained
    · exact Nat.zero_le k
    · exact hk.bound ls hls l hl
  exact Nat.le_antisymm (le hn hk) (le hk hn)

/-- The formula with these clauses: over the declared variables, or over those up to the
greatest that occurs. -/
structure Denoted (declared : Option (Nat × Nat)) (lss : List (List Literal)) (f : Formula) :
    Prop where
  /-- One clause for every clause line, in order. -/
  clauses : f.clauses = lss.map Clause.ofLiterals
  /-- As many variables as declared, or as needed without a declaration. -/
  numVariables : match declared with
    | some (n, _) => f.numVariables = n
    | none => Greatest lss f.numVariables

/-- There is at most one formula that a text denotes. -/
theorem Denoted.unique {declared : Option (Nat × Nat)} {lss : List (List Literal)}
    {f g : Formula} (hf : Denoted declared lss f) (hg : Denoted declared lss g) : f = g := by
  refine Formula.eq_of_fields ?_ (hf.clauses.trans hg.clauses.symm)
  cases declared with
  | none => exact hf.numVariables.unique hg.numVariables
  | some d => exact hf.numVariables.trans hg.numVariables.symm

theorem Denoted.length_eq {declared : Option (Nat × Nat)} {lss : List (List Literal)} {f : Formula}
    (h : Denoted declared lss f) : f.clauses.length = lss.length := by
  rw [h.clauses, List.length_map]

end Dimacs

end Clausal
