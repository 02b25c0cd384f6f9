import Clausal.Dimacs.Printer
import Clausal.Proofs.Dimacs.Acceptance
import Mathlib.Data.List.TakeWhile

/-!
# Printing and reading are inverse

A printed text is built from words with single spaces between them: the four words of
the problem line, and for every clause the words of its literals and `0`.  Such a line
has these words and no margins, so the text conforms to the grammar, and it denotes the
formula that was printed.  That the problem line covers every clause is an invariant of
formulas.

One limit remains.  The number of clauses is read as a number of 64 bits, so the text
of a formula with more clauses than that is refused.  No such formula fits into a
memory with addresses of 64 bits, and none is read from a text that does.
-/

namespace Clausal

namespace Dimacs

/-! ### Words of printed lines -/

theorem isBlank_of_isDigit {c : Char} (h : c.isDigit = true) : isBlank c = false := by
  obtain ⟨hlow, hhigh⟩ := Numeral.isDigit_iff.mp h
  have hlow : 48 ≤ c.toNat := UInt32.le_iff_toNat_le.mp hlow
  have hhigh : c.toNat ≤ 57 := UInt32.le_iff_toNat_le.mp hhigh
  simp [isBlank, blankRanges]
  omega

theorem isWord_digits (n : Nat) : IsWord (Numeral.digits n) :=
  ⟨Numeral.digits_ne_nil n, fun _ hc => isBlank_of_isDigit (Numeral.isDigit_of_mem_digits hc)⟩

/-- A printed literal is one word. -/
theorem isWord_printLiteral (l : Literal) : IsWord (printLiteral l) := by
  have h := isWord_digits l.var.id
  unfold printLiteral
  split
  · exact h
  · exact ⟨List.cons_ne_nil _ _, .cons (by decide) h.noBlank⟩

/-- A printed literal is a text of the literal. -/
theorem denotes_printLiteral (l : Literal) : Literal.Denotes (printLiteral l) l :=
  ⟨Numeral.digits l.var.id, rfl, Numeral.denotes_digits l.var.id⟩

/-- The words of a problem line. -/
def problemWords (n m : Nat) : List (List Char) :=
  [['p'], ['c', 'n', 'f'], Numeral.digits n, Numeral.digits m]

/-- The words of the line of a clause. -/
def clauseWords (c : Clause) : List (List Char) := c.literals.map printLiteral ++ [['0']]

theorem isWord_of_mem_problemWords {n m : Nat} : ∀ w ∈ problemWords n m, IsWord w := by
  have hp : IsWord ['p'] := ⟨by decide, .cons (by decide) .nil⟩
  have hcnf : IsWord ['c', 'n', 'f'] :=
    ⟨by decide, .cons (by decide) (.cons (by decide) (.cons (by decide) .nil))⟩
  simp [problemWords, hp, hcnf, isWord_digits]

theorem isWord_of_mem_clauseWords {c : Clause} : ∀ w ∈ clauseWords c, IsWord w := by
  intro w hw
  obtain hw | hw := List.mem_append.mp hw
  · obtain ⟨l, -, rfl⟩ := List.mem_map.mp hw
    exact isWord_printLiteral l
  · cases List.mem_singleton.mp hw
    exact ⟨by decide, .cons (by decide) .nil⟩

theorem printProblem_eq (n m : Nat) : printProblem n m = spaced (problemWords n m) ++ ['\n'] := by
  simp [printProblem, problemWords, spaced]

theorem printClause_eq (c : Clause) : printClause c = spaced (clauseWords c) ++ ['\n'] := by
  have h (ls : List Literal) : ls.flatMap (fun l => printLiteral l ++ [' ']) ++ ['0'] =
      spaced (ls.map printLiteral ++ [['0']]) := by
    induction ls with
    | nil => rfl
    | cons l ls ih =>
      rw [List.map_cons, List.cons_append, spaced_cons (by simp), ← ih]
      simp
  rw [printClause, clauseWords, ← h]
  simp

/-- The words of the lines of a printed formula. -/
def printedWords (f : Formula) : List (List (List Char)) :=
  problemWords f.numVariables f.clauses.length :: f.clauses.map clauseWords

/-- A printed formula has a line for the declaration and one for every clause, with a space between
any two words. -/
theorem print_eq (f : Formula) :
    print f = (printedWords f).flatMap fun ws => spaced ws ++ ['\n'] := by
  rw [printedWords, List.flatMap_cons, List.flatMap_map, print, printProblem_eq,
    funext printClause_eq]

theorem isWord_of_mem_printedWords {f : Formula} : ∀ ws ∈ printedWords f, ∀ w ∈ ws, IsWord w := by
  intro ws hws
  obtain rfl | hws := List.mem_cons.mp hws
  · exact isWord_of_mem_problemWords
  · obtain ⟨c, -, rfl⟩ := List.mem_map.mp hws
    exact isWord_of_mem_clauseWords

/-! ### The printed text conforms -/

/-- Lines of words with a line feed behind each are the lines of their text. -/
theorem linesOf_flatMap : ∀ {wss : List (List (List Char))}, (∀ ws ∈ wss, ∀ w ∈ ws, IsWord w) →
    LinesOf (wss.flatMap fun ws => spaced ws ++ ['\n']) (wss.map spaced)
  | [], _ => .none
  | ws :: wss, h => by
      obtain ⟨hws, hwss⟩ := List.forall_mem_cons.mp h
      have hline := LinesOf.line (newline_not_mem_spaced hws) (linesOf_flatMap hwss)
      rw [List.flatMap_cons, List.append_assoc, List.map_cons]
      exact hline

/-- These are its lines. -/
theorem linesOf_print (f : Formula) : LinesOf (print f) ((printedWords f).map spaced) := by
  rw [print_eq]
  exact linesOf_flatMap isWord_of_mem_printedWords

/-- No printed literal starts like a problem line, a comment or the end of a formula. -/
theorem startsWith_printLiteral (l : Literal) :
    ∃ d, StartsWith d (printLiteral l) ∧ (d.isDigit = true ∨ d = '-') := by
  unfold printLiteral
  split
  · obtain ⟨d, rest, hd⟩ := List.exists_cons_of_ne_nil (Numeral.digits_ne_nil l.var.id)
    have hmem : d ∈ Numeral.digits l.var.id := hd ▸ List.mem_cons_self
    exact ⟨d, by rw [hd]; rfl, .inl (Numeral.isDigit_of_mem_digits hmem)⟩
  · exact ⟨'-', rfl, .inr rfl⟩

/-- The line of a clause starts with a digit or a minus sign. -/
theorem startsWith_clauseWords (c : Clause) :
    ∃ d, StartsWith d (spaced (clauseWords c)) ∧ (d.isDigit = true ∨ d = '-') := by
  unfold clauseWords
  cases c.literals with
  | nil => exact ⟨'0', rfl, .inl (by decide)⟩
  | cons l ls =>
      obtain ⟨d, hd, hkind⟩ := startsWith_printLiteral l
      exact ⟨d, (head?_spaced (isWord_printLiteral l).ne_nil _).trans hd, hkind⟩

/-- A printed line starts with the `p` of a problem line or as a clause does. -/
theorem startsWith_printedWords {f : Formula} {ws : List (List Char)} (h : ws ∈ printedWords f) :
    ∃ d, StartsWith d (spaced ws) ∧ (d = 'p' ∨ d.isDigit = true ∨ d = '-') := by
  obtain rfl | hws := List.mem_cons.mp h
  · exact ⟨'p', rfl, .inl rfl⟩
  · obtain ⟨c, -, rfl⟩ := List.mem_map.mp hws
    obtain ⟨d, hd, hkind⟩ := startsWith_clauseWords c
    exact ⟨d, hd, .inr hkind⟩

/-- Every printed line is a line of content. -/
theorem content_print (f : Formula) : Content (print f) ((printedWords f).map spaced) := by
  have htrimmed : ∀ line ∈ (printedWords f).map spaced, Trimmed line line := by
    intro line hline
    obtain ⟨ws, hws, rfl⟩ := List.mem_map.mp hline
    exact trimmed_spaced (isWord_of_mem_printedWords ws hws)
  have hkept : ∀ line ∈ (printedWords f).map spaced,
      ¬StartsWith '%' line ∧ ¬(line = [] ∨ StartsWith 'c' line) := by
    intro line hline
    obtain ⟨ws, hws, rfl⟩ := List.mem_map.mp hline
    obtain ⟨d, hd, hkind⟩ := startsWith_printedWords hws
    refine ⟨fun hp => ?_, fun hc => hc.elim (fun hnil => ?_) fun hc => ?_⟩
    · cases hd.unique hp
      exact absurd hkind (by decide)
    · rw [hnil] at hd
      cases hd
    · cases hd.unique hc
      exact absurd hkind (by decide)
  refine ⟨_, _, linesOf_print f, List.forall₂_same.mpr htrimmed, ?_⟩
  rw [List.takeWhile_eq_self_iff.mpr fun line hline => decide_eq_true (hkept line hline).1,
    List.filter_eq_self.mpr fun line hline => decide_eq_true (hkept line hline).2]

/-- The line of a clause is a clause line with its literals. -/
theorem clauseLine_clauseWords (c : Clause) : ClauseLine (spaced (clauseWords c)) c.literals := by
  refine ⟨_, wordsOf_spaced isWord_of_mem_clauseWords, ?_⟩
  rw [clauseWords]
  induction c.literals with
  | nil => exact .zero
  | cons l ls ih => exact .literal (denotes_printLiteral l) ih

/-- The line of a declaration within the limits is a problem line. -/
theorem problemLine_problemWords {n m : Nat} (hn : n ≤ Variable.maxId) (hm : m ≤ Numeral.maxWord) :
    ProblemLine (spaced (problemWords n m)) n m :=
  ⟨_, _, wordsOf_spaced isWord_of_mem_problemWords, Numeral.denotes_digits n, hn,
    Numeral.denotes_digits m, hm⟩

/-- A printed text has the form of its formula, if the number of clauses can be read. -/
theorem conforms_print {f : Formula} (hm : f.clauses.length ≤ Numeral.maxWord) :
    Conforms (print f) (some (f.numVariables, f.clauses.length))
      (f.clauses.map Clause.literals) := by
  refine .headed (content_print f) rfl
    (problemLine_problemWords f.numVariables_le hm) ?_ ?_ ?_ (List.length_map _)
  · intro line hline hp
    obtain ⟨ws, hws, rfl⟩ := List.mem_map.mp hline
    obtain ⟨c, -, rfl⟩ := List.mem_map.mp hws
    obtain ⟨d, hd, hkind⟩ := startsWith_clauseWords c
    cases hd.unique hp
    exact absurd hkind (by decide)
  · rw [List.map_map, List.forall₂_map_left_iff, List.forall₂_map_right_iff]
    exact List.forall₂_same.mpr fun c _ => clauseLine_clauseWords c
  · intro ls hls l hl
    obtain ⟨c, hc, rfl⟩ := List.mem_map.mp hls
    exact f.covers c hc l hl

/-- The formula is the one that its declaration and its clauses denote. -/
theorem denoted_print (f : Formula) :
    Denoted (some (f.numVariables, f.clauses.length)) (f.clauses.map Clause.literals) f := by
  refine ⟨?_, rfl⟩
  rw [List.map_map, funext (f := Clause.ofLiterals ∘ Clause.literals) Clause.ofLiterals_literals,
    List.map_id']

/-! ### How many clauses can be read -/

/-- A text of printed lines conforms with its problem line only. -/
theorem not_conforms_print_none {f : Formula} {lss : List (List Literal)} :
    ¬Conforms (print f) none lss := by
  rintro ⟨hcontent, hp, -⟩
  obtain rfl := (content_iff.mp (content_print f)).symm.trans (content_iff.mp hcontent)
  exact hp _ List.mem_cons_self rfl

/-- A printed formula is read back exactly if the number of its clauses is a number of 64 bits. -/
theorem read_print_iff {f : Formula} :
    read (print f) = .ok f ↔ f.clauses.length ≤ Numeral.maxWord := by
  constructor
  · intro h
    obtain ⟨declared, lss, hconforms, hdenoted⟩ := conforms_of_read h
    rw [hdenoted.length_eq]
    cases declared with
    | none => exact absurd hconforms not_conforms_print_none
    | some d => exact hconforms.length_le_maxWord
  · exact fun hm => read_eq_ok_iff.mpr ⟨_, _, conforms_print hm, denoted_print f⟩

/-- A formula that has been read has no more clauses than its text has characters. -/
theorem length_clauses_le_of_read {text : List Char} {f : Formula} (h : read text = .ok f) :
    f.clauses.length ≤ text.length := by
  obtain ⟨declared, lss, hconforms, hdenoted⟩ := conforms_of_read h
  exact hdenoted.length_eq ▸ hconforms.length_le

theorem ofDimacs_dimacs_iff {f : Formula} :
    Formula.ofDimacs f.dimacs = .ok f ↔ f.clauses.length ≤ Numeral.maxWord := by
  rw [Formula.ofDimacs, Formula.dimacs, String.toList_ofList, read_print_iff]

/-- A formula made from an empty one by adding clauses is read back from its DIMACS form,
as long as their number is one of 64 bits.  So the formula of a text is that of its own
DIMACS form. -/
theorem ofDimacs_dimacs :
    (∀ (n : Nat) (hn : n ≤ Variable.maxId) (cs : List Clause),
      Formula.ofDimacs (cs.foldl Formula.add (Formula.empty n hn)).dimacs =
          .ok (cs.foldl Formula.add (Formula.empty n hn)) ↔
        cs.length ≤ Numeral.maxWord) ∧
    ∀ (text : String) (f : Formula), text.length ≤ Numeral.maxWord →
      Formula.ofDimacs text = .ok f → Formula.ofDimacs f.dimacs = .ok f := by
  refine ⟨fun n hn cs => ?_, fun text f htext h => ?_⟩
  · rw [Formula.foldl_add]
    exact ofDimacs_dimacs_iff
  · exact ofDimacs_dimacs_iff.mpr (Nat.le_trans (length_clauses_le_of_read h) htext)

/-- The empty clause, the tautology `x1 ∨ ¬x1`, and `x7` twice. -/
def mixedClauses : List Clause :=
  let x7 : Variable := ⟨7, by decide, by decide⟩
  [.empty, .ofLiterals [⟨.x1, true⟩, ⟨.x1, false⟩], .ofLiterals [⟨x7, true⟩],
    .ofLiterals [⟨x7, true⟩]]

/-- A text with a comment, a blank line, a sign, a repeated literal, an empty clause, a
tautology and a trailer, but without a problem line. -/
def looseText : String := "c loose\r\n\n 2 -1 +2 \n0\n-1 1 0\n%\nrest"

/-- The mixed clauses are read back over more variables than were declared at first, and
the formula of the loose text is that of its DIMACS form. -/
theorem ofDimacs_dimacs_mixed :
    (∃ f, f = mixedClauses.foldl Formula.add (Formula.empty 5 (by decide)) ∧
      f.numVariables = 7 ∧ Formula.ofDimacs f.dimacs = .ok f) ∧
    ∃ f, Formula.ofDimacs looseText = .ok f ∧ f.numVariables = 2 ∧ f.clauses.length = 3 ∧
      Formula.ofDimacs f.dimacs = .ok f := by
  have hread : (Formula.ofDimacs looseText).toOption.map
      (fun f => (f.numVariables, f.clauses.length)) = some (2, 3) := by decide
  constructor
  · exact ⟨_, rfl, rfl, (ofDimacs_dimacs.1 5 (by decide) mixedClauses).mpr (by decide)⟩
  · cases h : Formula.ofDimacs looseText with
    | error e =>
        rw [h] at hread
        cases hread
    | ok f =>
        rw [h] at hread
        obtain ⟨hn, hm⟩ := Prod.mk.inj (Option.some.inj hread)
        exact ⟨f, rfl, hn, hm, ofDimacs_dimacs.2 looseText f (by decide) h⟩

end Dimacs

end Clausal
