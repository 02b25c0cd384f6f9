import Clausal.Proofs.Canonical
import Clausal.Proofs.Dimacs.Acceptance

/-!
# The faults of a line

What is wrong with a line of content, and how it is named, stated without a reader.  `WordFault`
finds the first word of a clause line that may not stand there.  `LineFault` has one rule for every
fault of a line, among them that of the words.  Only the misplaced problem line and the undeclared
variable depend on the lines before.

A line that is read has no fault, and one that is not read has one, which is the one reported
(`read_eq_error_iff`).  So the rules leave no choice, and a clause line with a word out of place is
not blamed for its variables.
-/

namespace Clausal

namespace Dimacs

variable {line : Line} {before : List Line} {problem : Option Problem} {e : Error}

/-! ### Clause lines -/

/-- The first word that may not stand in a clause line, behind literals only: one that is no
literal, or `0` with words behind it. -/
inductive WordFault (line : Line) : List (List Char) → Error → Prop
  | literal {word : List Char} {rest : List (List Char)} {cause : Variable.ReadError} :
      word ≠ ['0'] → Literal.read word = .error cause →
      WordFault line (word :: rest) (.invalidLiteral (String.ofList line.text) cause)
  | zero {rest : List (List Char)} : rest ≠ [] →
      WordFault line (['0'] :: rest) (.malformedClause line.number (String.ofList line.text))
  | later {word : List Char} {l : Literal} {rest : List (List Char)} {e : Error} :
      Literal.Denotes word l → WordFault line rest e → WordFault line (word :: rest) e

/-- The reader of words reports the faults of the words, and no others. -/
theorem readLiterals_eq_error_iff : ∀ {ws : List (List Char)},
    readLiterals line ws = .error e ↔ WordFault line ws e
  | [] => by
      rw [readLiterals]
      constructor
      · intro h
        cases h
      · intro h
        cases h
  | word :: rest => by
      by_cases hzero : word = ['0']
      · subst hzero
        rw [readLiterals, if_pos rfl]
        constructor
        · intro h
          split at h
          · cases h
          · next hrest =>
              cases h
              exact .zero fun hnil => hrest (List.isEmpty_iff.mpr hnil)
        · intro h
          cases h with
          | literal hne _ => exact absurd rfl hne
          | zero hrest => rw [if_neg fun hnil => hrest (List.isEmpty_iff.mp hnil)]
          | later hl _ => exact absurd hl not_denotes_zero
      · rw [readLiterals, if_neg hzero]
        cases hword : Literal.read word with
        | error cause =>
            constructor
            · intro h
              cases h
              exact .literal hzero hword
            · intro h
              cases h with
              | literal _ hcause =>
                  rw [hword] at hcause
                  cases hcause
                  rfl
              | zero _ => exact absurd rfl hzero
              | later hl _ =>
                  rw [Literal.read_eq_ok_iff.mpr hl] at hword
                  cases hword
        | ok l =>
            have hl := Literal.read_eq_ok_iff.mp hword
            show (readLiterals line rest).map (l :: ·) = .error e ↔ _
            rw [map_eq_error_iff, readLiterals_eq_error_iff]
            constructor
            · exact .later hl
            · intro h
              cases h with
              | literal _ hcause =>
                  rw [hword] at hcause
                  cases hcause
              | zero _ => exact absurd hl not_denotes_zero
              | later _ hrest => exact hrest

/-- The reader of a clause reports the faults of the words of its line, and no others. -/
theorem readClause_eq_error_iff :
    readClause line = .error e ↔ ∃ ws, WordsOf line.text ws ∧ WordFault line ws e := by
  simp only [readClause, map_eq_error_iff, readLiterals_eq_error_iff, wordsOf_iff, exists_eq_left']

/-- The variable is the greatest of the literals. -/
structure IsGreatest (v : Variable) (ls : List Literal) : Prop where
  /-- Some literal is over it. -/
  attained : ∃ l ∈ ls, l.var = v
  /-- No literal is over a greater one. -/
  bound : ∀ l ∈ ls, l.var.id ≤ v.id

theorem greatestVariable?_ofLiterals_iff {v : Variable} {ls : List Literal} :
    (Clause.ofLiterals ls).greatestVariable? = some v ↔ IsGreatest v ls := by
  simp only [Clause.greatestVariable?_eq_some_iff, Clause.mem_ofLiterals]
  exact ⟨fun h => ⟨h.1, h.2⟩, fun h => ⟨h.attained, h.bound⟩⟩

/-- A clause is refused if its greatest variable lies beyond the declared ones, and the error names
that variable. -/
theorem checkDeclared_eq_error_iff {c : Clause} : checkDeclared line problem c = .error e ↔
    ∃ p v, problem = some p ∧ c.greatestVariable? = some v ∧ p.numVariables < v.id ∧
      e = .undeclaredVariable v p.numVariables (String.ofList line.text) := by
  cases problem with
  | none => simp [checkDeclared]
  | some p =>
      cases hv : c.greatestVariable? with
      | none => simp [checkDeclared, hv]
      | some v =>
          by_cases hle : v.id ≤ p.numVariables
          · simp [checkDeclared, hv, hle, Nat.not_lt.mpr hle]
          · simp [checkDeclared, hv, hle, Nat.not_le.mp hle, eq_comm]

/-! ### Problem lines -/

/-- A problem line is refused if it declares no two numbers. -/
theorem readProblem_eq_error_iff : readProblem line = .error e ↔
    (∀ n m, ¬ProblemLine line.text n m) ∧ e = .malformedProblem (String.ofList line.text) := by
  cases h : readProblem line with
  | ok p => simpa using fun hp => absurd (readProblem_eq_ok_iff.mp h) (hp _ _)
  | error e' =>
      have he : e' = .malformedProblem (String.ofList line.text) := by
        rw [readProblem] at h
        split at h
        · cases h
        · exact (Except.error.inj h).symm
      have hp : ∀ n m, ¬ProblemLine line.text n m := by
        intro n m hline
        have hok := (readProblem_eq_ok_iff (p := ⟨n, m, hline.le_maxId⟩)).mpr hline
        rw [hok] at h
        cases h
      rw [he, Except.error.injEq]
      exact ⟨fun heq => ⟨hp, heq.symm⟩, fun heq => heq.2.symm⟩

/-! ### Lines of content -/

/-- The fault of a line of content behind other lines of content with this declaration. -/
inductive LineFault (before : List Line) (problem : Option Problem) (line : Line) : Error → Prop
  | misplaced : StartsWith 'p' line.text → before ≠ [] →
      LineFault before problem line (.misplacedProblem line.number)
  | malformed : StartsWith 'p' line.text → before = [] → (∀ n m, ¬ProblemLine line.text n m) →
      LineFault before problem line (.malformedProblem (String.ofList line.text))
  | word {ws : List (List Char)} {e : Error} : ¬StartsWith 'p' line.text →
      WordsOf line.text ws → WordFault line ws e → LineFault before problem line e
  | undeclared {ls : List Literal} {p : Problem} {v : Variable} : ¬StartsWith 'p' line.text →
      ClauseLine line.text ls → problem = some p → IsGreatest v ls → p.numVariables < v.id →
      LineFault before problem line
        (.undeclaredVariable v p.numVariables (String.ofList line.text))

/-- A line is refused exactly if it has a fault, and the fault is the one reported. -/
theorem read_eq_error_iff {s : Progress} (hfresh : s.Fresh ↔ before = []) :
    s.read line = .error e ↔ LineFault before s.problem line e := by
  by_cases hp : StartsWith 'p' line.text
  · rw [Progress.read, if_pos (Line.isProblem_iff.mpr hp)]
    have htest : (s.problem.isNone && s.clauses.isEmpty) = true ↔ before = [] := by
      rw [← hfresh, Progress.Fresh, Bool.and_eq_true, Option.isNone_iff_eq_none, List.isEmpty_iff]
    by_cases hb : before = []
    · rw [if_pos (htest.mpr hb), bind_eq_error_iff, readProblem_eq_error_iff]
      constructor
      · rintro (⟨hline, rfl⟩ | ⟨_, _, h⟩)
        · exact .malformed hp hb hline
        · cases h
      · intro h
        cases h with
        | misplaced _ hne => exact absurd hb hne
        | malformed _ _ hline => exact .inl ⟨hline, rfl⟩
        | word hnp _ _ => exact absurd hp hnp
        | undeclared hnp _ _ _ _ => exact absurd hp hnp
    · rw [if_neg (mt htest.mp hb), Except.error.injEq]
      constructor
      · rintro rfl
        exact .misplaced hp hb
      · intro h
        cases h with
        | misplaced _ _ => rfl
        | malformed _ hnil _ => exact absurd hnil hb
        | word hnp _ _ => exact absurd hp hnp
        | undeclared hnp _ _ _ _ => exact absurd hp hnp
  · rw [Progress.read, if_neg (mt Line.isProblem_iff.mp hp)]
    simp only [bind_eq_error_iff, readClause_eq_error_iff, readClause_eq_ok_iff,
      checkDeclared_eq_error_iff]
    constructor
    · rintro (⟨ws, hws, hfault⟩ | ⟨c, ⟨ls, hls, rfl⟩, ⟨p, v, hproblem, hv, hlt, rfl⟩ | ⟨_, _, h⟩⟩)
      · exact .word hp hws hfault
      · exact .undeclared hp hls hproblem (greatestVariable?_ofLiterals_iff.mp hv) hlt
      · cases h
    · intro h
      cases h with
      | misplaced hstart _ => exact absurd hstart hp
      | malformed hstart _ _ => exact absurd hstart hp
      | word _ hws hfault => exact .inl ⟨_, hws, hfault⟩
      | undeclared _ hls hproblem hv hlt =>
          exact .inr ⟨_, ⟨_, hls, rfl⟩,
            .inl ⟨_, _, hproblem, greatestVariable?_ofLiterals_iff.mpr hv, hlt, rfl⟩⟩

/-! ### What a fault says -/

/-- The number of the line that the fault names, if it names the line by its number. -/
def Error.line? : Error → Option Nat
  | .malformedClause n _ => some n
  | .misplacedProblem n => some n
  | _ => none

/-- The text that the fault quotes, if it quotes one. -/
def Error.quoted? : Error → Option String
  | .malformedClause _ text => some text
  | .invalidLiteral text _ => some text
  | .malformedProblem text => some text
  | .undeclaredVariable _ _ text => some text
  | _ => none

/-- The fault is that of the number of clauses. -/
def Error.IsCount (e : Error) : Prop := ∃ expected found, e = .clauseCount expected found

/-- A fault on this line: what it says of the line is the number and the text of the line. -/
structure Error.IsAbout (e : Error) (line : Line) : Prop where
  /-- A number is that of the line. -/
  number : ∀ n ∈ e.line?, n = line.number
  /-- A text is that of the line. -/
  quoted : ∀ text ∈ e.quoted?, text = String.ofList line.text
  /-- It is not about the number of clauses. -/
  not_isCount : ¬e.IsCount

theorem WordFault.isAbout {ws : List (List Char)} (h : WordFault line ws e) : e.IsAbout line := by
  induction h with
  | literal _ _ => exact ⟨by simp [Error.line?], by simp [Error.quoted?], by simp [Error.IsCount]⟩
  | zero _ => exact ⟨by simp [Error.line?], by simp [Error.quoted?], by simp [Error.IsCount]⟩
  | later _ _ ih => exact ih

/-- Whatever number and text the error of a fault has, they are those of the line. -/
theorem LineFault.isAbout (h : LineFault before problem line e) : e.IsAbout line := by
  cases h with
  | word _ _ hfault => exact hfault.isAbout
  | _ => exact ⟨by simp [Error.line?], by simp [Error.quoted?], by simp [Error.IsCount]⟩

end Dimacs

end Clausal
