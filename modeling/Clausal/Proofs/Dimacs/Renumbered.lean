import Clausal.Proofs.Dimacs.FirstFault

/-!
# Lines with other numbers

The number of a line is reported and nothing else.  So lines with other numbers are read as they
were before, and a fault that names its line by the number names it by the other one
(`readContent_renumber`).

Each reader is followed once, in the order of the definitions.  All of them report through `Except`,
where changing the fault commutes with the binds.
-/

namespace Clausal

namespace Dimacs

variable {f : Nat → Nat} {ls : List Line} {line : Line} {e : Error}

/-- The line with another number. -/
def Line.renumber (f : Nat → Nat) (l : Line) : Line := { l with number := f l.number }

/-- The fault with another number, if it names its line by the number. -/
def Error.renumber (f : Nat → Nat) : Error → Error
  | .malformedClause n text => .malformedClause (f n) text
  | .misplacedProblem n => .misplacedProblem (f n)
  | e => e

@[simp] theorem Line.renumber_text (l : Line) : (l.renumber f).text = l.text := rfl

@[simp] theorem Line.renumber_isProblem (l : Line) : (l.renumber f).isProblem = l.isProblem := rfl

@[simp] theorem Error.renumber_self (e : Error) : e.renumber (fun n => n) = e := by
  cases e <;> rfl

theorem Error.renumber_renumber (f g : Nat → Nat) (e : Error) :
    (e.renumber f).renumber g = e.renumber fun n => g (f n) := by
  cases e <;> rfl

/-- Which lines are content does not depend on their numbers. -/
theorem content_renumber (ls : List Line) :
    content (ls.map (Line.renumber f)) = (content ls).map (Line.renumber f) := by
  rw [content, List.takeWhile_map, List.filter_map]
  rfl

/-! ### Results with other errors -/

section MapError

variable {ε ε' α β σ : Type} {g : ε → ε'}

theorem mapError_eq_ok_iff {x : Except ε α} {a : α} : x.mapError g = .ok a ↔ x = .ok a := by
  cases x <;> simp [Except.mapError]

theorem mapError_eq_error_iff {x : Except ε α} {e : ε'} :
    x.mapError g = .error e ↔ ∃ fault, x = .error fault ∧ g fault = e := by
  cases x <;> simp [Except.mapError]

/-- Errors may be changed at the end or along the way. -/
theorem mapError_bind (x : Except ε α) (k : α → Except ε β) :
    (x >>= k).mapError g = x.mapError g >>= fun a => (k a).mapError g := by
  cases x <;> rfl

theorem mapError_map (x : Except ε α) (h : α → β) :
    (x.map h).mapError g = (x.mapError g).map h := by
  cases x <;> rfl

theorem foldlM_map_mapError {step : σ → β → Except ε' σ} {step' : σ → α → Except ε σ} {h : α → β}
    (hstep : ∀ s a, step s (h a) = (step' s a).mapError g) (l : List α) (s : σ) :
    (l.map h).foldlM step s = (l.foldlM step' s).mapError g := by
  induction l generalizing s with
  | nil => rfl
  | cons a l ih =>
      rw [List.map_cons, List.foldlM_cons, List.foldlM_cons, mapError_bind, hstep]
      simp only [ih]

end MapError

/-! ### Reading -/

/-- Words are read alike under another number, and an error names that number instead. -/
theorem readLiterals_renumber (l : Line) : ∀ ws : List (List Char),
    readLiterals (l.renumber f) ws = (readLiterals l ws).mapError (Error.renumber f)
  | [] => rfl
  | word :: rest => by
      rw [readLiterals, readLiterals]
      by_cases hzero : word = ['0']
      · rw [if_pos hzero, if_pos hzero]
        split <;> rfl
      · rw [if_neg hzero, if_neg hzero]
        cases Literal.read word with
        | error cause => rfl
        | ok m =>
            show (readLiterals (l.renumber f) rest).map (m :: ·) =
              ((readLiterals l rest).map (m :: ·)).mapError (Error.renumber f)
            rw [readLiterals_renumber l rest, mapError_map]

/-- A clause is read alike from a line with another number, and so is its error. -/
theorem readClause_renumber (l : Line) :
    readClause (l.renumber f) = (readClause l).mapError (Error.renumber f) := by
  rw [readClause, readClause, readLiterals_renumber, mapError_map, Line.renumber_text]

theorem readProblem_renumber (l : Line) :
    readProblem (l.renumber f) = (readProblem l).mapError (Error.renumber f) := by
  rw [readProblem, readProblem, Line.renumber_text]
  split <;> rfl

theorem checkDeclared_renumber (l : Line) (problem : Option Problem) (c : Clause) :
    checkDeclared (l.renumber f) problem c =
      (checkDeclared l problem c).mapError (Error.renumber f) := by
  unfold checkDeclared
  split
  · split <;> rfl
  · rfl

/-- A step of the reader does not look at the number of the line, except to report it. -/
theorem read_renumber (s : Progress) (l : Line) :
    s.read (l.renumber f) = (s.read l).mapError (Error.renumber f) := by
  rw [Progress.read, Progress.read, Line.renumber_isProblem]
  by_cases hp : l.isProblem = true
  · rw [if_pos hp, if_pos hp, readProblem_renumber]
    split
    · rw [mapError_bind]
      rfl
    · rfl
  · rw [if_neg hp, if_neg hp, readClause_renumber, mapError_bind]
    simp only [mapError_bind, checkDeclared_renumber]
    rfl

/-- The line at fault among renumbered lines is the one at fault among the lines. -/
theorem firstFault_renumber : FirstFault (ls.map (Line.renumber f)) line e ↔
    ∃ l fault, FirstFault ls l fault ∧ l.renumber f = line ∧ fault.renumber f = e := by
  simp only [firstFault_iff_foldlM]
  constructor
  · rintro ⟨before, after, s, hls, hs, hline⟩
    obtain ⟨before, rest, rfl, rfl, hrest⟩ := List.map_eq_append_iff.mp hls
    obtain ⟨l, after, rfl, rfl, -⟩ := List.map_eq_cons_iff.mp hrest
    rw [foldlM_map_mapError read_renumber, mapError_eq_ok_iff] at hs
    rw [read_renumber, mapError_eq_error_iff] at hline
    obtain ⟨fault, hfault, rfl⟩ := hline
    exact ⟨l, fault, ⟨before, after, s, rfl, hs, hfault⟩, rfl, rfl⟩
  · rintro ⟨l, fault, ⟨before, after, s, rfl, hs, hfault⟩, rfl, rfl⟩
    refine ⟨before.map (Line.renumber f), after.map (Line.renumber f), s, by simp, ?_, ?_⟩
    · rw [foldlM_map_mapError read_renumber, mapError_eq_ok_iff, hs]
    · rw [read_renumber, mapError_eq_error_iff]
      exact ⟨fault, hfault, rfl⟩

/-- What is wrong with the number of clauses is on no line. -/
theorem finish_mapError (s : Progress) : s.finish.mapError (Error.renumber f) = s.finish := by
  cases h : s.finish with
  | ok _ => rfl
  | error e =>
      obtain ⟨_, _, rfl⟩ := isCount_of_finish h
      rfl

/-- Lines with other numbers are read as before, and a fault names the other number. -/
theorem readContent_renumber (ls : List Line) :
    readContent (ls.map (Line.renumber f)) = (readContent ls).mapError (Error.renumber f) := by
  rw [readContent, readContent, mapError_bind, foldlM_map_mapError read_renumber]
  simp only [finish_mapError]

end Dimacs

end Clausal
