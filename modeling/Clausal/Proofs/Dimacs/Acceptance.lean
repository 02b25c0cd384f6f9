import Clausal.Proofs.Dimacs.Grammar

/-!
# A text is accepted exactly if it conforms

Reading is a fold over the lines of content.  A problem line is read only while the state
is fresh, that is before any other line of content, and no line leaves the state fresh.  So
a run that ends well has met a problem line at most at its start (`foldlM_cases`), and
clause lines from there on.  `foldlM_clauses` says what a run over clause lines gathers:
their clauses, provided that each keeps to the declared variables.

Both directions of the result rest on the same two lemmas.  A run is divided into its
problem line and its clause lines, or put together from them.
-/

namespace Clausal

namespace Dimacs

variable {line : Line} {s s' : Progress} {ls : List Literal} {lss : List (List Literal)}

/-! ### The formula of the literals -/

theorem variablesNeeded_map_le_iff {n : Nat} :
    (∀ c ∈ lss.map Clause.ofLiterals, Formula.variablesNeeded c ≤ n) ↔
      ∀ ls ∈ lss, ∀ l ∈ ls, l.var.id ≤ n := by
  simp [Formula.variablesNeeded_le_iff]

/-- Without a problem line the clauses that are read denote the formula made of them. -/
theorem denoted_ofClauses (lss : List (List Literal)) :
    Denoted none lss (Formula.ofClauses (lss.map Clause.ofLiterals)) := by
  refine ⟨rfl, variablesNeeded_map_le_iff.mp (Formula.foldl_max_le_iff.mp (Nat.le_refl _)).2, ?_⟩
  obtain h0 | ⟨c, hc, hmax⟩ := @Formula.foldl_max_attained (lss.map Clause.ofLiterals) 0
  · exact .inl h0
  · obtain ⟨ls, hls, rfl⟩ := List.mem_map.mp hc
    obtain h0 | ⟨l, hl, hid⟩ := Formula.variablesNeeded_attained (Clause.ofLiterals ls)
    · exact .inl (hmax.symm.trans h0)
    · exact .inr ⟨ls, hls, l, Clause.mem_ofLiterals.mp hl, hid.trans hmax⟩

/-- Clauses within the declared range, added to the declared formula, denote what they should. -/
theorem denoted_addAll {n m : Nat} (hn : n ≤ Variable.maxId)
    (h : ∀ ls ∈ lss, ∀ l ∈ ls, l.var.id ≤ n) :
    Denoted (some (n, m)) lss ((Formula.empty n hn).addAll (lss.map Clause.ofLiterals)) :=
  ⟨rfl, Formula.numVariables_addAll (variablesNeeded_map_le_iff.mpr h)⟩

/-! ### One line -/

/-- The literals keep to the declared variables, if any are declared. -/
def Progress.Admits (s : Progress) (ls : List Literal) : Prop :=
  ∀ p ∈ s.problem, ∀ l ∈ ls, l.var.id ≤ p.numVariables

/-- The state with further clauses, in the order they were read. -/
def Progress.pushAll (s : Progress) (lss : List (List Literal)) : Progress :=
  { s with clauses := (lss.map Clause.ofLiterals).reverse ++ s.clauses }

/-- Neither a declaration nor a clause has been read. -/
def Progress.Fresh (s : Progress) : Prop := s.problem = none ∧ s.clauses = []

/-- A clause is let through if the problem line, if there is one, declares its variables. -/
theorem checkDeclared_eq_ok_iff {problem : Option Problem} {c : Clause} {u : Unit} :
    checkDeclared line problem c = .ok u ↔
      ∀ p ∈ problem, Formula.variablesNeeded c ≤ p.numVariables := by
  cases problem with
  | none => simp [checkDeclared]
  | some p =>
      simp only [checkDeclared, Formula.variablesNeeded, Option.mem_some_iff, forall_eq']
      cases c.greatestVariable? with
      | none => simp
      | some v =>
          by_cases hv : v.id ≤ p.numVariables <;> simp [hv]

/-- A problem line is read in a fresh state only. -/
theorem read_problem_iff (hp : StartsWith 'p' line.text) :
    s.read line = .ok s' ↔ s.Fresh ∧ ∃ p : Problem,
      ProblemLine line.text p.numVariables p.numClauses ∧ s' = { s with problem := some p } := by
  have hfresh : (s.problem.isNone && s.clauses.isEmpty) = true ↔ s.Fresh := by
    simp [Progress.Fresh]
  rw [Progress.read, if_pos (Line.isProblem_iff.mpr hp)]
  by_cases h : s.Fresh
  · rw [if_pos (hfresh.mpr h)]
    simp only [bind_eq_ok_iff, readProblem_eq_ok_iff, h, true_and]
    constructor
    · rintro ⟨p, hline, ⟨⟩⟩
      exact ⟨p, hline, rfl⟩
    · rintro ⟨p, hline, rfl⟩
      exact ⟨p, hline, rfl⟩
  · rw [if_neg (fun hc => h (hfresh.mp hc))]
    simp [h]

/-- A clause line is read in any state that admits its literals. -/
theorem read_clause_iff (hp : ¬StartsWith 'p' line.text) :
    s.read line = .ok s' ↔ ∃ ls, ClauseLine line.text ls ∧ s.Admits ls ∧ s' = s.pushAll [ls] := by
  have hadmits (ls : List Literal) : s.Admits ls ↔
      ∀ p ∈ s.problem, Formula.variablesNeeded (Clause.ofLiterals ls) ≤ p.numVariables := by
    simp [Progress.Admits, Formula.variablesNeeded_le_iff]
  rw [Progress.read, if_neg (fun hc => hp (Line.isProblem_iff.mp hc))]
  simp only [bind_eq_ok_iff, readClause_eq_ok_iff, checkDeclared_eq_ok_iff, hadmits]
  constructor
  · rintro ⟨c, ⟨ls, hline, rfl⟩, u, hle, ⟨⟩⟩
    exact ⟨ls, hline, hle, rfl⟩
  · rintro ⟨ls, hline, hle, rfl⟩
    exact ⟨_, ⟨ls, hline, rfl⟩, (), hle, rfl⟩

/-! ### All lines -/

@[simp] theorem Progress.pushAll_nil (s : Progress) : s.pushAll [] = s := rfl

theorem Progress.pushAll_cons (s : Progress) (ls : List Literal) (lss : List (List Literal)) :
    s.pushAll (ls :: lss) = (s.pushAll [ls]).pushAll lss := by
  simp [pushAll]

theorem Progress.not_fresh_pushAll (s : Progress) (ls : List Literal) :
    ¬(s.pushAll [ls]).Fresh := by
  simp [Fresh, pushAll]

/-- Reading clause lines gathers their clauses, as long as each keeps to the declared
variables. -/
theorem foldlM_clauses : ∀ {lines : List Line} {s : Progress},
    (∀ line ∈ lines, ¬StartsWith 'p' line.text) →
    (lines.foldlM Progress.read s = .ok s' ↔
      ∃ lss, List.Forall₂ ClauseLine (lines.map Line.text) lss ∧ (∀ ls ∈ lss, s.Admits ls) ∧
        s' = s.pushAll lss)
  | [], s, _ => by
      simp only [List.foldlM_nil, List.map_nil, List.forall₂_nil_left_iff, exists_eq_left,
        List.not_mem_nil, false_implies, implies_true, true_and, Progress.pushAll_nil]
      constructor
      · rintro ⟨⟩
        rfl
      · rintro rfl
        rfl
  | line :: lines, s, hp => by
      obtain ⟨hline, hlines⟩ := List.forall_mem_cons.mp hp
      simp only [List.foldlM_cons, bind_eq_ok_iff, read_clause_iff hline, foldlM_clauses hlines,
        List.map_cons, List.forall₂_cons_left_iff]
      constructor
      · rintro ⟨_, ⟨ls, hls, hadmits, rfl⟩, lss, hlss, hall, rfl⟩
        exact ⟨ls :: lss, ⟨ls, lss, hls, hlss, rfl⟩, List.forall_mem_cons.mpr ⟨hadmits, hall⟩,
          (s.pushAll_cons ls lss).symm⟩
      · rintro ⟨_, ⟨ls, lss, hls, hlss, rfl⟩, hall, rfl⟩
        obtain ⟨hadmits, hall⟩ := List.forall_mem_cons.mp hall
        exact ⟨_, ⟨ls, hls, hadmits, rfl⟩, lss, hlss, hall, s.pushAll_cons ls lss⟩

/-- A state that is no longer fresh meets no problem line on the way to a result. -/
theorem not_startsWith_of_foldlM : ∀ {lines : List Line} {s : Progress}, ¬s.Fresh →
    lines.foldlM Progress.read s = .ok s' → ∀ line ∈ lines, ¬StartsWith 'p' line.text
  | [], _, _, _ => by simp
  | line :: lines, s, hs, h => by
      rw [List.foldlM_cons] at h
      obtain ⟨t, ht, hrest⟩ := bind_eq_ok_iff.mp h
      have hline : ¬StartsWith 'p' line.text := fun hp => hs (read_problem_iff hp |>.mp ht).1
      obtain ⟨ls, -, -, rfl⟩ := (read_clause_iff hline).mp ht
      exact List.forall_mem_cons.mpr
        ⟨hline, not_startsWith_of_foldlM (Progress.not_fresh_pushAll s ls) hrest⟩

/-- A run over all lines meets no problem line but the first. -/
theorem foldlM_cases {lines : List Line} (h : lines.foldlM Progress.read {} = .ok s) :
    (∀ line ∈ lines, ¬StartsWith 'p' line.text) ∨
      ∃ (first : Line) (rest : List Line) (p : Problem), lines = first :: rest ∧
        StartsWith 'p' first.text ∧ ProblemLine first.text p.numVariables p.numClauses ∧
        (∀ line ∈ rest, ¬StartsWith 'p' line.text) ∧
        rest.foldlM Progress.read { problem := some p } = .ok s := by
  cases lines with
  | nil => exact .inl (by simp)
  | cons first rest =>
      by_cases hfirst : StartsWith 'p' first.text
      · rw [List.foldlM_cons] at h
        obtain ⟨t, ht, hrest⟩ := bind_eq_ok_iff.mp h
        obtain ⟨-, p, hproblem, rfl⟩ := (read_problem_iff hfirst).mp ht
        have hdeclared : ¬({ problem := some p } : Progress).Fresh := fun hc => by cases hc.1
        exact .inr ⟨first, rest, p, rfl, hfirst, hproblem,
          not_startsWith_of_foldlM hdeclared hrest, hrest⟩
      · rw [List.foldlM_cons] at h
        obtain ⟨t, ht, hrest⟩ := bind_eq_ok_iff.mp h
        obtain ⟨ls, -, -, rfl⟩ := (read_clause_iff hfirst).mp ht
        refine .inl (List.forall_mem_cons.mpr ⟨hfirst, not_startsWith_of_foldlM ?_ hrest⟩)
        exact Progress.not_fresh_pushAll _ _

theorem finish_headless (lss : List (List Literal)) :
    (({} : Progress).pushAll lss).finish =
      .ok (Formula.ofClauses (lss.map Clause.ofLiterals)) := by
  simp [Progress.finish, Progress.pushAll]

/-- With a declaration, the number of clauses has to be the declared one. -/
theorem finish_headed_iff {p : Problem} {f : Formula} :
    (({ problem := some p } : Progress).pushAll lss).finish = .ok f ↔
      lss.length = p.numClauses ∧
        (Formula.empty p.numVariables p.numVariables_le).addAll
          (lss.map Clause.ofLiterals) = f := by
  simp only [Progress.finish, Progress.pushAll, List.append_nil, List.length_reverse,
    List.length_map, List.reverse_reverse]
  by_cases h : lss.length = p.numClauses <;> simp [h]

/-- A text that is read conforms to the grammar, and it is read as what it denotes. -/
theorem conforms_of_read {text : List Char} {f : Formula} (h : read text = .ok f) :
    ∃ declared lss, Conforms text declared lss ∧ Denoted declared lss f := by
  obtain ⟨s, hrun, hfinish⟩ := bind_eq_ok_iff.mp h
  have hcontent : Content text ((contentLines text).map Line.text) := content_iff.mpr rfl
  obtain hp | ⟨first, rest, p, hlines, hfirst, hproblem, hp, hrest⟩ := foldlM_cases hrun
  · obtain ⟨lss, hlss, -, rfl⟩ := (foldlM_clauses hp).mp hrun
    rw [finish_headless] at hfinish
    cases hfinish
    exact ⟨none, lss, .headless hcontent (List.forall_mem_map.mpr hp) hlss, denoted_ofClauses lss⟩
  · obtain ⟨lss, hlss, hadmits, rfl⟩ := (foldlM_clauses hp).mp hrest
    obtain ⟨hcount, rfl⟩ := finish_headed_iff.mp hfinish
    rw [hlines, List.map_cons] at hcontent
    have hbound : ∀ ls ∈ lss, ∀ l ∈ ls, l.var.id ≤ p.numVariables :=
      fun ls hls => hadmits ls hls p rfl
    exact ⟨some (p.numVariables, p.numClauses), lss,
      .headed hcontent hfirst hproblem (List.forall_mem_map.mpr hp) hlss hbound hcount,
      denoted_addAll p.numVariables_le hbound⟩

/-- A text that conforms to the grammar is read, and as what it denotes. -/
theorem read_of_conforms {text : List Char} {declared : Option (Nat × Nat)}
    (h : Conforms text declared lss) : ∃ f, read text = .ok f ∧ Denoted declared lss f := by
  cases h with
  | headless hcontent hp hlss =>
      obtain rfl := content_iff.mp hcontent
      have hadmits : ∀ ls ∈ lss, ({} : Progress).Admits ls := fun _ _ _ hsome => by cases hsome
      have hrun := (foldlM_clauses fun _ hl => hp _ (List.mem_map_of_mem hl)).mpr
        ⟨lss, hlss, hadmits, rfl⟩
      exact ⟨_, bind_eq_ok_iff.mpr ⟨_, hrun, finish_headless lss⟩, denoted_ofClauses lss⟩
  | @headed _ _ n m _ hcontent hfirst hproblem hp hlss hbound hcount =>
      obtain ⟨first, rest, hlines, rfl, rfl⟩ := List.map_eq_cons_iff.mp (content_iff.mp hcontent)
      have hn : n ≤ Variable.maxId := hproblem.le_maxId
      have hstart : ({} : Progress).read first = .ok { problem := some ⟨n, m, hn⟩ } :=
        (read_problem_iff hfirst).mpr ⟨⟨rfl, rfl⟩, ⟨n, m, hn⟩, hproblem, rfl⟩
      have hadmits : ∀ ls ∈ lss, ({ problem := some ⟨n, m, hn⟩ } : Progress).Admits ls :=
        fun ls hls _ hsome => by cases hsome; exact hbound ls hls
      have hrest := (foldlM_clauses fun _ hl => hp _ (List.mem_map_of_mem hl)).mpr
        ⟨lss, hlss, hadmits, rfl⟩
      have hrun : (contentLines text).foldlM Progress.read {} =
          .ok (Progress.pushAll { problem := some ⟨n, m, hn⟩ } lss) := by
        rw [hlines, List.foldlM_cons]
        exact bind_eq_ok_iff.mpr ⟨_, hstart, hrest⟩
      exact ⟨_, bind_eq_ok_iff.mpr ⟨_, hrun, finish_headed_iff.mpr ⟨hcount, rfl⟩⟩,
        denoted_addAll hn hbound⟩

/-- A text is accepted just if it conforms to the grammar, with the formula that it denotes. -/
theorem read_eq_ok_iff {text : List Char} {f : Formula} :
    read text = .ok f ↔ ∃ declared lss, Conforms text declared lss ∧ Denoted declared lss f := by
  constructor
  · exact conforms_of_read
  · rintro ⟨declared, lss, hconforms, hdenoted⟩
    obtain ⟨g, hg, hdenoted'⟩ := read_of_conforms hconforms
    exact hdenoted.unique hdenoted' ▸ hg

/-- A text is read exactly if it conforms to the grammar, as the one formula that it
denotes.  The number of a problem line that is read is always one that the check of an
empty formula lets pass, as is the zero of a formula without one. -/
theorem ofDimacs_iff_conforms (text : String) :
    (∀ f, Formula.ofDimacs text = .ok f ↔
      ∃ declared lss, Conforms text.toList declared lss ∧ Denoted declared lss f) ∧
    ((∃ f, Formula.ofDimacs text = .ok f) ↔ ∃ declared lss, Conforms text.toList declared lss) ∧
    (Formula.empty? 0).isSome ∧
    ∀ line, (∃ e, readProblem line = .error e) ∨
      ∃ p, readProblem line = .ok p ∧ (Formula.empty? p.numVariables).isSome := by
  refine ⟨fun f => read_eq_ok_iff, ⟨?_, ?_⟩, rfl, fun line => ?_⟩
  · rintro ⟨f, h⟩
    obtain ⟨declared, lss, hconforms, -⟩ := conforms_of_read h
    exact ⟨declared, lss, hconforms⟩
  · rintro ⟨declared, lss, hconforms⟩
    obtain ⟨f, h, -⟩ := read_of_conforms hconforms
    exact ⟨f, h⟩
  · cases h : readProblem line with
    | error e => exact .inl ⟨e, rfl⟩
    | ok p =>
        refine .inr ⟨p, rfl, ?_⟩
        rw [Formula.empty?, dif_pos p.numVariables_le]
        rfl

end Dimacs

end Clausal
