import Clausal.Proofs.Search.Occurrences

/-!
# The state along a trail

Everything that a search keeps besides its formula, its journal and its trail can be read
off these: the value of a variable is the polarity of its literal on the trail, the counts of
a row are the literals of its clause that the trail makes true and false, and the two totals
count rows.  `along` is the state that does so.

A search moves between such states only.  `assign_along` and `undo_along` say that making a
literal true and taking one back are pushing to the trail and popping from it, and neither
meets a fault as long as the trail `Fits`: its literals are over distinct variables that have
entries.  So a state that has been left by an assignment is found again by taking it back.

The counts change in two passes over rows, one for each polarity, and between the two the
counts of true and of false literals belong to different trails.  `tally` therefore takes two.
-/

namespace Clausal

namespace Search

variable {f : Formula} {s : Search} {t u : List Literal} {l : Literal} {j : Journal Event}

/-! ## States whose totals count their rows -/

/-- All literals of the clause are false. -/
def Row.isFalsified (r : Row) : Bool := r.falsified == r.clause.size

/-- The search with other rows, and with the totals that count them. -/
def withRows (s : Search) (rows : List Row) : Search :=
  { s with
    rows := rows.toArray
    satisfiedClauses := rows.countP fun r => !r.isOpen
    falsifiedClauses := rows.countP Row.isFalsified }

variable {above below : List Row} {r : Row}

@[simp] theorem ok_bind {α β : Type} (a : α) (k : α → Except Fault β) :
    (Except.ok a >>= k) = k a := rfl

@[simp] theorem ok_map {α β : Type} (a : α) (k : α → β) :
    k <$> (Except.ok a : Except Fault α) = .ok (k a) := rfl

theorem row_withRows : (s.withRows (above ++ r :: below)).row above.length = .ok r := by
  simp [row, withRows]

/-- One more true literal in a row is counted in the row, and in the totals if it is the first. -/
theorem addSatisfied_withRows :
    (s.withRows (above ++ r :: below)).addSatisfied above.length =
      .ok (s.withRows (above ++ { r with satisfied := r.satisfied + 1 } :: below)) := by
  rw [addSatisfied, row_withRows]
  by_cases h : r.satisfied = 0
  · simp [setRow, withRows, Row.isOpen, Row.isFalsified, List.countP_cons, h, Nat.add_assoc]
  · simp [setRow, withRows, Row.isOpen, Row.isFalsified, List.countP_cons, h]

/-- One true literal less is counted just the other way round. -/
theorem removeSatisfied_withRows :
    (s.withRows (above ++ { r with satisfied := r.satisfied + 1 } :: below)).removeSatisfied
        above.length = .ok (s.withRows (above ++ r :: below)) := by
  rw [removeSatisfied, row_withRows]
  cases r with
  | mk c satisfied falsified =>
      cases satisfied with
      | zero =>
          simp [setRow, withRows, Row.isOpen, Row.isFalsified, List.countP_cons, decrement,
            ← Nat.add_assoc]
      | succ n =>
          simp [setRow, withRows, Row.isOpen, Row.isFalsified, List.countP_cons, decrement]

/-- A false literal more is counted right in a row that has one left. -/
theorem addFalsified_withRows (hr : r.falsified ≠ r.clause.size) :
    (s.withRows (above ++ r :: below)).addFalsified above.length =
      .ok (s.withRows (above ++ { r with falsified := r.falsified + 1 } :: below)) := by
  rw [addFalsified, row_withRows]
  by_cases h : r.falsified + 1 = r.clause.size
  · simp [setRow, withRows, Row.isOpen, Row.isFalsified, List.countP_cons, ← h, Nat.add_assoc]
  · simp [setRow, withRows, Row.isOpen, Row.isFalsified, List.countP_cons, h, hr]

/-- So is one false literal less, in a row that has another one. -/
theorem removeFalsified_withRows (hr : r.falsified ≠ r.clause.size) :
    (s.withRows (above ++ { r with falsified := r.falsified + 1 } :: below)).removeFalsified
        above.length = .ok (s.withRows (above ++ r :: below)) := by
  rw [removeFalsified, row_withRows]
  by_cases h : r.falsified + 1 = r.clause.size
  · simp [setRow, withRows, Row.isOpen, Row.isFalsified, List.countP_cons, decrement, ← h,
      ← Nat.add_assoc]
  · simp [setRow, withRows, Row.isOpen, Row.isFalsified, List.countP_cons, decrement, h, hr]

/-! ## One pass over the rows of a literal -/

/-- A pass over the rows of a literal changes the rows of the clauses that hold it, if
every step changes one of them. -/
theorem foldlM_numbersOf {step : Search → Nat → Except Fault Search} {old new : Clause → Row}
    (hstep : ∀ c above below, l ∈ c → step (s.withRows (above ++ old c :: below)) above.length =
      .ok (s.withRows (above ++ new c :: below)))
    (hskip : ∀ c, l ∉ c → new c = old c) : ∀ (cs : List Clause) (above : List Row),
      (Occurrences.numbersOf l (cs.zipIdx above.length)).foldlM step
        (s.withRows (above ++ cs.map old)) = .ok (s.withRows (above ++ cs.map new))
  | [], above => rfl
  | c :: cs, above => by
      have hnext := foldlM_numbersOf hstep hskip cs (above ++ [new c])
      simp only [List.length_append, List.length_cons, List.length_nil, Nat.zero_add,
        List.append_assoc, List.cons_append, List.nil_append] at hnext
      rw [List.zipIdx_cons, Occurrences.numbersOf_cons, List.map_cons, List.map_cons]
      by_cases hc : l ∈ c
      · rw [if_pos hc, List.foldlM_cons, hstep c above _ hc]
        exact hnext
      · rw [if_neg hc, ← hskip c hc]
        exact hnext

/-! ## Counts by trails -/

/-- The row of a clause: the literals true by one trail, and those false by another. -/
def tally (yes no : List Literal) (c : Clause) : Row where
  clause := c
  satisfied := c.literals.countP fun m => decide (m ∈ yes)
  falsified := c.literals.countP fun m => decide (-m ∈ no)

/-- A list without repetition has a literal at most once, so looking for one more counts at most one
more. -/
theorem countP_or_eq {p : Literal → Bool} (hp : p l = false) : ∀ {ls : List Literal}, ls.Nodup →
    ls.countP (fun m => decide (m = l) || p m) = ls.countP p + if l ∈ ls then 1 else 0
  | [], _ => by simp
  | m :: ls, h => by
      obtain ⟨hm, hls⟩ := List.nodup_cons.mp h
      rw [List.countP_cons, List.countP_cons, countP_or_eq hp hls]
      by_cases he : m = l
      · subst he
        simp [hm, hp]
      · have he' : ¬ l = m := fun h => he h.symm
        simp [he, he']
        omega

/-- A literal on the trail is true in the clauses that have it. -/
theorem satisfied_tally_cons (hn : l ∉ t) (c : Clause) : (tally (l :: t) u c).satisfied =
    (tally t u c).satisfied + if l ∈ c then 1 else 0 := by
  have hp : (fun m => decide (m ∈ l :: t)) = fun m => decide (m = l) || decide (m ∈ t) := by
    funext m
    simp [Bool.decide_or]
  show c.literals.countP _ = _
  rw [hp, countP_or_eq (by simpa using hn) c.ascending.nodup]
  rfl

/-- A literal has one complement. -/
theorem neg_eq_iff {m : Literal} : -m = l ↔ m = -l := by
  constructor
  · rintro rfl
    rw [Literal.neg_neg]
  · rintro rfl
    rw [Literal.neg_neg]

/-- A literal on the trail makes its complement false in the clauses that have that. -/
theorem falsified_tally_cons (hn : l ∉ t) (c : Clause) : (tally u (l :: t) c).falsified =
    (tally u t c).falsified + if -l ∈ c then 1 else 0 := by
  have hp : (fun m => decide (-m ∈ l :: t)) =
      fun m => decide (m = -l) || decide (-m ∈ t) := by
    funext m
    simp [Bool.decide_or, neg_eq_iff]
  show c.literals.countP _ = _
  rw [hp, countP_or_eq (by simpa using hn) c.ascending.nodup]
  rfl

/-- The count of a clause with the literal goes up by one. -/
theorem tally_true_of_mem (hn : l ∉ t) {c : Clause} (hc : l ∈ c) :
    tally (l :: t) u c = { tally t u c with satisfied := (tally t u c).satisfied + 1 } := by
  have h := satisfied_tally_cons (u := u) hn c
  rw [if_pos hc] at h
  rw [← h]
  rfl

/-- That of any other clause stays. -/
theorem tally_true_of_not_mem (hn : l ∉ t) {c : Clause} (hc : l ∉ c) :
    tally (l :: t) u c = tally t u c := by
  have h := satisfied_tally_cons (u := u) hn c
  rw [if_neg hc, Nat.add_zero] at h
  show ({ tally t u c with satisfied := (tally (l :: t) u c).satisfied } : Row) = _
  rw [h]

theorem tally_false_of_mem (hn : l ∉ t) {c : Clause} (hc : -l ∈ c) :
    tally u (l :: t) c = { tally u t c with falsified := (tally u t c).falsified + 1 } := by
  have h := falsified_tally_cons (u := u) hn c
  rw [if_pos hc] at h
  rw [← h]
  rfl

theorem tally_false_of_not_mem (hn : l ∉ t) {c : Clause} (hc : -l ∉ c) :
    tally u (l :: t) c = tally u t c := by
  have h := falsified_tally_cons (u := u) hn c
  rw [if_neg hc, Nat.add_zero] at h
  show ({ tally u t c with falsified := (tally u (l :: t) c).falsified } : Row) = _
  rw [h]

/-- A clause in which one more literal is about to become false is not falsified yet. -/
theorem falsified_tally_ne_size (hn : l ∉ t) {c : Clause} (hc : -l ∈ c) :
    (tally u t c).falsified ≠ (tally u t c).clause.size := by
  intro he
  have hall := List.countP_eq_length.mp he (-l) hc
  rw [Literal.neg_neg, decide_eq_true_eq] at hall
  exact hn hall

/-! ## The state along a trail -/

/-- The value that a trail gives to the variable at a position. -/
def valueAt (t : List Literal) (i : Nat) : Option Bool :=
  (t.find? fun l => l.var.index == i).map Literal.positive

/-- The table of the values that a trail gives. -/
def valuesAlong (width : Nat) (t : List Literal) : PartialAssignment :=
  ⟨Array.ofFn fun i : Fin width => valueAt t i⟩

/-- The search of a formula that has made the literals of a trail true. -/
def along (f : Formula) (t : List Literal) (j : Journal Event) : Search :=
  withRows
    { formula := f
      occurrences := .ofClauses (tableWidth f.clauses) f.clauses
      values := valuesAlong (tableWidth f.clauses) t
      rows := #[]
      satisfiedClauses := 0
      falsifiedClauses := 0
      trail := t
      journal := j }
    (f.clauses.map (tally t t))

/-- Giving a variable the polarity of its literal is pushing the literal. -/
theorem setValue_true (width : Nat) (t : List Literal) (l : Literal) :
    (⟨(valuesAlong width t).values.setIfInBounds l.var.index (some l.positive)⟩ :
      PartialAssignment) = valuesAlong width (l :: t) := by
  simp only [valuesAlong, PartialAssignment.mk.injEq]
  apply Array.ext
  · simp
  · intro i hi _
    rw [Array.getElem_setIfInBounds (by simpa using hi)]
    by_cases h : l.var.index = i
    · simp [h, valueAt]
    · simp [h, valueAt]

/-- Taking the value away again is popping the literal, if no other is over its variable. -/
theorem setValue_none {width : Nat} (hv : ∀ m ∈ t, m.var ≠ l.var) :
    (⟨(valuesAlong width (l :: t)).values.setIfInBounds l.var.index none⟩ :
      PartialAssignment) = valuesAlong width t := by
  simp only [valuesAlong, PartialAssignment.mk.injEq]
  apply Array.ext
  · simp
  · intro i hi _
    rw [Array.getElem_setIfInBounds (by simpa using hi)]
    by_cases h : l.var.index = i
    · have hnone : valueAt t i = none := by
        rw [valueAt, Option.map_eq_none_iff, List.find?_eq_none]
        intro m hm he
        exact hv m hm (Variable.eq_of_index_eq ((beq_iff_eq.mp he).trans h.symm))
      simp [h, hnone]
    · simp [h, valueAt]

theorem size_valuesAlong (width : Nat) (t : List Literal) :
    (valuesAlong width t).size = width := by
  simp [PartialAssignment.size, valuesAlong]

/-- The rows with a literal are found in the table, which has an entry for it. -/
theorem rowsOf_along (hl : l.var.index < tableWidth f.clauses) (rows : List Row) :
    ((along f t j).withRows rows).rowsOf l =
      .ok (Occurrences.numbersOf l f.clauses.zipIdx).toArray := by
  have hrows : ((along f t j).withRows rows).occurrences.rows? l =
      some (Occurrences.numbersOf l f.clauses.zipIdx).toArray :=
    Occurrences.rows?_ofClauses hl
  rw [rowsOf, hrows]

/-- The entry of a declared variable can be set. -/
theorem setValue_along {v : Variable} {b : Option Bool} (hv : v.index < tableWidth f.clauses)
    (hvalues : (⟨(valuesAlong (tableWidth f.clauses) t).values.setIfInBounds v.index b⟩ :
      PartialAssignment) = valuesAlong (tableWidth f.clauses) u) :
    ({ along f t j with trail := u }).setValue v b =
      .ok ((along f u j).withRows (f.clauses.map (tally t t))) := by
  rw [setValue]
  show (if v.index < (valuesAlong (tableWidth f.clauses) t).size then _ else _) = _
  rw [size_valuesAlong, if_pos hv]
  show Except.ok { along f t j with
    trail := u
    values := ⟨(valuesAlong (tableWidth f.clauses) t).values.setIfInBounds v.index b⟩ } = _
  rw [hvalues]
  rfl

/-- The two passes that follow a change of value, over the rows of the literal and over those of
its complement. -/
theorem recount_along {first second : Search → Nat → Except Fault Search}
    {old m new : Clause → Row} (hl : l.var.index < tableWidth f.clauses)
    (hfirst : ∀ c above below, l ∈ c →
      first ((along f t j).withRows (above ++ old c :: below)) above.length =
        .ok ((along f t j).withRows (above ++ m c :: below)))
    (hmid : ∀ c, l ∉ c → m c = old c)
    (hsecond : ∀ c above below, -l ∈ c →
      second ((along f t j).withRows (above ++ m c :: below)) above.length =
        .ok ((along f t j).withRows (above ++ new c :: below)))
    (hnew : ∀ c, -l ∉ c → new c = m c) :
    (do
      let s := (along f t j).withRows (f.clauses.map old)
      let s ← (← s.rowsOf l).foldlM first s
      (← s.rowsOf (-l)).foldlM second s) =
        .ok ((along f t j).withRows (f.clauses.map new)) := by
  have hl' : (-l).var.index < tableWidth f.clauses := hl
  have hpass := foldlM_numbersOf hfirst hmid f.clauses []
  have hpass' := foldlM_numbersOf hsecond hnew f.clauses []
  simp only [List.nil_append, List.length_nil] at hpass hpass'
  show (((along f t j).withRows (f.clauses.map old)).rowsOf l >>= _) = _
  rw [rowsOf_along hl, ok_bind, List.foldlM_toArray, hpass, ok_bind,
    rowsOf_along hl', ok_bind, List.foldlM_toArray, hpass']

/-- Making a literal true is pushing it to the trail. -/
theorem assign_along (hl : l.var.index < tableWidth f.clauses) (hn : l ∉ t) :
    (along f t j).assign l = .ok (along f (l :: t) j) := by
  rw [assign]
  show (({ along f t j with trail := l :: t }).setValue l.var (some l.positive) >>= _) = _
  rw [setValue_along hl (setValue_true _ t l), ok_bind]
  refine recount_along (m := tally (l :: t) t) hl ?_ ?_ ?_ ?_
  · intro c above below hc
    rw [addSatisfied_withRows, tally_true_of_mem hn hc]
  · intro c hc
    exact tally_true_of_not_mem hn hc
  · intro c above below hc
    rw [addFalsified_withRows (falsified_tally_ne_size hn hc), tally_false_of_mem hn hc]
  · intro c hc
    exact tally_false_of_not_mem hn hc

/-- Taking the newest literal back is popping it from the trail, if its variable was new. -/
theorem undo_along (hl : l.var.index < tableWidth f.clauses) (hv : ∀ m ∈ t, m.var ≠ l.var) :
    (along f (l :: t) j).undo = .ok (along f t j) := by
  have hn : l ∉ t := fun hm => hv l hm rfl
  show (({ along f (l :: t) j with trail := t }).setValue l.var none >>= _) = _
  rw [setValue_along hl (setValue_none hv), ok_bind]
  refine recount_along (m := tally t (l :: t)) hl ?_ ?_ ?_ ?_
  · intro c above below hc
    rw [tally_true_of_mem hn hc, removeSatisfied_withRows]
  · intro c hc
    exact (tally_true_of_not_mem hn hc).symm
  · intro c above below hc
    rw [tally_false_of_mem hn hc, removeFalsified_withRows (falsified_tally_ne_size hn hc)]
  · intro c hc
    exact (tally_false_of_not_mem hn hc).symm

/-! ## Trails that a search can have -/

/-- The literals of the trail are over distinct variables, and the tables have entries for
these.  A variable may have an entry and not occur, if a greater one occurs. -/
structure Fits (f : Formula) (t : List Literal) : Prop where
  distinct : t.Pairwise fun l m => l.var ≠ m.var
  hasEntry : ∀ {l : Literal}, l ∈ t → l.var.index < tableWidth f.clauses

theorem Fits.nil : Fits f [] := ⟨List.Pairwise.nil, fun h => absurd h List.not_mem_nil⟩

/-- A literal over a new variable with an entry can be pushed to a trail that fits. -/
theorem Fits.cons (h : Fits f t) (hl : l.var.index < tableWidth f.clauses)
    (hv : ∀ m ∈ t, m.var ≠ l.var) : Fits f (l :: t) where
  distinct := List.pairwise_cons.mpr ⟨fun m hm => (hv m hm).symm, h.distinct⟩
  hasEntry hm := by
    rcases List.mem_cons.mp hm with rfl | hm
    · exact hl
    · exact h.hasEntry hm

theorem Fits.tail (h : Fits f (l :: t)) : Fits f t where
  distinct := (List.pairwise_cons.mp h.distinct).2
  hasEntry hm := h.hasEntry (List.mem_cons_of_mem _ hm)

theorem Fits.head_new (h : Fits f (l :: t)) : ∀ m ∈ t, m.var ≠ l.var :=
  fun m hm => ((List.pairwise_cons.mp h.distinct).1 m hm).symm

/-- A trail that fits does not have a literal and its complement. -/
theorem Fits.not_mem_neg (h : Fits f t) (hl : l ∈ t) : -l ∉ t := by
  induction t with
  | nil => exact List.not_mem_nil
  | cons m t ih =>
      intro hn
      rcases List.mem_cons.mp hl with rfl | hlt
      · rcases List.mem_cons.mp hn with he | hnt
        · exact l.ne_neg he.symm
        · exact h.head_new _ hnt rfl
      · rcases List.mem_cons.mp hn with he | hnt
        · exact h.head_new _ hlt (he ▸ rfl)
        · exact ih h.tail hlt hnt

/-- Taking literals back to an earlier trail leads to the state along that trail. -/
theorem backtrack_along : ∀ {u : List Literal}, Fits f (u ++ t) →
    (along f (u ++ t) j).backtrack t.length = .ok (along f t j)
  | [], _ => by
      show undoMany (t.length - t.length) _ = _
      rw [Nat.sub_self]
      rfl
  | l :: u, h => by
      have hlen : ((l :: u) ++ t).length - t.length = (u ++ t).length - t.length + 1 := by
        simp only [List.cons_append, List.length_cons, List.length_append]
        omega
      show undoMany (((l :: u) ++ t).length - t.length) _ = _
      rw [hlen, undoMany]
      rw [List.cons_append] at h ⊢
      rw [undo_along (h.hasEntry List.mem_cons_self) h.head_new]
      exact backtrack_along h.tail

/-- A trail gives its literals their polarities, and no other value. -/
theorem value_valuesAlong (h : Fits f t) {v : Variable} {b : Bool} :
    (valuesAlong (tableWidth f.clauses) t).value v = some b ↔ (⟨v, b⟩ : Literal) ∈ t := by
  have hvalue : (valuesAlong (tableWidth f.clauses) t).value v =
      if v.index < tableWidth f.clauses then valueAt t v.index else none := by
    rw [PartialAssignment.value, valuesAlong, Array.getElem?_ofFn]
    split
    · rfl
    · rfl
  rw [hvalue]
  constructor
  · intro hb
    split at hb
    · obtain ⟨l, hl, rfl⟩ := Option.map_eq_some_iff.mp hb
      have hindex := List.find?_some hl
      cases Variable.eq_of_index_eq (beq_iff_eq.mp hindex)
      exact List.mem_of_find?_eq_some hl
    · cases hb
  · intro hb
    rw [if_pos (h.hasEntry hb), valueAt]
    cases hfind : t.find? fun l => l.var.index == v.index with
    | none => exact absurd (beq_self_eq_true _) (List.find?_eq_none.mp hfind _ hb)
    | some l =>
        have hindex := List.find?_some hfind
        have hl : l ∈ t := List.mem_of_find?_eq_some hfind
        have hv : l.var = (⟨v, b⟩ : Literal).var := Variable.eq_of_index_eq (beq_iff_eq.mp hindex)
        rcases Literal.eq_or_eq_neg hv with he | he
        · rw [he]; rfl
        · exact absurd (he ▸ hl) (h.not_mem_neg hb)

/-- The state before the first step is the one along the empty trail. -/
theorem start_eq_along (f : Formula) : start f = along f [] {} := by
  have hrows : f.clauses.map (fun c => ({ clause := c } : Row)) = f.clauses.map (tally [] []) := by
    simp [tally]
  have hvalues : (⟨Array.replicate (tableWidth f.clauses) none⟩ : PartialAssignment) =
      valuesAlong (tableWidth f.clauses) [] := by
    simp only [valuesAlong, PartialAssignment.mk.injEq]
    apply Array.ext
    · simp
    · intro i hi _
      simp [valueAt]
  have htrue : (f.clauses.map (tally [] [])).countP (fun r => !r.isOpen) = 0 := by
    simp [List.countP_eq_zero, tally, Row.isOpen]
  have hfalse : f.clauses.countP Clause.isEmpty =
      (f.clauses.map (tally [] [])).countP Row.isFalsified := by
    rw [List.countP_map]
    refine List.countP_congr fun c _ => ?_
    simp only [Clause.isEmpty, List.isEmpty_iff, Function.comp_apply, Row.isFalsified, tally,
      Clause.size, List.not_mem_nil, decide_false, List.countP_false, beq_iff_eq]
    rw [← List.length_eq_zero_iff]
    exact ⟨Eq.symm, Eq.symm⟩
  simp only [start, along, withRows, hrows, hvalues, htrue, hfalse]

end Search

end Clausal
