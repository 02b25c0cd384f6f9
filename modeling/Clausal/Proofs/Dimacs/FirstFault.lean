import Clausal.Proofs.Dimacs.Faults
import Mathlib.Data.List.TakeWhile

/-!
# The first fault decides

Lines of content are read one after the other, and the first that has a fault ends the reading.
`Faultless` says of some lines that none of them has a fault, and what they declare and hold.
`FirstFault` says of a line that it has a fault and that no line before it has one.  A text is
refused for a line exactly if that line is the first at fault (`readContent_eq_error_iff`), so what
comes behind it does not matter (`Decides`).  Which lines a text has, and which of them are lines of
content, is said by the relations of the grammar.

The number of clauses is compared last.  It is a fault only if no line has one.
-/

namespace Clausal

namespace Dimacs

variable {ls before after : List Line} {line : Line} {e : Error} {s : Progress}
  {problem : Option Problem} {lss : List (List Literal)}

/-! ### Lines up to the end of the formula -/

/-- The lines of content among some lines of a text. -/
def content (ls : List Line) : List Line :=
  (ls.takeWhile fun l => !l.isTrailer).filter fun l => !l.isSilent

theorem contentLines_eq (text : List Char) : contentLines text = content (numberedLines text) := rfl

/-- No line ends the formula. -/
def NoTrailer (ls : List Line) : Prop := ∀ l ∈ ls, l.isTrailer = false

/-- Lines of which none ends the formula are read, and so is what stands behind them. -/
theorem content_append (h : NoTrailer before) (after : List Line) :
    content (before ++ after) = content before ++ content after := by
  have hkeep : ∀ l ∈ before, (!l.isTrailer) = true := fun l hl => by rw [h l hl]; rfl
  simp only [content, List.takeWhile_append_of_pos hkeep, List.filter_append,
    List.takeWhile_eq_self_iff.mpr hkeep]

/-- What stands behind some lines is read, unless one of them ends the formula. -/
theorem content_append_or (before : List Line) :
    (∀ after, content (before ++ after) = content before ++ content after) ∨
      ∀ after, content (before ++ after) = content before := by
  by_cases h : (before.takeWhile fun l => !l.isTrailer).length = before.length
  · have hself := (List.takeWhile_prefix _).eq_of_length h
    exact .inl (content_append fun l hl => by
      simpa using List.takeWhile_eq_self_iff.mp hself l hl)
  · exact .inr fun after => by simp only [content, List.takeWhile_append, if_neg h]

/-- What is read of a text does not depend on lines that are not read. -/
theorem content_append_congr {more : List Line} (h : content after = content more)
    (before : List Line) : content (before ++ after) = content (before ++ more) := by
  obtain hread | hended := content_append_or before
  · rw [hread, hread, h]
  · rw [hended, hended]

/-- Behind the line that ends the formula nothing is read. -/
theorem content_cons_trailer (h : line.isTrailer = true) (after : List Line) :
    content (line :: after) = [] := by
  simp [content, h]

theorem content_cons_silent (h : line.isSilent = true) (after : List Line) :
    content (line :: after) = content after := by
  have htrailer : line.isTrailer = false := by
    rcases Line.isSilent_iff.mp h with hnil | hc
    · simp [Line.isTrailer, hnil]
    · simp [Line.isTrailer, StartsWith] at hc ⊢
      simp [hc]
  simp [content, htrailer, h]

theorem content_cons (ht : line.isTrailer = false) (hs : line.isSilent = false)
    (after : List Line) : content (line :: after) = line :: content after := by
  simp [content, ht, hs]

/-- A line of content stands among the lines of the text behind those before it. -/
theorem exists_of_content {pre post : List Line} (h : content ls = pre ++ line :: post) :
    ∃ before after, ls = before ++ line :: after ∧ NoTrailer (before ++ [line]) ∧
      line.isSilent = false ∧ content before = pre := by
  obtain ⟨front, back, hsplit, hfront, hback⟩ := List.filter_eq_append_iff.mp h
  obtain ⟨silent, rest, rfl, hsilent, hline, -⟩ := List.filter_eq_cons_iff.mp hback
  have hls : ls = (front ++ silent) ++ line :: (rest ++ ls.dropWhile fun l => !l.isTrailer) :=
    calc ls = ls.takeWhile (fun l => !l.isTrailer) ++ ls.dropWhile (fun l => !l.isTrailer) :=
          List.takeWhile_append_dropWhile.symm
      _ = _ := by simp [hsplit]
  have hkeep : ∀ l ∈ front ++ (silent ++ line :: rest), l.isTrailer = false := fun l hl => by
    have hall := List.all_eq_true.mp (List.all_takeWhile (p := fun l => !l.isTrailer) (l := ls)) l
    rw [hsplit] at hall
    simpa using hall hl
  have hnone : silent.filter (fun l => !l.isSilent) = [] := List.filter_eq_nil_iff.mpr hsilent
  have hbefore : NoTrailer (front ++ silent) := fun l hl => hkeep l (by
    rcases List.mem_append.mp hl with hl | hl <;> simp [hl])
  refine ⟨front ++ silent, _, hls, ?_, by simpa using hline, ?_⟩
  · intro l hl
    rcases List.mem_append.mp hl with hl | hl
    · exact hbefore l hl
    · exact hkeep l (by simp [List.mem_singleton.mp hl])
  · have hself : (front ++ silent).takeWhile (fun l => !l.isTrailer) = front ++ silent :=
      List.takeWhile_eq_self_iff.mpr fun l hl => by rw [hbefore l hl]; rfl
    rw [content, hself, List.filter_append, hfront, hnone, List.append_nil]

/-! ### Lines without a fault -/

/-- None of the lines of content has a fault: a problem line comes first if at all, and the clause
lines, which have these literals, keep to the variables it declares. -/
inductive Faultless : List Line → Option Problem → List (List Literal) → Prop
  | headless {ls : List Line} {lss : List (List Literal)} :
      (∀ l ∈ ls, ¬StartsWith 'p' l.text) → List.Forall₂ ClauseLine (ls.map Line.text) lss →
      Faultless ls none lss
  | headed {line : Line} {ls : List Line} {p : Problem} {lss : List (List Literal)} :
      StartsWith 'p' line.text → ProblemLine line.text p.numVariables p.numClauses →
      (∀ l ∈ ls, ¬StartsWith 'p' l.text) → List.Forall₂ ClauseLine (ls.map Line.text) lss →
      (∀ lits ∈ lss, ∀ l ∈ lits, l.var.id ≤ p.numVariables) →
      Faultless (line :: ls) (some p) lss

theorem Faultless.eq_nil_iff (h : Faultless ls problem lss) :
    ls = [] ↔ problem = none ∧ lss = [] := by
  cases h with
  | headless _ hlss =>
      constructor
      · rintro rfl
        exact ⟨rfl, List.forall₂_nil_left_iff.mp hlss⟩
      · rintro ⟨-, rfl⟩
        exact List.map_eq_nil_iff.mp (List.forall₂_nil_right_iff.mp hlss)
  | headed _ _ _ _ _ => simp

/-- There are as many clauses as lines that are no problem lines. -/
theorem Faultless.length_eq (h : Faultless ls problem lss) :
    lss.length = ls.countP fun l => !decide (StartsWith 'p' l.text) := by
  have hcount {ls : List Line} (hp : ∀ l ∈ ls, ¬StartsWith 'p' l.text) :
      ls.countP (fun l => !decide (StartsWith 'p' l.text)) = ls.length :=
    List.countP_eq_length.mpr fun l hl => by simpa using hp l hl
  cases h with
  | headless hp hlss => rw [hcount hp, ← hlss.length_eq, List.length_map]
  | headed hstart _ hp hlss _ =>
      rw [List.countP_cons_of_neg (by simp [hstart]), hcount hp,
        ← hlss.length_eq, List.length_map]

/-- Lines are read without a fault exactly if none of them has one. -/
theorem foldlM_eq_ok_iff : ls.foldlM Progress.read {} = .ok s ↔
    ∃ problem lss, Faultless ls problem lss ∧ s = ({ problem } : Progress).pushAll lss := by
  constructor
  · intro h
    obtain hp | ⟨first, rest, p, rfl, hfirst, hproblem, hp, hrest⟩ := foldlM_cases h
    · obtain ⟨lss, hlss, -, rfl⟩ := (foldlM_clauses hp).mp h
      exact ⟨none, lss, .headless hp hlss, rfl⟩
    · obtain ⟨lss, hlss, hadmits, rfl⟩ := (foldlM_clauses hp).mp hrest
      exact ⟨some p, lss, .headed hfirst hproblem hp hlss fun lits hl => hadmits lits hl p rfl, rfl⟩
  · rintro ⟨problem, lss, h, rfl⟩
    cases h with
    | headless hp hlss =>
        have hadmits : ∀ lits ∈ lss, ({} : Progress).Admits lits :=
          fun _ _ _ hsome => by cases hsome
        exact (foldlM_clauses hp).mpr ⟨lss, hlss, hadmits, rfl⟩
    | @headed line ls p lss hstart hproblem hp hlss hbound =>
        have hfirst : ({} : Progress).read line = .ok { problem := some p } :=
          (read_problem_iff hstart).mpr ⟨⟨rfl, rfl⟩, p, hproblem, rfl⟩
        have hadmits : ∀ lits ∈ lss, ({ problem := some p } : Progress).Admits lits :=
          fun lits hl _ hsome => by cases hsome; exact hbound lits hl
        have hrest := (foldlM_clauses hp).mpr ⟨lss, hlss, hadmits, rfl⟩
        rw [List.foldlM_cons]
        exact bind_eq_ok_iff.mpr ⟨_, hfirst, hrest⟩

/-- Behind lines without a fault, a line is refused exactly if it has one. -/
theorem Faultless.read_eq_error_iff (h : Faultless before problem lss) :
    (({ problem } : Progress).pushAll lss).read line = .error e ↔
      LineFault before problem line e := by
  refine Dimacs.read_eq_error_iff ?_
  rw [h.eq_nil_iff]
  simp [Progress.Fresh, Progress.pushAll]

/-! ### The first fault -/

/-- A fold stops at the first element that is refused. -/
theorem foldlM_eq_error_iff {ε α σ : Type} {f : σ → α → Except ε σ} {e : ε} :
    ∀ {l : List α} {s : σ}, l.foldlM f s = .error e ↔
      ∃ pre x post t, l = pre ++ x :: post ∧ pre.foldlM f s = .ok t ∧ f t x = .error e
  | [], s => by
      simp only [List.foldlM_nil]
      constructor
      · intro h
        cases h
      · rintro ⟨pre, x, post, -, hnil, -⟩
        exact absurd hnil.symm (List.append_ne_nil_of_right_ne_nil _ (List.cons_ne_nil _ _))
  | y :: l, s => by
      rw [List.foldlM_cons, bind_eq_error_iff]
      constructor
      · rintro (h | ⟨t, ht, h⟩)
        · exact ⟨[], y, l, s, rfl, rfl, h⟩
        · obtain ⟨pre, x, post, u, rfl, hpre, hx⟩ := foldlM_eq_error_iff.mp h
          refine ⟨y :: pre, x, post, u, rfl, ?_, hx⟩
          rw [List.foldlM_cons]
          exact bind_eq_ok_iff.mpr ⟨t, ht, hpre⟩
      · rintro ⟨pre, x, post, u, hl, hpre, hx⟩
        cases pre with
        | nil =>
            cases hl
            cases hpre
            exact .inl hx
        | cons z pre =>
            cases hl
            rw [List.foldlM_cons] at hpre
            obtain ⟨t, ht, hpre⟩ := bind_eq_ok_iff.mp hpre
            exact .inr ⟨t, ht, foldlM_eq_error_iff.mpr ⟨pre, x, post, u, rfl, hpre, hx⟩⟩

/-- The line of content has this fault, and no line before it has a fault. -/
inductive FirstFault (ls : List Line) (line : Line) (e : Error) : Prop
  | intro {before after : List Line} {problem : Option Problem} {lss : List (List Literal)} :
      ls = before ++ line :: after → Faultless before problem lss →
      LineFault before problem line e → FirstFault ls line e

/-- The fault names its line. -/
theorem FirstFault.isAbout (h : FirstFault ls line e) : e.IsAbout line := by
  obtain ⟨-, -, hfault⟩ := h
  exact hfault.isAbout

/-- A line is the first at fault exactly if reading stops there. -/
theorem firstFault_iff_foldlM : FirstFault ls line e ↔ ∃ before after s,
    ls = before ++ line :: after ∧ before.foldlM Progress.read {} = .ok s ∧
      s.read line = .error e := by
  constructor
  · rintro ⟨hls, hbefore, hfault⟩
    exact ⟨_, _, _, hls, foldlM_eq_ok_iff.mpr ⟨_, _, hbefore, rfl⟩,
      hbefore.read_eq_error_iff.mpr hfault⟩
  · rintro ⟨before, after, s, hls, hs, hline⟩
    obtain ⟨problem, lss, hbefore, rfl⟩ := foldlM_eq_ok_iff.mp hs
    exact .intro hls hbefore (hbefore.read_eq_error_iff.mp hline)

/-- Reading stops with a fault exactly if some line is the first to have it. -/
theorem exists_firstFault_iff :
    (∃ line, FirstFault ls line e) ↔ ls.foldlM Progress.read {} = .error e := by
  simp only [firstFault_iff_foldlM, foldlM_eq_error_iff]
  constructor
  · rintro ⟨line, before, after, s, h⟩
    exact ⟨before, line, after, s, h⟩
  · rintro ⟨before, line, after, s, h⟩
    exact ⟨line, before, after, s, h⟩

/-- Read the lines of content. -/
def readContent (ls : List Line) : Except Error Formula := do
  let s ← ls.foldlM Progress.read {}
  s.finish

theorem read_eq (text : List Char) : read text = readContent (contentLines text) := rfl

/-- At the end, what can be wrong is the number of clauses. -/
theorem finish_eq_error_iff : s.finish = .error e ↔ ∃ p, s.problem = some p ∧
    s.clauses.length ≠ p.numClauses ∧ e = .clauseCount p.numClauses s.clauses.length := by
  rw [Progress.finish]
  cases hp : s.problem with
  | none => simp
  | some p =>
      by_cases hm : s.clauses.length = p.numClauses
      · simp [hm]
      · simpa [hm] using eq_comm

theorem isCount_of_finish (h : s.finish = .error e) : e.IsCount := by
  obtain ⟨p, -, -, he⟩ := finish_eq_error_iff.mp h
  exact ⟨_, _, he⟩

/-- A text is refused for one of its lines exactly if that line is the first at fault. -/
theorem readContent_eq_error_iff :
    readContent ls = .error e ∧ ¬e.IsCount ↔ ∃ line, FirstFault ls line e := by
  rw [readContent, bind_eq_error_iff]
  constructor
  · rintro ⟨h | ⟨s, -, h⟩, hcount⟩
    · exact exists_firstFault_iff.mpr h
    · exact absurd (isCount_of_finish h) hcount
  · rintro ⟨line, h⟩
    exact ⟨.inl (exists_firstFault_iff.mp ⟨line, h⟩), h.isAbout.not_isCount⟩

/-- A text is refused for the number of its clauses exactly if no line is at fault and the problem
line declares another number. -/
theorem readContent_eq_clauseCount_iff {expected found : Nat} :
    readContent ls = .error (.clauseCount expected found) ↔
      ∃ p lss, Faultless ls (some p) lss ∧ p.numClauses = expected ∧ lss.length = found ∧
        found ≠ expected := by
  rw [readContent, bind_eq_error_iff]
  constructor
  · rintro (h | ⟨s, hs, h⟩)
    · obtain ⟨line, hfault⟩ := exists_firstFault_iff.mpr h
      exact absurd ⟨_, _, rfl⟩ hfault.isAbout.not_isCount
    · obtain ⟨problem, lss, hls, rfl⟩ := foldlM_eq_ok_iff.mp hs
      obtain ⟨p, rfl, hne, he⟩ := finish_eq_error_iff.mp h
      cases he
      have hlen : (({ problem := some p } : Progress).pushAll lss).clauses.length = lss.length := by
        simp [Progress.pushAll]
      rw [hlen] at hne ⊢
      exact ⟨p, lss, hls, rfl, rfl, hne⟩
  · rintro ⟨p, lss, hls, rfl, rfl, hne⟩
    refine .inr ⟨_, foldlM_eq_ok_iff.mpr ⟨_, _, hls, rfl⟩, finish_eq_error_iff.mpr ⟨p, rfl, ?_⟩⟩
    simp [Progress.pushAll, hne]

/-! ### What the first fault depends on -/

variable {text : List Char}

theorem numberedLines_getElem? (text : List Char) (i : Nat) :
    (numberedLines text)[i]? = (lines text)[i]?.map fun raw => ⟨i + 1, trim raw⟩ := by
  rw [numberedLines, List.getElem?_map, List.getElem?_zipIdx, Option.map_map]
  cases (lines text)[i]? with
  | none => rfl
  | some raw => simp

/-- A line of a text stands where its number says. -/
theorem number_eq (h : numberedLines text = before ++ line :: after) :
    line.number = before.length + 1 ∧
      ∃ raw, (lines text)[before.length]? = some raw ∧ trim raw = line.text := by
  have hline := numberedLines_getElem? text before.length
  rw [h, List.getElem?_append_right (Nat.le_refl _), Nat.sub_self, List.getElem?_cons_zero,
    eq_comm, Option.map_eq_some_iff] at hline
  obtain ⟨raw, hraw, rfl⟩ := hline
  exact ⟨rfl, raw, hraw, rfl⟩

/-- The first fault of a text with these lines depends on the text up to it, and names the line it
is on. -/
structure Decides (text : List Char) (all : List Line) (line : Line) (e : Error) : Prop where
  /-- Lines are numbered from one. -/
  one_le : 1 ≤ line.number
  /-- The line is that of its number, without the blanks around it. -/
  is_line : ∃ raw original, LinesOf text raw ∧ raw[line.number - 1]? = some original ∧
    Trimmed original line.text
  /-- No line up to it ends the formula. -/
  noTrailer : ∀ l ∈ all.take line.number, ¬StartsWith '%' l.text
  /-- Every text with these lines, but for the blanks around them, has the same fault. -/
  same_fault : ∀ other lines, NumberedLinesOf other lines →
    lines.take line.number = all.take line.number → read other = .error e
  /-- A text of the lines before has no fault, unless it is that of the number of clauses. -/
  no_fault : ∀ other, NumberedLinesOf other (all.take (line.number - 1)) →
    ∀ e', read other = .error e' → e'.IsCount
  /-- The text up to the line is one of these. -/
  exists_before : ∃ other raw, other <+: text ∧ LinesOf text raw ∧
    LinesOf other (raw.take (line.number - 1)) ∧
    NumberedLinesOf other (all.take (line.number - 1))
  /-- What the fault says of a line it says of this one. -/
  isAbout : e.IsAbout line

/-- The first lines of a text keep their numbers in a text of these lines. -/
theorem numberedLines_of_take {other : List Char} {n : Nat}
    (h : lines other = (lines text).take n) :
    numberedLines other = (numberedLines text).take n := by
  refine List.ext_getElem? fun i => ?_
  rw [numberedLines_getElem?, h]
  by_cases hi : i < n
  · rw [List.getElem?_take_of_lt hi, List.getElem?_take_of_lt hi, numberedLines_getElem?]
  · have hle := Nat.not_lt.mp hi
    rw [List.getElem?_take_eq_none hle, List.getElem?_take_eq_none hle]
    rfl

/-- The first fault of a text is decided by the text up to it. -/
theorem FirstFault.decides (h : FirstFault (contentLines text) line e) :
    Decides text (numberedLines text) line e := by
  obtain @⟨pre, post, problem, lss, hcontent, hpre, hfault⟩ := h
  obtain ⟨before, after, hls, hnone, hsilent, rfl⟩ := exists_of_content hcontent
  obtain ⟨hbefore, hline⟩ := List.forall_mem_append.mp hnone
  obtain ⟨hnumber, raw, hraw, htrim⟩ := number_eq hls
  have htake : (numberedLines text).take (line.number - 1) = before := by
    rw [hls, hnumber, Nat.add_sub_cancel, List.take_left']
    rfl
  have htake' : (numberedLines text).take line.number = before ++ [line] := by
    rw [hls, hnumber, List.append_cons, List.take_left']
    simp
  refine ⟨hnumber ▸ Nat.le_add_left 1 _,
    ⟨_, raw, linesOf_iff.mpr rfl, ?_, trimmed_iff.mpr htrim⟩, ?_, ?_, ?_, ?_, hfault.isAbout⟩
  · rw [hnumber, Nat.add_sub_cancel, hraw]
  · intro l hl htrailer
    rw [htake'] at hl
    exact absurd (Line.isTrailer_iff.mpr htrailer) (Bool.eq_false_iff.mp (hnone l hl))
  · intro other ls hls hother
    obtain rfl := numberedLinesOf_iff.mp hls
    have hsplit : numberedLines other = before ++ line :: (numberedLines other).drop line.number :=
      calc numberedLines other
          = (numberedLines other).take line.number ++ (numberedLines other).drop line.number :=
            (List.take_append_drop _ _).symm
        _ = _ := by rw [hother, htake', List.append_assoc, List.singleton_append]
    have hcontent : contentLines other =
        content before ++ line :: content ((numberedLines other).drop line.number) := by
      rw [contentLines_eq, hsplit, content_append hbefore,
        content_cons (hline line List.mem_cons_self) hsilent, ← hsplit]
    exact (readContent_eq_error_iff.mpr ⟨line, .intro hcontent hpre hfault⟩).1
  · intro other hother e' he
    rw [read_eq, contentLines_eq, numberedLinesOf_iff.mp hother, htake, readContent,
      foldlM_eq_ok_iff.mpr ⟨problem, lss, hpre, rfl⟩] at he
    exact isCount_of_finish he
  · obtain ⟨other, hother, hlines⟩ := (linesOf_iff.mpr rfl).exists_take (line.number - 1)
    exact ⟨other, _, hother, linesOf_iff.mpr rfl, hlines,
      numberedLinesOf_iff.mpr (numberedLines_of_take hlines.lines_eq)⟩

/-- A text is refused for the first of its lines of content that has a fault, and everything up to
that line, but nothing behind it, decides which fault it is.  Only if no line has one, the number of
clauses may be a fault. -/
theorem ofDimacs_firstFault (text : String) : ∃ all ls, NumberedLinesOf text.toList all ∧
    NumberedContent text.toList ls ∧
    (∀ e, Formula.ofDimacs text = .error e ∧ ¬e.IsCount ↔ ∃ line, FirstFault ls line e) ∧
    (∀ line e, FirstFault ls line e → Decides text.toList all line e) ∧
    ∀ expected found, Formula.ofDimacs text = .error (.clauseCount expected found) ↔
      (∀ line e, ¬FirstFault ls line e) ∧
        ∃ p lss, Faultless ls (some p) lss ∧ p.numClauses = expected ∧
          found = ls.countP (fun l => !decide (StartsWith 'p' l.text)) ∧ found ≠ expected := by
  refine ⟨_, _, numberedLinesOf_iff.mpr rfl, numberedContent_iff.mpr rfl,
    fun e => readContent_eq_error_iff, fun line e h => h.decides, fun expected found => ?_⟩
  refine readContent_eq_clauseCount_iff.trans ?_
  constructor
  · rintro ⟨p, lss, hlss, rfl, rfl, hne⟩
    refine ⟨fun line e h => ?_, p, lss, hlss, rfl, hlss.length_eq, hne⟩
    have hok := foldlM_eq_ok_iff.mpr ⟨_, _, hlss, rfl⟩
    rw [exists_firstFault_iff.mp ⟨line, h⟩] at hok
    cases hok
  · rintro ⟨-, p, lss, hlss, rfl, rfl, hne⟩
    exact ⟨p, lss, hlss, rfl, hlss.length_eq, hne⟩

/-- The fault of a text is on the third line, behind a comment and a blank line, and the problem
line behind it, which is out of place as well, does not matter. -/
theorem ofDimacs_firstFault_behindComment : ∃ all line,
    NumberedLinesOf "c\n\n1 0 2\np cnf".toList all ∧ line = ⟨3, "1 0 2".toList⟩ ∧
    Formula.ofDimacs "c\n\n1 0 2\np cnf" = .error (.malformedClause 3 "1 0 2") ∧
    Decides "c\n\n1 0 2\np cnf".toList all line (.malformedClause 3 "1 0 2") := by
  obtain ⟨all, ls, hall, -, hrefused, hdecides, -⟩ := ofDimacs_firstFault "c\n\n1 0 2\np cnf"
  have herror : Formula.ofDimacs "c\n\n1 0 2\np cnf" = .error (.malformedClause 3 "1 0 2") := rfl
  have hcount : ¬(Error.malformedClause 3 "1 0 2").IsCount := nofun
  obtain ⟨⟨number, words⟩, hline⟩ := (hrefused _).mp ⟨herror, hcount⟩
  have habout := hline.isAbout
  obtain rfl : 3 = number := habout.number 3 rfl
  obtain rfl : words = "1 0 2".toList := by
    rw [← String.ofList_inj]
    exact (habout.quoted "1 0 2" rfl).symm
  exact ⟨all, _, hall, rfl, herror, hdecides _ _ hline⟩

/-- A word that is no literal comes first, whatever stands behind the line. -/
example : Formula.ofDimacs "c\n1 x 0 2\np" =
    .error (.invalidLiteral "1 x 0 2" (.notANumber "x" .invalidDigit)) := rfl

end Dimacs

end Clausal
