import Clausal.Proofs.Benchmark.Selection
import Clausal.Proofs.Verdicts
import Mathlib.Data.List.Forall2

/-!
# What a run says of its files

A run goes through the files of a folder one by one.  What it says of a file depends on the content
of that file and, for the time, on the clock (`RowOf`).  A file that cannot be read has a row like
the others, and the next file is taken up in the same way.

The totals are counted along the way, apart from the rows.  They are the numbers of rows that say
so (`Summary.ofRows`, `count_fields`).
-/

namespace Clausal

namespace Benchmark

open List (Forall₂)
open Machine (Yields)

variable {a : Algorithm} {e : Verdict} {f : Formula} {d : Disk} {s : Machine} {place : Place}
  {folder inner name path : String} {limit : Option Nat} {names : List String}
  {content : ByteArray} {answer : Solution} {stats : Stats} {row : Row}

/-! ## The row of a file -/

/-- The formula that a file with this content denotes, if it is a text and denotes one. -/
def formula? (content : ByteArray) : Option Formula :=
  (String.fromUTF8? content).bind fun text => (Formula.ofDimacs text).toOption

/-- What a run may say of a file with this content. -/
inductive RowOf (a : Algorithm) (e : Verdict) (name : String) (content : ByteArray) : Row → Prop
  /-- The file denotes no formula. -/
  | unreadable : formula? content = none → RowOf a e name content ⟨name, e, none⟩
  /-- The method answers. -/
  | decided {f : Formula} {answer : Solution} {stats : Stats} (elapsed : Nat) :
      formula? content = some f → a.solve f = .ok (answer, stats) →
      RowOf a e name content ⟨name, e, some ⟨answer.verdict, elapsed, stats⟩⟩

/-- The row without its time. -/
def Row.untimed (r : Row) : Row :=
  { r with result := r.result.map fun t => { t with elapsed := 0 } }

theorem RowOf.file_eq (h : RowOf a e name content row) : row.file = name := by
  cases h <;> rfl

theorem RowOf.expected_eq (h : RowOf a e name content row) : row.expected = e := by
  cases h <;> rfl

/-- A file has one row, the time aside. -/
theorem RowOf.untimed_eq {other : Row} (h : RowOf a e name content row)
    (h' : RowOf a e name content other) : row.untimed = other.untimed := by
  cases h with
  | unreadable hnone =>
      cases h' with
      | unreadable _ => rfl
      | decided _ hsome _ => rw [hnone] at hsome; cases hsome
  | decided _ hf hs =>
      cases h' with
      | unreadable hnone => rw [hnone] at hf; cases hf
      | decided _ hf' hs' =>
          rw [hf] at hf'
          cases hf'
          rw [hs] at hs'
          cases hs'
          rfl

/-- The fields of a row tell whether the file denotes a formula and whether the verdict found is
the expected one, which is to say whether the expected one is true. -/
structure Row.Tells (r : Row) (a : Algorithm) (content : ByteArray) : Prop where
  /-- Just the rows of files without a formula are error rows. -/
  error_iff : r.fields = [r.file, r.expected.text, "Error", "No", "0.000000"] ↔
    formula? content = none
  /-- Any other row has the verdict of the method. -/
  decided : ∀ f, formula? content = some f → ∃ answer stats mark seconds,
    a.solve f = .ok (answer, stats) ∧
    r.fields = [r.file, r.expected.text, answer.verdict.text, mark, seconds] ∧
    (mark = "Yes" ↔ r.expected.IsTrueOf f) ∧ (mark = "No" ↔ ¬ r.expected.IsTrueOf f)

theorem Verdict.text_ne_error (v : Verdict) : v.text ≠ "Error" := by
  cases v <;> decide

/-- A row is marked as an error just if the file denotes no formula.  Otherwise it has the verdict
of the method, and it says whether the formula is as expected. -/
theorem RowOf.tells (h : RowOf a e name content row) : row.Tells a content := by
  cases h with
  | unreadable hnone =>
      refine ⟨iff_of_true rfl hnone, fun f hf => ?_⟩
      rw [hnone] at hf
      cases hf
  | @decided f answer stats elapsed hf hs =>
      constructor
      · refine iff_of_false (fun hfields => ?_) (by rw [hf]; exact nofun)
        simp only [Row.fields, List.cons.injEq] at hfields
        exact Verdict.text_ne_error _ hfields.2.2.1
      · intro g hg
        rw [hf] at hg
        cases hg
        refine ⟨answer, stats, _, _, hs, rfl, ?_⟩
        obtain ⟨_, _, hs', htrue⟩ := a.verdict_solve f
        rw [hs] at hs'
        cases hs'
        have heq := htrue.eq_iff e
        by_cases hv : answer.verdict = e
        · rw [if_pos hv]
          exact ⟨iff_of_true rfl (heq.mp hv), iff_of_false (by decide) fun hn => hn (heq.mp hv)⟩
        · have hn : ¬ e.IsTrueOf f := fun h => hv (heq.mpr h)
          rw [if_neg hv]
          exact ⟨iff_of_false (by decide) hn, iff_of_true rfl hn⟩

/-! ## Totals -/

/-- The totals of two lists of rows are added up. -/
theorem Summary.ofRows_append (rows others : List Row) :
    Summary.ofRows (rows ++ others) = (Summary.ofRows rows).add (Summary.ofRows others) := by
  simp [Summary.ofRows, Summary.add]

/-- The totals of the results are those of their rows. -/
def Results.Counted (r : Results) : Prop := r.summary = Summary.ofRows r.rows

/-- Totals that are those of the rows stay so when results are put together. -/
theorem Results.Counted.append {r q : Results} (h : r.Counted) (h' : q.Counted) :
    (r.append q).Counted := by
  rw [Counted, Results.append, Summary.ofRows_append, ← h, ← h']

theorem counted_ofUnreadable (e : Verdict) (name : String) (fault : LoadError) :
    (Results.ofUnreadable e name fault).Counted := rfl

theorem counted_ofMeasurement (a : Algorithm) (e : Verdict) (name : String) (t : Measurement) :
    (Results.ofMeasurement a e name t).Counted := by
  by_cases hv : t.verdict = e
  · simp [Results.Counted, Results.ofMeasurement, Summary.ofRows, Row.isCorrect, Row.isError, hv]
  · simp [Results.Counted, Results.ofMeasurement, Summary.ofRows, Row.isCorrect, Row.isError, hv]

/-- The totals count the rows with `Yes` and the rows with `Error`. -/
theorem count_fields (rows : List Row) :
    (Summary.ofRows rows).correct = rows.countP (fun r => r.fields[3]? == some "Yes") ∧
      (Summary.ofRows rows).errors = rows.countP (fun r => r.fields[2]? == some "Error") := by
  constructor
  · refine List.countP_congr fun ⟨file, expected, result⟩ _ => ?_
    cases result with
    | none => simp [Row.fields, Row.isCorrect]
    | some t => by_cases hv : t.verdict = expected <;> simp [Row.fields, Row.isCorrect, hv]
  · refine List.countP_congr fun ⟨file, expected, result⟩ _ => ?_
    cases result with
    | none => simp [Row.fields, Row.isError]
    | some t => simpa [Row.fields, Row.isError] using Verdict.text_ne_error t.verdict

/-! ## One file after the other -/

theorem readText_eq (hread : s.disk.read path = .ok content) :
    (Files.readText path : StateM Machine _) s = (match String.fromUTF8? content with
      | some text => .ok text
      | none => .error .notText, s) := by
  have hbytes : (Files.read path : StateM Machine _) s = (.ok content, s) := by
    rw [← hread]
    rfl
  refine (Machine.bind_eq hbytes).trans ?_
  dsimp only
  cases String.fromUTF8? content with
  | none => rfl
  | some text => rfl

theorem load_of_some (hread : s.disk.read path = .ok content) (hf : formula? content = some f) :
    (Formula.load path : StateM Machine _) s = (.ok f, s) := by
  obtain ⟨text, htext, hparse⟩ := Option.bind_eq_some_iff.mp hf
  refine (Machine.bind_eq (readText_eq hread)).trans ?_
  simp only [htext]
  cases hp : Formula.ofDimacs text with
  | error fault => rw [hp] at hparse; cases hparse
  | ok g => rw [hp] at hparse; cases hparse; rfl

theorem load_of_none (hread : s.disk.read path = .ok content) (hf : formula? content = none) :
    ∃ fault, (Formula.load path : StateM Machine _) s = (.error fault, s) := by
  have hload := readText_eq hread
  cases htext : String.fromUTF8? content with
  | none =>
      rw [htext] at hload
      exact ⟨_, Machine.bind_eq hload⟩
  | some text =>
      rw [htext] at hload
      rw [formula?, htext, Option.bind_some] at hf
      cases hp : Formula.ofDimacs text with
      | error fault =>
          refine ⟨.malformed fault, (Machine.bind_eq hload).trans ?_⟩
          simp only [hp]
          rfl
      | ok g => rw [hp] at hf; cases hf

/-- The machine after a timed computation. -/
def tick (s : Machine) : Machine := { s with durations := fun n => s.durations (n + 1) }

/-- A file that denotes a formula is measured.  The clock ticks once and the disk is left alone. -/
theorem measure_of_some (hread : s.disk.read path = .ok content) (hf : formula? content = some f)
    (hs : a.solve f = .ok (answer, stats)) :
    (measure a path : StateM Machine _) s =
      (.ok ⟨answer.verdict, s.durations 0, stats⟩, tick s) := by
  refine (Machine.bind_eq (load_of_some hread hf)).trans ?_
  have htimed : (Files.timed (fun _ => a.solve f) : StateM Machine _) s =
      ((.ok (answer, stats), s.durations 0), tick s) := by
    rw [← hs]
    rfl
  exact Machine.bind_eq htimed

/-- A file that denotes no formula is an error, and the machine is left as it was. -/
theorem measure_of_none (hread : s.disk.read path = .ok content) (hf : formula? content = none) :
    ∃ fault, (measure a path : StateM Machine _) s = (.error (.unreadable fault), s) := by
  obtain ⟨fault, hload⟩ := load_of_none hread hf
  exact ⟨fault, Machine.bind_eq hload⟩

/-- The row is that of the file of the name, in the folder at the place. -/
def RowAt (d : Disk) (a : Algorithm) (e : Verdict) (place : Place) (name : String) (row : Row) :
    Prop :=
  ∃ content, d.node? (name :: place) = some (.file content) ∧ RowOf a e name content row

/-- Every file of the list has its row, in order, whatever the files before it were. -/
theorem runFiles_yields : ∀ {names : List String} {s : Machine}, s.disk.Opens inner place →
    (∀ name ∈ names, IsFormulaFile s.disk inner place name) →
    ∃ results t, Yields (runFiles a e inner names) s results t ∧ t.disk = s.disk ∧
      Forall₂ (RowAt s.disk a e place) names results.rows ∧ results.Counted
  | [], s, _, _ => ⟨{}, s, .pure, rfl, .nil, rfl⟩
  | name :: names, s, h, hnames => by
      obtain ⟨hname, hrest⟩ := List.forall_mem_cons.mp hnames
      obtain ⟨content, hnode⟩ := hname.isFile
      have hread := h.read_join hname.takes hnode
      -- Whatever becomes of this file, the run takes up the others on the same disk.
      have hgo : ∀ {t : Machine}, t.disk = s.disk → ∃ results u,
          Yields (runFiles a e inner names) t results u ∧ u.disk = s.disk ∧
            Forall₂ (RowAt s.disk a e place) names results.rows ∧ results.Counted := by
        intro t ht
        rw [← ht] at h hrest ⊢
        exact runFiles_yields h hrest
      cases hf : formula? content with
      | none =>
          obtain ⟨fault, hmeasure⟩ := measure_of_none (a := a) hread hf
          obtain ⟨results, u, hresults, hu, hrows, hcounted⟩ := hgo rfl
          refine ⟨_, u, (Yields.lift hmeasure).bind (hresults.bind .pure), hu, ?_, ?_⟩
          · exact .cons ⟨content, hnode, .unreadable hf⟩ hrows
          · exact (counted_ofUnreadable e name fault).append hcounted
      | some f =>
          obtain ⟨answer, stats, hs, _⟩ := a.verdict_solve f
          have hmeasure := measure_of_some hread hf hs
          obtain ⟨results, u, hresults, hu, hrows, hcounted⟩ := hgo (t := tick s) rfl
          refine ⟨_, u, (Yields.lift hmeasure).bind (hresults.bind .pure), hu, ?_, ?_⟩
          · exact .cons ⟨content, hnode, .decided _ hf hs⟩ hrows
          · exact (counted_ofMeasurement a e name _).append hcounted

/-! ## One folder -/

/-- The path of the folder with the formulas of a verdict. -/
def innerPath (folder : String) (e : Verdict) : String := Path.join folder (folderName e)

/-- Its place. -/
def innerPlace (place : Place) (e : Verdict) : Place := folderName e :: place

/-- The results are those of the files of a folder, which a path leads to. -/
structure CoversFolder (d : Disk) (a : Algorithm) (limit : Option Nat) (folder : String)
    (place : Place) (e : Verdict) (results : Results) : Prop where
  /-- There is one row for every file that should be taken, in order. -/
  rows : ∃ names, Selects (IsFormulaFile d (innerPath folder e) (innerPlace place e)) limit names ∧
    Forall₂ (RowAt d a e (innerPlace place e)) names results.rows
  /-- The totals are those of the rows. -/
  counted : results.Counted

theorem isEntryName_folderName (e : Verdict) : Disk.IsEntryName (folderName e) := by
  cases e with
  | sat => exact ⟨by decide, by decide⟩
  | unsat => exact ⟨by decide, by decide⟩

/-- Where the system takes the path of a file, it takes that of the folder. -/
theorem takes_inner (h : Disk.Takes (innerPath folder e) name) (hname : '/' ∉ name.toList) :
    Disk.Takes folder (folderName e) := by
  refine ⟨Disk.checkPath_of_join hname (fun hempty => ?_) h.1, by cases e <;> decide⟩
  obtain ⟨rest, hjoin⟩ := Path.join_eq_append folder (isEntryName_folderName e).noSlash
  rw [hjoin, String.append_eq_empty_iff] at hempty
  exact absurd hempty.2 (by cases e <;> decide)

/-- A run over one folder succeeds, also if the folder is missing. -/
theorem runFolder_yields (a : Algorithm) (e : Verdict) (limit : Option Nat)
    (h : s.disk.Opens folder place) : ∃ results t,
    Yields (runFolder a folder limit e) s results t ∧ t.disk = s.disk ∧
      CoversFolder s.disk a limit folder place e results := by
  have hname := isEntryName_folderName e
  have htest : (Files.isFolder (innerPath folder e) : StateM Machine _) s =
      (s.disk.isFolder (innerPath folder e), s) := rfl
  cases hinner : s.disk.isFolder (innerPath folder e) with
  | false =>
      rw [hinner] at htest
      refine ⟨{ events := [.skipped (innerPath folder e)] }, s, (Yields.lift htest).bind .pure,
        rfl, ?_, rfl⟩
      refine ⟨[], selects_nil fun name hfile => ?_, .nil⟩
      obtain ⟨content, hnode⟩ := hfile.isFile
      have htakes := takes_inner hfile.takes (h.isTree.name hnode).noSlash
      have hfolder := (h.isFolder_join_iff hname).mpr ⟨htakes, h.isTree.folder hnode⟩
      exact Bool.false_ne_true (hinner.symm.trans hfolder)
  | true =>
      rw [hinner] at htest
      obtain ⟨htakes, hnode⟩ := (h.isFolder_join_iff hname).mp hinner
      have hopens : s.disk.Opens (innerPath folder e) (innerPlace place e) := h.join htakes hnode
      have hfind := (h.find_join_iff hname).mpr ⟨htakes, rfl, hnode⟩
      obtain ⟨names, hfiles, hselects⟩ := formulaFiles_yields limit hopens hfind
      obtain ⟨results, t, hresults, ht, hrows, hcounted⟩ :=
        runFiles_yields (a := a) (e := e) hopens fun _ hmem => hselects.of_mem hmem
      exact ⟨results, t, (Yields.lift htest).bind (hfiles.bind hresults), ht,
        ⟨names, hselects, hrows⟩, hcounted⟩

end Benchmark

end Clausal
