import Clausal.Proofs.Benchmark.Run
import Clausal.Proofs.Csv
import Clausal.Proofs.Duration

/-!
# Tables read back

The text of a table is read back as the names of the columns and a record of five fields for every
row, whatever the names of the files are (`readAll_table`).  What the fields of a row are is stated
without the program (`Recorded`): the words are written out, and the time is given by the value that
it has.

A name with a comma, a quote or a line feed has quotes around it.  One with a carriage return may
have none, but it is the first of its record, and only the last one could lose it: that is the time,
which ends in a digit (`Recorded.readable`).

What a run leaves on the disk is the table of its rows (`run_yields`), so the file is read back as
the rows of the run.
-/

namespace Clausal

namespace Benchmark

open List (Forall₂)
open Machine (Yields)

variable {row : Row} {fields : List String}

/-! ## What is recorded -/

/-- The word for a verdict. -/
inductive IsWord : Verdict → String → Prop
  /-- The formula is satisfiable. -/
  | sat : IsWord .sat "SAT"
  /-- The formula is not satisfiable. -/
  | unsat : IsWord .unsat "UNSAT"

/-- The word for whether a verdict is the expected one. -/
inductive IsMark (expected found : Verdict) : String → Prop
  /-- It is. -/
  | yes : found = expected → IsMark expected found "Yes"
  /-- It is not. -/
  | no : found ≠ expected → IsMark expected found "No"

/-- The text is a duration in seconds, with six decimals: that of the double which is the sum of the
whole seconds and of the other nanoseconds divided by those of a second. -/
def IsTime (nanoseconds : ℕ) (text : String) : Prop :=
  Duration.HasSixDecimals (Duration.magnitude
    ((nanoseconds / 1000000000).toFloat +
      (nanoseconds % 1000000000).toFloat / (1000000000).toFloat))
    text.toList

/-- The five fields of the record of a row. -/
inductive Recorded : Row → List String → Prop
  /-- A row of a file that could not be read. -/
  | unreadable {file word : String} {expected : Verdict} : IsWord expected word →
      Recorded ⟨file, expected, none⟩ [file, word, "Error", "No", "0.000000"]
  /-- A row of a run. -/
  | decided {file word found mark time : String} {expected : Verdict} {t : Measurement} :
      IsWord expected word → IsWord t.verdict found → IsMark expected t.verdict mark →
      IsTime t.elapsed time → Recorded ⟨file, expected, some t⟩ [file, word, found, mark, time]

/-- The text is read back as the names of the columns and a record for every row, with nothing left
over. -/
def IsReadAs (rows : List Row) (text : String) : Prop :=
  ∃ records, Forall₂ Recorded rows records ∧
    let header := ["Filename", "Expected", "Solver Result", "Correct?", "Time (s)"]
    let all := (header :: records).map fun fields => fields.map String.toList
    Csv.readAll text.toList = all ∧
      text.toList.foldl Csv.Reader.read {} = { records := all.reverse }

/-! ## The fields of a row -/

theorem isWord_text (v : Verdict) : IsWord v v.text := by
  cases v with
  | sat => exact .sat
  | unsat => exact .unsat

theorem isMark_ite (expected found : Verdict) :
    IsMark expected found (if found = expected then "Yes" else "No") := by
  split
  · next heq => exact .yes heq
  · next hne => exact .no hne

/-- The fields of a row are its record. -/
theorem recorded_fields : ∀ row : Row, Recorded row row.fields
  | ⟨_, expected, none⟩ => .unreadable (isWord_text expected)
  | ⟨_, expected, some t⟩ => .decided (isWord_text expected) (isWord_text t.verdict)
      (isMark_ite expected t.verdict) (Duration.hasSixDecimals_text t.elapsed)

/-- The last field of a record is the time, which ends in a digit. -/
theorem Recorded.readable (h : Recorded row fields) :
    Csv.Readable (fields.map String.toList) := by
  cases h with
  | unreadable _ => exact ⟨"0.000000".toList, rfl, by decide⟩
  | decided _ _ _ htime =>
      refine ⟨_, rfl, fun hlast => ?_⟩
      exact absurd (htime.isDigit_getLast? hlast) (by decide)

/-! ## Tables -/

theorem isReadAs_table (rows : List Row) : IsReadAs rows (table rows) := by
  refine ⟨rows.map Row.fields, ?_, ?_⟩
  · rw [List.forall₂_map_right_iff, List.forall₂_same]
    exact fun row _ => recorded_fields row
  · rw [table, String.toList_ofList]
    refine Csv.readAll_writeAll fun record hrecord => ?_
    obtain ⟨fields, hfields, rfl⟩ := List.mem_map.mp hrecord
    rcases List.mem_cons.mp hfields with rfl | hrow
    · exact ⟨"Time (s)".toList, rfl, by decide⟩
    · obtain ⟨row, _, rfl⟩ := List.mem_map.mp hrow
      exact (recorded_fields row).readable

/-- The text of a table is read back as a record for every row, behind the names of the columns and
with nothing left over.  A run that can begin its table leaves a file that is read back as the rows
of the run. -/
theorem readAll_table :
    (∀ rows, IsReadAs rows (table rows)) ∧
    ∀ d a folder o place, Ready d a folder o place → ∀ t, ∃ results s text,
      Yields (run a folder o) ⟨d, t⟩ results s ∧
      s.disk.read (tablePath a folder o) = .ok (String.toUTF8 text) ∧
      IsReadAs results.rows text := by
  refine ⟨isReadAs_table, fun d a folder o place h t => ?_⟩
  obtain ⟨results, s, hrun, _, hread⟩ := run_yields h t
  exact ⟨results, s, table results.rows, hrun, hread, isReadAs_table results.rows⟩

/-- A file that cannot be read, whose name has everything that could be taken for the end of a
field, a run with the expected verdict and one with the other.  The second time is a tie. -/
def awkwardRows : List Row :=
  [⟨"\"a\",\r\n\r", .sat, none⟩, ⟨",\"\".cnf", .unsat, some ⟨.unsat, 8500, {}⟩⟩,
    ⟨"", .sat, some ⟨.unsat, 61007812500, {}⟩⟩]

/-- What is recorded of them. -/
def awkwardRecords : List (List String) :=
  [["\"a\",\r\n\r", "SAT", "Error", "No", "0.000000"],
    [",\"\".cnf", "UNSAT", "UNSAT", "Yes", "0.000008"],
    ["", "SAT", "UNSAT", "No", "61.007812"]]

/-- The table of these rows is read back as their records, and so is that of a run. -/
theorem readAll_table_awkwardRows :
    Forall₂ Recorded awkwardRows awkwardRecords ∧
    Csv.readAll (table awkwardRows).toList =
      (["Filename", "Expected", "Solver Result", "Correct?", "Time (s)"] :: awkwardRecords).map
        (fun fields => fields.map String.toList) ∧
    Ready benchDisk .search "bench" ⟨"out", none⟩ ["bench"] ∧
    ∃ results s text,
      Yields (run .search "bench" ⟨"out", none⟩) ⟨benchDisk, fun _ => 1500⟩ results s ∧
      s.disk.read (tablePath .search "bench" ⟨"out", none⟩) = .ok (String.toUTF8 text) ∧
      IsReadAs results.rows text := by
  obtain ⟨records, hrecords, hread, _⟩ := readAll_table.1 awkwardRows
  have hrows : Csv.readAll (table awkwardRows).toList =
      (["Filename", "Expected", "Solver Result", "Correct?", "Time (s)"] :: awkwardRecords).map
        (fun fields => fields.map String.toList) := by decide +kernel
  have heq : records = awkwardRecords := by
    have hmap := hread.symm.trans hrows
    have hinjective : Function.Injective fun fields : List String => fields.map String.toList :=
      List.map_injective_iff.mpr fun _ _ => String.toList_inj.mp
    exact (List.cons.inj (List.map_injective_iff.mpr hinjective hmap)).2
  subst heq
  exact ⟨hrecords, hrows, ready_benchDisk, readAll_table.2 _ _ _ _ _ ready_benchDisk fun _ => 1500⟩

end Benchmark

end Clausal
