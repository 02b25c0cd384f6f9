import Clausal.Proofs.Benchmark.Isolation
import Clausal.Proofs.Files.Contents

/-!
# A whole run

A run that can begin its table ends well (`run_accounts`).  All that it does before it reads is to
make folders and to begin the table outside of the benchmark folder, so it finds there the files
that were there when it was called.

What is asked for is `Ready`: the benchmark folder is there, and the table can be begun in a folder
outside of it.  Nothing is asked of what is in the folder.
-/

namespace Clausal

namespace Benchmark

open List (Forall₂)
open Machine (Yields)

variable {a : Algorithm} {d : Disk} {place : Place} {folder : String} {o : Options}
  {results : Results} {t : Nat → Nat}

/-! ## The table -/

/-- The line of a row in the table. -/
def Row.line (r : Row) : String := String.ofList (Csv.writeRecord (r.fields.map String.toList))

/-- The table has a header and a line for every row. -/
theorem table_eq (rows : List Row) : table rows =
    "Filename,Expected,Solver Result,Correct?,Time (s)\n" ++ String.join (rows.map Row.line) := by
  have hheader : Csv.writeRecord (columns.map String.toList) =
      "Filename,Expected,Solver Result,Correct?,Time (s)\n".toList := by decide
  have hlines : (rows.map Row.fields).map (fun r => r.map String.toList) =
      rows.map fun r => r.fields.map String.toList := List.map_map
  have hchars : ∀ r : Row, r.line.toList = Csv.writeRecord (r.fields.map String.toList) :=
    fun r => String.toList_ofList
  rw [← String.toList_inj, String.toList_append, String.toList_join, table, String.toList_ofList,
    List.map_cons, hlines, Csv.writeAll, List.flatMap_cons, hheader, List.flatMap_map,
    List.flatMap_map]
  simp only [hchars]

/-- The name of the table. -/
def tableName (a : Algorithm) (folder : String) : String :=
  (Path.fileName? folder).getD "benchmark" ++ "_results_" ++ a.name ++ ".csv"

theorem isEntryName_tableName (a : Algorithm) (folder : String) :
    Disk.IsEntryName (tableName a folder) := by
  have hfolder : '/' ∉ ((Path.fileName? folder).getD "benchmark").toList := by
    cases hf : Path.fileName? folder with
    | none => decide
    | some piece =>
        have hlast := (Option.filter_eq_some_iff.mp hf).1
        exact Path.not_mem_of_mem_pieces (List.mem_filter.mp (List.mem_of_getLast? hlast)).1
  have hmethod : '/' ∉ a.name.toList := by cases a <;> decide
  have hlong : 4 ≤ (tableName a folder).toList.length := by
    simp only [tableName, String.toList_append, List.length_append]
    exact Nat.le_add_left 4 _
  have hne : ∀ short : String, short.toList.length < 4 → (tableName a folder != short) = true := by
    intro short hshort
    rw [bne_iff_ne]
    rintro rfl
    exact Nat.not_lt_of_le hlong hshort
  constructor
  · rw [Disk.isName, hne "" (by decide), hne "." (by decide), hne ".." (by decide)]
    rfl
  · simp only [tableName, String.toList_append, List.mem_append, not_or]
    exact ⟨⟨⟨hfolder, by decide⟩, hmethod⟩, by decide⟩

/-! ## Before the first formula is read -/

/-- A run can begin: the path leads to a benchmark folder, and the table can be begun in a folder
that lies outside of it. -/
structure Ready (d : Disk) (a : Algorithm) (folder : String) (o : Options) (place : Place) :
    Prop where
  /-- The benchmark folder is there. -/
  opens : d.Opens folder place
  /-- The folder of the table can be made, the table can be begun in it, and it is outside. -/
  writable : ∃ made begun outside,
    (Files.makeFolders o.resultsFolder : StateM Disk _) d = (.ok (), made) ∧
    made.write (tablePath a folder o) (table []) = .ok begun ∧
    made.base o.resultsFolder = .ok outside ∧ ¬ place <:+ outside

/-- Beginning the table leaves the benchmark folder with the same files, and the table can be
written again. -/
theorem Ready.exists_begun (h : Ready d a folder o place) : ∃ made begun,
    (Files.makeFolders o.resultsFolder : StateM Disk _) d = (.ok (), made) ∧
    made.write (tablePath a folder o) (table []) = .ok begun ∧
    begun.Opens folder place ∧ SameFiles place d begun ∧
    ∀ text, ∃ after, begun.write (tablePath a folder o) text = .ok after ∧
      after.read (tablePath a folder o) = .ok text.toUTF8 := by
  obtain ⟨made, begun, outside, hmake, hwrite, hbase, houtside⟩ := h.writable
  have hname := isEntryName_tableName a folder
  have hagain := Disk.write_again hname hbase hwrite
  have hmade : Disk.Made d ((Files.makeFolders o.resultsFolder : StateM Disk _) d).2 :=
    Disk.makes_makeFirst _ d
  rw [hmake] at hmade
  obtain ⟨_, hfolder, hfree, rfl⟩ := (Disk.write_join_iff hname hbase).mp hwrite
  have hkeeps := hmade.keeps.trans (.put hfree (n := .file (table []).toUTF8))
  refine ⟨made, _, hmake, hwrite, ⟨?_, hkeeps.base h.opens.base_eq, hkeeps.folder h.opens.node?_eq⟩,
    fun q hq content => ?_, hagain⟩
  · exact (hmade.isTree h.opens.isTree).put hname hfolder hfree
  · have hne : q ≠ tableName a folder :: outside := by
      rintro rfl
      rcases List.suffix_cons_iff.mp hq with rfl | hq
      · exact hfree (hmade.keeps.folder h.opens.node?_eq)
      · exact houtside hq
    rw [Disk.node?_put_of_ne hne]
    rcases hmade.node?_cases q with he | ⟨hnone, hnew⟩
    · rw [he]
    · rw [hnone, hnew]
      exact iff_of_false nofun nofun

/-- Whether a run can begin does not depend on what is in the files. -/
theorem Ready.of_sameKinds {d₂ : Disk} (h : Ready d a folder o place)
    (hsame : Disk.SameKinds d d₂) : Ready d₂ a folder o place where
  opens := ⟨hsame.isTree h.opens.isTree, hsame.keepsFolders.base h.opens.base_eq,
    hsame.keepsFolders.folder h.opens.node?_eq⟩
  writable := by
    obtain ⟨made, begun, outside, hmake, hwrite, hbase, houtside⟩ := h.writable
    have hname := isEntryName_tableName a folder
    obtain ⟨hanswer, hmade⟩ := Disk.follows_makeFirst _ d d₂ hsame
    rw [← Files.makeFolders, hmake] at hanswer hmade
    cases hmake₂ : (Files.makeFolders o.resultsFolder : StateM Disk _) d₂ with
    | mk answer made₂ =>
        rw [hmake₂] at hanswer hmade
        cases hanswer
        have hbase₂ := hmade.keepsFolders.base hbase
        obtain ⟨htakes, hfolder, hfree, _⟩ := (Disk.write_join_iff hname hbase).mp hwrite
        have hwrite₂ : made₂.write (tablePath a folder o) (table []) = .ok _ :=
          (Disk.write_join_iff hname hbase₂).mpr
            ⟨htakes, hmade.folder_iff.mpr hfolder, mt hmade.folder_iff.mp hfree, rfl⟩
        exact ⟨made₂, _, outside, rfl, hwrite₂, hbase₂, houtside⟩

/-! ## The run -/

/-- Making the folders of the table changes the disk and not the clock. -/
theorem makeTableFolder_yields {made : Disk} {path : String}
    (h : (Files.makeFolders folder : StateM Disk _) d = (.ok (), made)) :
    Yields (makeTableFolder path folder) ⟨d, t⟩ () ⟨made, t⟩ := by
  have hmake : (Files.makeFolders folder : StateM Machine _) ⟨d, t⟩ = (.ok (), ⟨made, t⟩) := by
    rw [Files.makeFolders, Machine.makeFirst_eq]
    exact Machine.onDisk_eq h
  exact (Yields.lift hmake).bind .pure

theorem writeTable_yields {e : Disk} {path text : String} (h : d.write path text = .ok e) :
    Yields (writeTable path text) ⟨d, t⟩ () ⟨e, t⟩ := by
  have hupdate : (Files.write path text : StateM Disk _) d = (.ok (), e) := by
    show Disk.update (fun d => d.write path text) d = _
    rw [Disk.update, h]
  exact (Yields.lift (Machine.onDisk_eq hupdate)).bind .pure

/-- A run on a machine that is ready comes to an end, with a row for every file that should be taken
and with these rows in the table on the disk. -/
theorem run_yields (h : Ready d a folder o place) (t : Nat → Nat) : ∃ results s,
    Yields (run a folder o) ⟨d, t⟩ results s ∧ Covers d a o.limit folder place results ∧
      s.disk.read (tablePath a folder o) = .ok (table results.rows).toUTF8 := by
  obtain ⟨made, begun, hmake, hbegin, hopens, hsame, hagain⟩ := h.exists_begun
  obtain ⟨sat, ⟨d₁, u⟩, hsat, hd₁, hcoversSat⟩ :=
    runFolder_yields (s := ⟨begun, t⟩) a .sat o.limit hopens
  have hd₁ : d₁ = begun := hd₁
  subst hd₁
  obtain ⟨unsat, ⟨d₂, v⟩, hunsat, hd₂, hcoversUnsat⟩ :=
    runFolder_yields (s := ⟨d₁, u⟩) a .unsat o.limit hopens
  have hd₂ : d₂ = d₁ := hd₂
  subst hd₂
  obtain ⟨after, hafter, hread⟩ := hagain (table (sat.append unsat).rows)
  refine ⟨sat.append unsat, ⟨after, v⟩, ?_, (hcoversSat.append hcoversUnsat).of_sameFiles hsame,
    hread⟩
  unfold run
  dsimp only
  refine (makeTableFolder_yields hmake).bind ?_
  refine (writeTable_yields hbegin).bind ?_
  refine hsat.bind (hunsat.tryCatch.bind ?_)
  exact (writeTable_yields hafter).bind .pure

/-- The results of a run account for the files of the benchmark folder. -/
structure Accounts (d : Disk) (a : Algorithm) (folder : String) (o : Options) (place : Place)
    (results : Results) (after : Disk) : Prop where
  /-- The table has a header and a line for every row. -/
  written : after.read (tablePath a folder o) = .ok
    ("Filename,Expected,Solver Result,Correct?,Time (s)\n" ++
      String.join (results.rows.map Row.line)).toUTF8
  /-- There is one row for every file that should be taken, in order. -/
  files : ∃ sat unsat,
    Selects (IsFormulaFile d (innerPath folder .sat) (innerPlace place .sat)) o.limit sat ∧
    Selects (IsFormulaFile d (innerPath folder .unsat) (innerPlace place .unsat)) o.limit unsat ∧
    results.rows.map (fun r => (r.expected, r.file)) = filesOf sat unsat
  /-- A row tells what becomes of the content of its file. -/
  tells : ∀ r ∈ results.rows, ∃ content,
    d.node? (r.source place) = some (.file content) ∧ r.Tells a content
  /-- All rows are counted. -/
  total : results.summary.files = results.rows.length
  /-- The error rows are counted. -/
  errors : results.summary.errors = results.rows.countP fun r => r.fields[2]? == some "Error"
  /-- The rows with the expected verdict are counted. -/
  correct : results.summary.correct = results.rows.countP fun r => r.fields[3]? == some "Yes"

theorem RowFor.tells {file : Verdict × String} {row : Row} (h : RowFor d a place file row) :
    ∃ content, d.node? (row.source place) = some (.file content) ∧ row.Tells a content := by
  rw [Row.source, h.file_eq]
  obtain ⟨content, hnode, hrow⟩ := h
  exact ⟨content, hnode, hrow.tells⟩

/-- The rows name the files that were taken, in order, each with the verdict of its folder. -/
theorem map_file_eq {files : List (Verdict × String)} {rows : List Row}
    (h : Forall₂ (RowFor d a place) files rows) :
    rows.map (fun r => (r.expected, r.file)) = files := by
  induction h with
  | nil => rfl
  | cons hrow _ ih => rw [List.map_cons, ih, hrow.file_eq]

/-- Every row tells of the file that it names and of no other one. -/
theorem tells_of_mem {files : List (Verdict × String)} {rows : List Row}
    (h : Forall₂ (RowFor d a place) files rows) : ∀ r ∈ rows, ∃ content,
      d.node? (r.source place) = some (.file content) ∧ r.Tells a content := by
  induction h with
  | nil => exact fun r hr => absurd hr List.not_mem_nil
  | cons hrow _ ih =>
      intro r hr
      rcases List.mem_cons.mp hr with rfl | hr
      · exact hrow.tells
      · exact ih r hr

theorem Covers.accounts (h : Covers d a o.limit folder place results) {after : Disk}
    (hwritten : after.read (tablePath a folder o) = .ok (table results.rows).toUTF8) :
    Accounts d a folder o place results after where
  written := by rw [hwritten, table_eq]
  files := by
    obtain ⟨sat, unsat, hsat, hunsat, hrows⟩ := h.rows
    exact ⟨sat, unsat, hsat, hunsat, map_file_eq hrows⟩
  tells := by
    obtain ⟨sat, unsat, _, _, hrows⟩ := h.rows
    exact tells_of_mem hrows
  total := by rw [h.counted]; rfl
  errors := by rw [h.counted]; exact (count_fields _).2
  correct := by rw [h.counted]; exact (count_fields _).1

/-- A run that can begin its table accounts for the files of the benchmark folder.  If the content
of one file is changed, the results change in the row of that file only. -/
theorem run_accounts (h : Ready d a folder o place) (t : Nat → Nat) : ∃ results s,
    Yields (run a folder o) ⟨d, t⟩ results s ∧
    Accounts d a folder o place results s.disk ∧
    ∀ changed content content' t', d.node? changed = some (.file content) →
      ∃ results' s',
        Yields (run a folder o) ⟨d.put changed (.file content'), t'⟩ results' s' ∧
        Accounts (d.put changed (.file content')) a folder o place results' s'.disk ∧
        DifferAt place changed results results' := by
  obtain ⟨results, s, hrun, hcovers, hwritten⟩ := run_yields h t
  refine ⟨results, s, hrun, hcovers.accounts hwritten, fun changed content content' t' hnode => ?_⟩
  cases changed with
  | nil => cases hnode
  | cons name q =>
      obtain ⟨results', s', hrun', hcovers', hwritten'⟩ :=
        run_yields (h.of_sameKinds (Disk.sameKinds_put content' hnode)) t'
      exact ⟨results', s', hrun', hcovers'.accounts hwritten',
        hcovers.differAt (agreeBut_put content' hnode) hcovers'⟩

/-- A folder with a formula of each verdict and a file that is none.  One formula cannot be read. -/
def benchDisk : Disk where
  current := []
  nodes := [(["bench"], .folder), (["sat", "bench"], .folder), (["unsat", "bench"], .folder),
    (["notes.txt", "sat", "bench"], .file "1 0\n".toUTF8),
    (["a.cnf", "sat", "bench"], .file "1 x\n".toUTF8),
    (["b.cnf", "unsat", "bench"], .file "1 0\n-1 0\n".toUTF8)]
  distinct := by
    simp only [List.map_cons, List.map_nil]
    decide

/-- The same folder with that formula mended. -/
def mendedDisk : Disk := benchDisk.put ["a.cnf", "sat", "bench"] (.file "1 -2\n".toUTF8)

theorem ready_benchDisk : Ready benchDisk .search "bench" ⟨"out", none⟩ ["bench"] where
  opens := by
    refine ⟨Disk.isTree_of_nodes fun m hm => ?_, rfl, rfl⟩
    simp only [benchDisk, List.mem_cons, List.not_mem_nil, or_false] at hm
    rcases hm with rfl | rfl | rfl | rfl | rfl | rfl
    all_goals exact ⟨_, _, rfl, ⟨by decide, by decide⟩, rfl⟩
  writable := ⟨_, _, ["out"], rfl, rfl, rfl, by decide⟩

/-- The totals of a run on the folder. -/
def benchTotals (d : Disk) : Option Summary :=
  ((run .search "bench" ⟨"out", none⟩ : ExceptT Error (StateM Machine) Results).run
    ⟨d, fun _ => 1500⟩).1.toOption.map Results.summary

/-- A formula that cannot be read has a row like the others, and no other row changes when it is
mended. -/
theorem run_benchDisk : ∃ results s results' s',
    Yields (run .search "bench" ⟨"out", none⟩) ⟨benchDisk, fun _ => 1500⟩ results s ∧
    Accounts benchDisk .search "bench" ⟨"out", none⟩ ["bench"] results s.disk ∧
    results.summary = ⟨2, 1, 1⟩ ∧
    Yields (run .search "bench" ⟨"out", none⟩) ⟨mendedDisk, fun _ => 1500⟩ results' s' ∧
    results'.summary = ⟨2, 2, 0⟩ ∧
    DifferAt ["bench"] ["a.cnf", "sat", "bench"] results results' := by
  obtain ⟨results, s, hrun, haccounts, hothers⟩ := run_accounts ready_benchDisk fun _ => 1500
  obtain ⟨results', s', hrun', _, hdiffer⟩ :=
    hothers ["a.cnf", "sat", "bench"] _ "1 -2\n".toUTF8 (fun _ => 1500) rfl
  have htotals : benchTotals benchDisk = some ⟨2, 1, 1⟩ := by decide +kernel
  have htotals' : benchTotals mendedDisk = some ⟨2, 2, 0⟩ := by decide +kernel
  rw [benchTotals, hrun] at htotals
  have hmended : Yields (run .search "bench" ⟨"out", none⟩) ⟨mendedDisk, fun _ => 1500⟩
      results' s' := hrun'
  rw [benchTotals, hmended] at htotals'
  exact ⟨results, s, results', s', hrun, haccounts, Option.some.inj htotals, hmended,
    Option.some.inj htotals', hdiffer⟩

end Benchmark

end Clausal
