import Clausal.Proofs.Benchmark.Rows

/-!
# One file, one row

The rows of a run are matched with the files that it takes, first those of the satisfiable formulas
and then those of the others (`Covers`).  A row looks at nothing but the content of its file.  So if
two disks have the same files in the benchmark folder, and all but one with the same content, their
rows are the same up to the row of that file, the times aside (`Covers.differAt`).
-/

namespace Clausal

namespace Benchmark

open List (Forall₂)

variable {a : Algorithm} {d d₂ : Disk} {place changed : Place} {folder : String}
  {limit : Option Nat} {files : List (Verdict × String)} {row other : Row} {rows others : List Row}
  {results results₂ : Results}

/-! ## The rows of a run -/

/-- The files of a run: those in the folder of the satisfiable formulas and those in the other. -/
def filesOf (sat unsat : List String) : List (Verdict × String) :=
  sat.map (Verdict.sat, ·) ++ unsat.map (Verdict.unsat, ·)

/-- The row is that of a file of the benchmark folder. -/
def RowFor (d : Disk) (a : Algorithm) (place : Place) (file : Verdict × String) (row : Row) :
    Prop :=
  RowAt d a file.1 (innerPlace place file.1) file.2 row

/-- A row names its file and the verdict that is expected of it. -/
theorem RowFor.file_eq {file : Verdict × String} (h : RowFor d a place file row) :
    (row.expected, row.file) = file := by
  obtain ⟨_, _, hrow⟩ := h
  rw [hrow.expected_eq, hrow.file_eq]

/-- The results are those of the files of a benchmark folder. -/
structure Covers (d : Disk) (a : Algorithm) (limit : Option Nat) (folder : String) (place : Place)
    (results : Results) : Prop where
  /-- There is one row for every file that should be taken, in order. -/
  rows : ∃ sat unsat,
    Selects (IsFormulaFile d (innerPath folder .sat) (innerPlace place .sat)) limit sat ∧
    Selects (IsFormulaFile d (innerPath folder .unsat) (innerPlace place .unsat)) limit unsat ∧
    Forall₂ (RowFor d a place) (filesOf sat unsat) results.rows
  /-- The totals are those of the rows. -/
  counted : results.Counted

/-- The results of the two folders, one behind the other, are those of the benchmark folder. -/
theorem CoversFolder.append {sat unsat : Results}
    (hsat : CoversFolder d a limit folder place .sat sat)
    (hunsat : CoversFolder d a limit folder place .unsat unsat) :
    Covers d a limit folder place (sat.append unsat) := by
  obtain ⟨names, hselects, hrows⟩ := hsat.rows
  obtain ⟨names', hselects', hrows'⟩ := hunsat.rows
  refine ⟨⟨names, names', hselects, hselects', ?_⟩, hsat.counted.append hunsat.counted⟩
  have hleft : Forall₂ (RowFor d a place) (names.map (Verdict.sat, ·)) sat.rows :=
    List.forall₂_map_left_iff.mpr hrows
  have hright : Forall₂ (RowFor d a place) (names'.map (Verdict.unsat, ·)) unsat.rows :=
    List.forall₂_map_left_iff.mpr hrows'
  exact List.rel_append hleft hright

/-- No file is taken twice, since the two folders have different names. -/
theorem nodup_filesOf {sat unsat : List String} (hsat : sat.Nodup) (hunsat : unsat.Nodup) :
    (filesOf sat unsat).Nodup := by
  have hinj : ∀ v : Verdict, Function.Injective (fun name : String => (v, name)) :=
    fun _ _ _ h => congrArg Prod.snd h
  refine List.nodup_append.mpr ⟨hsat.map (hinj _), hunsat.map (hinj _), ?_⟩
  intro file hfile file' hfile' he
  obtain ⟨_, _, rfl⟩ := List.mem_map.mp hfile
  obtain ⟨_, _, rfl⟩ := List.mem_map.mp hfile'
  cases he

/-! ## The same files -/

/-- Where a file of a run is, if the benchmark folder is at the place. -/
def filePlace (place : Place) (file : Verdict × String) : Place :=
  file.2 :: innerPlace place file.1

/-- Where the file of a row is, if the benchmark folder is at the place. -/
def Row.source (r : Row) (place : Place) : Place := filePlace place (r.expected, r.file)

/-- The files of a benchmark folder are inside of it. -/
theorem filePlace_suffix (place : Place) (file : Verdict × String) :
    place <:+ filePlace place file :=
  (List.suffix_cons _ _).trans (List.suffix_cons _ _)

/-- The two disks have the same files below a place. -/
def SameFiles (place : Place) (d d₂ : Disk) : Prop := ∀ q, place <:+ q → ∀ content,
  d₂.node? q = some (.file content) ↔ d.node? q = some (.file content)

/-- Results depend on the files in the benchmark folder only. -/
theorem Covers.of_sameFiles (hsame : SameFiles place d d₂)
    (h : Covers d₂ a limit folder place results) : Covers d a limit folder place results := by
  have hfile : ∀ (e : Verdict) name content,
      d₂.node? (name :: innerPlace place e) = some (.file content) ↔
        d.node? (name :: innerPlace place e) = some (.file content) :=
    fun e name content => hsame _ (filePlace_suffix place (e, name)) content
  have hpred : ∀ e : Verdict, IsFormulaFile d₂ (innerPath folder e) (innerPlace place e) =
      IsFormulaFile d (innerPath folder e) (innerPlace place e) :=
    fun e => isFormulaFile_congr fun name => exists_congr (hfile e name)
  obtain ⟨sat, unsat, hsat, hunsat, hrows⟩ := h.rows
  rw [hpred] at hsat hunsat
  refine ⟨⟨sat, unsat, hsat, hunsat, hrows.imp fun file row hrow => ?_⟩, h.counted⟩
  obtain ⟨content, hnode, hrow⟩ := hrow
  exact ⟨content, (hfile _ _ _).mp hnode, hrow⟩

/-! ## The content of one file -/

/-- The disks are the same, but for the content of one file. -/
structure AgreeBut (changed : Place) (d d₂ : Disk) : Prop where
  /-- At any other place there is the same. -/
  node?_eq : ∀ q, q ≠ changed → d₂.node? q = d.node? q
  /-- At this place both disks have a file. -/
  isFile : ∃ content content₂, d.node? changed = some (.file content) ∧
    d₂.node? changed = some (.file content₂)

/-- Other content at the place of a file makes a disk that agrees with the first one but there. -/
theorem agreeBut_put {name : String} {q : Place} {content : ByteArray} (content' : ByteArray)
    (h : d.node? (name :: q) = some (.file content)) :
    AgreeBut (name :: q) d (d.put (name :: q) (.file content')) where
  node?_eq := fun _ hne => Disk.node?_put_of_ne hne
  isFile := ⟨content, content', h, Disk.node?_put_self name q⟩

/-- The results are the same up to the row of the one file, the times aside, and the totals differ
by what this row contributes. -/
def DifferAt (place changed : Place) (results results₂ : Results) : Prop :=
  (results₂.rows.map Row.untimed = results.rows.map Row.untimed ∧
    results₂.summary = results.summary) ∨
  ∃ front row back front₂ row₂ back₂,
    results.rows = front ++ row :: back ∧ results₂.rows = front₂ ++ row₂ :: back₂ ∧
    front₂.map Row.untimed = front.map Row.untimed ∧
    back₂.map Row.untimed = back.map Row.untimed ∧
    row.source place = changed ∧ row₂.source place = changed ∧
    results₂.summary.add (Summary.ofRows [row]) = results.summary.add (Summary.ofRows [row₂])

theorem folderName_injective : Function.Injective folderName := by
  intro v w h
  cases v with
  | sat =>
      cases w with
      | sat => rfl
      | unsat => exact absurd h (by decide)
  | unsat =>
      cases w with
      | sat => exact absurd h (by decide)
      | unsat => rfl

/-- Different files are at different places. -/
theorem filePlace_injective (place : Place) : Function.Injective (filePlace place) := by
  rintro ⟨v, name⟩ ⟨w, other⟩ h
  simp only [filePlace, innerPlace, List.cons.injEq] at h
  obtain ⟨rfl, hfolder, _⟩ := h
  rw [folderName_injective hfolder]

/-- The row of a file whose content is the same is the same, the time aside. -/
theorem RowFor.untimed_eq {file : Verdict × String} (hagree : AgreeBut changed d d₂)
    (hne : filePlace place file ≠ changed) (h : RowFor d a place file row)
    (h₂ : RowFor d₂ a place file other) : other.untimed = row.untimed := by
  obtain ⟨content, hnode, hrow⟩ := h
  obtain ⟨content₂, hnode₂, hrow₂⟩ := h₂
  have hsame := hagree.node?_eq _ hne
  rw [filePlace, hnode, hnode₂] at hsame
  cases hsame
  exact hrow₂.untimed_eq hrow

/-- So are the rows of several files, if the changed one is not among them. -/
theorem map_untimed_eq (hagree : AgreeBut changed d d₂)
    (h : Forall₂ (RowFor d a place) files rows) (h₂ : Forall₂ (RowFor d₂ a place) files others)
    (hne : ∀ file ∈ files, filePlace place file ≠ changed) :
    others.map Row.untimed = rows.map Row.untimed := by
  induction h generalizing others with
  | nil =>
      cases h₂
      rfl
  | cons hrow hrows ih =>
      cases h₂ with
      | cons hrow₂ hrows₂ =>
          obtain ⟨hfile, hfiles⟩ := List.forall_mem_cons.mp hne
          rw [List.map_cons, List.map_cons, ih hrows₂ hfiles, hrow.untimed_eq hagree hfile hrow₂]

/-- The totals do not look at the times. -/
theorem ofRows_map_untimed (rows : List Row) :
    Summary.ofRows (rows.map Row.untimed) = Summary.ofRows rows := by
  have hcorrect : ∀ r : Row, r.untimed.isCorrect = r.isCorrect := fun r => by
    cases r with
    | mk file expected result => cases result <;> rfl
  have herror : ∀ r : Row, r.untimed.isError = r.isError := fun r => by
    cases r with
    | mk file expected result => cases result <;> rfl
  simp only [Summary.ofRows, List.length_map, List.countP_map, Function.comp_def, hcorrect, herror]

theorem ofRows_eq (h : others.map Row.untimed = rows.map Row.untimed) :
    Summary.ofRows others = Summary.ofRows rows := by
  rw [← ofRows_map_untimed others, h, ofRows_map_untimed]

/-- What is matched with a list that has an element is split where the list is. -/
theorem exists_of_forall₂_append_cons {α β : Type} {R : α → β → Prop} {x : α} {front back : List α}
    {ys : List β} (h : Forall₂ R (front ++ x :: back) ys) : ∃ front' y back',
      ys = front' ++ y :: back' ∧ Forall₂ R front front' ∧ R x y ∧ Forall₂ R back back' := by
  induction front generalizing ys with
  | nil =>
      cases h with
      | cons hxy hback => exact ⟨[], _, _, rfl, .nil, hxy, hback⟩
  | cons z front ih =>
      cases h with
      | cons hz hrest =>
          obtain ⟨front', y, back', rfl, hfront, hxy, hback⟩ := ih hrest
          exact ⟨_ :: front', y, back', rfl, .cons hz hfront, hxy, hback⟩

/-- Whether a name is that of a file with a formula does not depend on the content of the file. -/
theorem AgreeBut.isFormulaFile_eq (hagree : AgreeBut changed d d₂) (inner : String)
    (place : Place) : IsFormulaFile d₂ inner place = IsFormulaFile d inner place := by
  refine isFormulaFile_congr fun name => ?_
  by_cases he : name :: place = changed
  · obtain ⟨content, content₂, hnode, hnode₂⟩ := hagree.isFile
    rw [he]
    exact iff_of_true ⟨_, hnode₂⟩ ⟨_, hnode⟩
  · rw [hagree.node?_eq _ he]

/-- Two runs on disks that agree but for one file differ in its row, and in what it adds to the
totals.  If it has no row, they do not differ. -/
theorem Covers.differAt (hagree : AgreeBut changed d d₂)
    (h : Covers d a limit folder place results) (h₂ : Covers d₂ a limit folder place results₂) :
    DifferAt place changed results results₂ := by
  obtain ⟨sat, unsat, hsat, hunsat, hrows⟩ := h.rows
  obtain ⟨sat₂, unsat₂, hsat₂, hunsat₂, hrows₂⟩ := h₂.rows
  rw [hagree.isFormulaFile_eq] at hsat₂ hunsat₂
  rw [hsat₂.eq hsat, hunsat₂.eq hunsat] at hrows₂
  have hnodup := nodup_filesOf hsat.nodup hunsat.nodup
  rw [DifferAt, h.counted, h₂.counted]
  by_cases hfile : ∃ file ∈ filesOf sat unsat, filePlace place file = changed
  · obtain ⟨file, hmem, rfl⟩ := hfile
    obtain ⟨front, back, hfiles⟩ := List.append_of_mem hmem
    rw [hfiles] at hrows hrows₂ hnodup
    obtain ⟨_, hback, hdisjoint⟩ := List.nodup_append.mp hnodup
    have hnotFront : ∀ other ∈ front, filePlace place other ≠ filePlace place file :=
      fun other hmem he =>
        hdisjoint other hmem file List.mem_cons_self (filePlace_injective place he)
    have hnotBack : ∀ other ∈ back, filePlace place other ≠ filePlace place file :=
      fun other hmem he =>
        (List.nodup_cons.mp hback).1 (filePlace_injective place he ▸ hmem)
    obtain ⟨front₁, row₁, back₁, hsplit, hfront₁, hrow₁, hback₁⟩ :=
      exists_of_forall₂_append_cons hrows
    obtain ⟨front₂, row₂, back₂, hsplit₂, hfront₂, hrow₂, hback₂⟩ :=
      exists_of_forall₂_append_cons hrows₂
    have hfronts := map_untimed_eq hagree hfront₁ hfront₂ hnotFront
    have hbacks := map_untimed_eq hagree hback₁ hback₂ hnotBack
    refine .inr ⟨front₁, row₁, back₁, front₂, row₂, back₂, hsplit, hsplit₂, hfronts, hbacks,
      congrArg _ hrow₁.file_eq, congrArg _ hrow₂.file_eq, ?_⟩
    have htotals : ∀ (front back : List Row) (row : Row), Summary.ofRows (front ++ row :: back) =
        ((Summary.ofRows front).add (Summary.ofRows [row])).add (Summary.ofRows back) := by
      intro front back row
      rw [List.append_cons, Summary.ofRows_append, Summary.ofRows_append]
    rw [hsplit, hsplit₂, htotals, htotals, ofRows_eq hfronts, ofRows_eq hbacks]
    simp only [Summary.add, Summary.mk.injEq]
    omega
  · have hrows := map_untimed_eq hagree hrows hrows₂ fun file hmem he => hfile ⟨file, hmem, he⟩
    exact .inl ⟨hrows, ofRows_eq hrows⟩

end Benchmark

end Clausal
