import Clausal.Benchmark
import Clausal.Files.Machine
import Clausal.Proofs.ByteOrder
import Clausal.Proofs.Files.Folders

/-!
# Which files a run takes

A run takes from a folder the files with the right extension, in the order of the bytes of their
names, as many as the limit allows (`Selects`).  In which order the system lists the folder does
not matter: there is only one such list (`Selects.eq`).

A file counts if the system takes its path, for otherwise the run does not see it (`passes_iff`).
-/

namespace Clausal

namespace Benchmark

open Machine (Yields)

variable {d : Disk} {s : Machine} {place : Place} {folder inner name : String}
  {limit : Option Nat} {names : List String} {P : String → Prop}

/-! ## In order, up to the limit -/

/-- The list has the texts with a property in the order of their bytes, cut to the limit. -/
def Selects (P : String → Prop) (limit : Option Nat) (names : List String) : Prop :=
  ∃ all : List String, (∀ name, name ∈ all ↔ P name) ∧
    all.Pairwise (fun a b => Text.bytes a < Text.bytes b) ∧ names = cut limit all

/-- Sorting the names and cutting the list selects: texts are in the order of their bytes. -/
theorem selects_mergeSort (hnodup : names.Nodup) (hmem : ∀ name, name ∈ names ↔ P name) :
    Selects P limit (cut limit (names.mergeSort fun a b => decide (a ≤ b))) := by
  refine ⟨_, fun name => (List.mergeSort_perm names _).mem_iff.trans (hmem name), ?_, rfl⟩
  have hsorted : (names.mergeSort fun a b => decide (a ≤ b)).Pairwise (fun a b => a ≤ b) := by
    have hle : (names.mergeSort fun a b => decide (a ≤ b)).Pairwise fun a b => decide (a ≤ b) :=
      List.pairwise_mergeSort (by simpa using fun a b c => String.le_trans)
        (by simpa using String.le_total) names
    exact hle.imp of_decide_eq_true
  have hdistinct : (names.mergeSort fun a b => decide (a ≤ b)).Nodup :=
    List.nodup_mergeSort.mpr hnodup
  refine (hsorted.and hdistinct).imp fun ⟨hle, hne⟩ => Text.bytes_lt_bytes ?_
  exact String.not_le.mp fun hge => hne (String.le_antisymm hle hge)

theorem nodup_of_ascending (h : names.Pairwise fun a b => Text.bytes a < Text.bytes b) :
    names.Nodup := by
  refine h.imp fun hlt he => ?_
  subst he
  exact List.lt_irrefl _ hlt

/-- There is only one such list. -/
theorem Selects.eq {other : List String} (h : Selects P limit names)
    (h' : Selects P limit other) : names = other := by
  obtain ⟨as, hmem, hsorted, rfl⟩ := h
  obtain ⟨bs, hmem', hsorted', rfl⟩ := h'
  have hperm : as.Perm bs :=
    (List.perm_ext_iff_of_nodup (nodup_of_ascending hsorted) (nodup_of_ascending hsorted')).mpr
      fun name => (hmem name).trans (hmem' name).symm
  rw [hperm.eq_of_pairwise (fun a b _ _ hab hba => absurd hba (List.lt_asymm hab)) hsorted hsorted']

theorem Selects.of_mem (h : Selects P limit names) (hname : name ∈ names) : P name := by
  obtain ⟨all, hmem, _, rfl⟩ := h
  refine (hmem name).mp ?_
  unfold cut at hname
  split at hname
  · exact hname
  · exact List.mem_of_mem_take hname

theorem Selects.nodup (h : Selects P limit names) : names.Nodup := by
  obtain ⟨all, _, hsorted, rfl⟩ := h
  have hall : all.Nodup := nodup_of_ascending hsorted
  unfold cut
  split
  · exact hall
  · exact hall.sublist (List.take_sublist _ _)

theorem selects_nil (h : ∀ name, ¬ P name) : Selects P limit [] := by
  refine ⟨[], fun name => iff_of_false List.not_mem_nil (h name), .nil, ?_⟩
  cases limit with
  | none => rfl
  | some n => exact List.take_nil.symm

/-! ## The formulas of a folder -/

/-- The name is that of a file with a formula, in the folder of the path at the place. -/
structure IsFormulaFile (d : Disk) (inner : String) (place : Place) (name : String) : Prop where
  /-- It has the extension. -/
  extension : Path.hasExtension "cnf" name = true
  /-- It leads to a file. -/
  isFile : ∃ content, d.node? (name :: place) = some (.file content)
  /-- The system takes its path. -/
  takes : Disk.Takes inner name

/-- Which files there are decides, and not what is in them. -/
theorem isFormulaFile_congr {d₂ : Disk}
    (h : ∀ name, (∃ content, d₂.node? (name :: place) = some (.file content)) ↔
      ∃ content, d.node? (name :: place) = some (.file content)) :
    IsFormulaFile d₂ inner place = IsFormulaFile d inner place := by
  funext name
  exact propext ⟨fun hf => ⟨hf.extension, (h name).mp hf.isFile, hf.takes⟩,
    fun hf => ⟨hf.extension, (h name).mpr hf.isFile, hf.takes⟩⟩

/-- What makes a name one of a file with a formula, as the run tests it. -/
def passes (d : Disk) (inner name : String) : Bool :=
  Path.hasExtension "cnf" name && d.isFile (Path.join inner name)

theorem isFormulaFile_eq (inner name : String) (s : Machine) :
    (isFormulaFile inner name : StateM Machine _) s = (passes s.disk inner name, s) := by
  rw [isFormulaFile, passes]
  cases Path.hasExtension "cnf" name with
  | false => rfl
  | true => rfl

/-- Looking for formula files reads the machine and leaves it as it was. -/
theorem keepFormulaFiles_eq (inner : String) (names : List String) (s : Machine) :
    (keepFormulaFiles inner names : StateM Machine _) s =
      (names.filter (passes s.disk inner), s) := by
  have hkeep : ∀ names kept : List String,
      (List.filterAuxM (isFormulaFile inner) names kept : StateM Machine _) s =
        ((names.filter (passes s.disk inner)).reverse ++ kept, s) := by
    intro names
    induction names with
    | nil => exact fun _ => rfl
    | cons name names ih =>
        intro kept
        refine (Machine.bind_eq (isFormulaFile_eq inner name s)).trans ?_
        rw [ih]
        cases hp : passes s.disk inner name with
        | false => rw [List.filter_cons_of_neg (by rw [hp]; exact Bool.false_ne_true)]; rfl
        | true =>
            rw [List.filter_cons_of_pos hp, List.reverse_cons, List.append_assoc]
            rfl
  refine (Machine.bind_eq (hkeep names [])).trans ?_
  rw [List.append_nil, List.reverse_reverse]
  rfl

/-- The test that the program makes of a name holds just of the names of formula files. -/
theorem passes_iff (h : d.Opens inner place) (hname : name ∈ d.entries place) :
    passes d inner name = true ↔ IsFormulaFile d inner place name := by
  obtain ⟨n, hn⟩ := Disk.mem_entries_iff.mp hname
  rw [passes, Bool.and_eq_true, h.isFile_join_iff (h.isTree.name hn)]
  exact ⟨fun ⟨hext, htakes, hfile⟩ => ⟨hext, hfile, htakes⟩,
    fun ⟨hext, hfile, htakes⟩ => ⟨hext, htakes, hfile⟩⟩

/-- The run takes the files of a folder that it should take. -/
theorem formulaFiles_yields (limit : Option Nat) (h : s.disk.Opens inner place)
    (hfind : s.disk.find inner = .ok (place, .folder)) : ∃ names,
      Yields (formulaFiles inner limit) s names s ∧
        Selects (IsFormulaFile s.disk inner place) limit names := by
  refine ⟨cut limit (((s.disk.entries place).filter (passes s.disk inner)).mergeSort
    fun a b => decide (a ≤ b)), ?_, ?_⟩
  · have hlist : (Files.list inner : StateM Machine _) s = (.ok (s.disk.entries place), s) := by
      rw [← Disk.list_of_find hfind]
      rfl
    refine (Yields.lift hlist).bind ?_
    exact (Yields.lift (keepFormulaFiles_eq inner _ s)).bind .pure
  · refine selects_mergeSort ((Disk.nodup_entries _ _).filter _) fun name => ?_
    rw [List.mem_filter]
    constructor
    · intro ⟨hname, hpass⟩
      exact (passes_iff h hname).mp hpass
    · intro hfile
      obtain ⟨content, hnode⟩ := hfile.isFile
      have hname := Disk.mem_entries_iff.mpr ⟨_, hnode⟩
      exact ⟨hname, (passes_iff h hname).mpr hfile⟩

end Benchmark

end Clausal
