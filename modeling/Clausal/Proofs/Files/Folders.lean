import Clausal.Proofs.Files.Changes
import Mathlib.Data.List.Nodup

/-!
# What is in a folder

A path that leads to a folder of a tree, with a name behind it, leads to what the disk has at the
place of that name (`Disk.Opens.find_join_iff`).  The names that the folder is listed with are those
that something is at, each of them once.
-/

namespace Clausal

/-! ## Folders that a path leads to -/

namespace Disk

variable {d : Disk} {place q : Place} {folder name path : String} {n : Node}

/-- The path leads to a folder of the disk, which is a tree. -/
structure Opens (d : Disk) (folder : String) (place : Place) : Prop where
  /-- The disk is a tree. -/
  isTree : d.IsTree
  /-- The paths into the folder start at its place. -/
  base_eq : d.base folder = .ok place
  /-- There is a folder at the place. -/
  node?_eq : d.node? place = some .folder

/-- A path to an entry of an open folder is found just if it is not too long and the tree has the
entry. -/
theorem Opens.find_join_iff (h : d.Opens folder place) (hname : IsEntryName name) :
    d.find (Path.join folder name) = .ok (q, n) ↔
      Takes folder name ∧ name :: place = q ∧ d.node? q = some n := by
  rw [Disk.find_join_iff hname h.base_eq]
  simp only [h.node?_eq, true_and]

/-- An entry of an open folder is a folder by its path just if the path is not too long and the
tree has a folder there. -/
theorem Opens.isFolder_join_iff (h : d.Opens folder place) (hname : IsEntryName name) :
    d.isFolder (Path.join folder name) = true ↔
      Takes folder name ∧ d.node? (name :: place) = some .folder := by
  rw [isFolder_iff]
  simp only [h.find_join_iff hname]
  constructor
  · rintro ⟨_, htakes, rfl, hnode⟩
    exact ⟨htakes, hnode⟩
  · rintro ⟨htakes, hnode⟩
    exact ⟨_, htakes, rfl, hnode⟩

theorem Opens.isFile_join_iff (h : d.Opens folder place) (hname : IsEntryName name) :
    d.isFile (Path.join folder name) = true ↔
      Takes folder name ∧ ∃ content, d.node? (name :: place) = some (.file content) := by
  rw [isFile_iff]
  simp only [h.find_join_iff hname]
  constructor
  · rintro ⟨_, content, htakes, rfl, hnode⟩
    exact ⟨htakes, content, hnode⟩
  · rintro ⟨htakes, content, hnode⟩
    exact ⟨_, content, htakes, rfl, hnode⟩

/-- A file of an open folder is read by its path. -/
theorem Opens.read_join {content : ByteArray} (h : d.Opens folder place)
    (htakes : Takes folder name) (hnode : d.node? (name :: place) = some (.file content)) :
    d.read (Path.join folder name) = .ok content :=
  read_of_find ((h.find_join_iff (h.isTree.name hnode)).mpr ⟨htakes, rfl, hnode⟩)

theorem Opens.join (h : d.Opens folder place) (htakes : Takes folder name)
    (hnode : d.node? (name :: place) = some .folder) :
    d.Opens (Path.join folder name) (name :: place) where
  isTree := h.isTree
  base_eq := by
    have hname := h.isTree.name hnode
    have hfind := (h.find_join_iff hname).mpr ⟨htakes, rfl, hnode⟩
    exact base_of_locate (find_eq_ok_iff.mp hfind).1
  node?_eq := hnode

/-! ## Listing a folder -/

/-- The names in a folder, in the order of the disk. -/
def entries (d : Disk) (place : Place) : List String :=
  d.nodes.filterMap fun n => nameIn? place n.1

theorem list_of_find (h : d.find path = .ok (place, .folder)) :
    d.list path = .ok (d.entries place) := by
  rw [list, h]
  rfl

theorem nameIn?_eq_some_iff : nameIn? place q = some name ↔ q = name :: place := by
  unfold nameIn?
  split
  · next first outer =>
      split
      · next h => simp [eq_of_beq h]
      · next h =>
          refine iff_of_false nofun fun he => h ?_
          cases he
          exact beq_self_eq_true _
  · exact iff_of_false nofun nofun

/-- The entries of a folder are the names that the tree has right below it. -/
theorem mem_entries_iff : name ∈ d.entries place ↔ ∃ n, d.node? (name :: place) = some n := by
  rw [← Option.isSome_iff_exists, ← exists_mem_nodes_iff (List.cons_ne_nil _ _), entries,
    List.mem_filterMap]
  simp only [nameIn?_eq_some_iff]

/-- No name comes twice. -/
theorem nodup_entries (d : Disk) (place : Place) : (d.entries place).Nodup := by
  have hmap : d.entries place = (d.nodes.map Prod.fst).filterMap (nameIn? place) := by
    rw [List.filterMap_map]
    rfl
  rw [hmap]
  refine d.distinct.filterMap fun p q name hp hq => ?_
  rw [nameIn?_eq_some_iff.mp hp, nameIn?_eq_some_iff.mp hq]

end Disk

end Clausal
