import Clausal.Proofs.Files.Changes

/-!
# Folders do not look into files

Two disks that differ in the content of files only (`Disk.SameKinds`) are walked alike.  Making
folders on both answers the same and leaves two disks that again differ in the content of files only
(`Disk.follows_makeFirst`).
-/

namespace Clausal

namespace Disk

variable {d e : Disk} {place q : Place} {name path folder : String} {n : Node}

/-- The disks have the same things at the same places, but for the content of files. -/
structure SameKinds (d e : Disk) : Prop where
  /-- The working folder is the same. -/
  current_eq : e.current = d.current
  /-- Where the disks differ, both have a file. -/
  node?_cases : ∀ q, e.node? q = d.node? q ∨
    ∃ content content', d.node? q = some (.file content) ∧ e.node? q = some (.file content')

/-- Changing the content of a file leaves the disk as it is otherwise. -/
theorem sameKinds_put {content : ByteArray} (content' : ByteArray)
    (h : d.node? (name :: q) = some (.file content)) :
    SameKinds d (d.put (name :: q) (.file content')) where
  current_eq := rfl
  node?_cases := by
    intro r
    by_cases hr : r = name :: q
    · subst hr
      exact .inr ⟨content, content', h, node?_put_self name q⟩
    · exact .inl (node?_put_of_ne hr)

namespace SameKinds

/-- Both disks have the same folders. -/
theorem folder_iff (h : SameKinds d e) :
    e.node? q = some .folder ↔ d.node? q = some .folder := by
  rcases h.node?_cases q with he | ⟨content, content', hd, he⟩
  · rw [he]
  · rw [hd, he]
    exact iff_of_false nofun nofun

theorem isNone_eq (h : SameKinds d e) : (e.node? q).isNone = (d.node? q).isNone := by
  rcases h.node?_cases q with he | ⟨content, content', hd, he⟩
  · rw [he]
  · rw [hd, he]
    rfl

/-- So a walk through one is a walk through the other. -/
theorem keepsFolders (h : SameKinds d e) : KeepsFolders d e := ⟨h.current_eq, h.folder_iff.mpr⟩

/-- If one is a tree, so is the other. -/
theorem isTree (h : SameKinds d e) (hd : d.IsTree) : e.IsTree := by
  have hnode : ∀ {q n}, e.node? q = some n → ∃ m, d.node? q = some m := by
    intro q n hn
    rcases h.node?_cases q with he | ⟨content, _, hd, _⟩
    · exact ⟨n, he ▸ hn⟩
    · exact ⟨_, hd⟩
  constructor
  · intro name q n hn
    obtain ⟨m, hm⟩ := hnode hn
    exact hd.name hm
  · intro name q n hn
    obtain ⟨m, hm⟩ := hnode hn
    exact h.folder_iff.mpr (hd.folder hm)

/-- Putting the same thing at the same place keeps them alike. -/
theorem put (h : SameKinds d e) (name : String) (q : Place) (n : Node) :
    SameKinds (d.put (name :: q) n) (e.put (name :: q) n) where
  current_eq := h.current_eq
  node?_cases := by
    intro r
    by_cases hr : r = name :: q
    · subst hr
      rw [node?_put_self, node?_put_self]
      exact .inl rfl
    · rw [node?_put_of_ne hr, node?_put_of_ne hr]
      exact h.node?_cases r

/-! ## Walks -/

theorem checkPiece_eq (h : SameKinds d e) : e.checkPiece = d.checkPiece := by
  funext place piece
  have hfolder : e.checkFolder place = d.checkFolder place := by
    rw [checkFolder, checkFolder]
    rcases h.node?_cases place with he | ⟨content, content', hd, he⟩
    · rw [he]
    · rw [hd, he]
  rw [checkPiece, checkPiece, hfolder]

/-- A step through one disk is a step through the other, and refused for the same reason. -/
theorem follow_eq (h : SameKinds d e) : e.follow = d.follow := by
  funext place piece
  rw [follow, follow, h.checkPiece_eq]

theorem origin_eq (h : SameKinds d e) (path : String) : e.origin path = d.origin path := by
  rw [origin, origin, h.current_eq]

/-- A path leads to the same place. -/
theorem locate_eq (h : SameKinds d e) (path : String) : e.locate path = d.locate path := by
  rw [locate, locate, h.follow_eq, h.origin_eq]

/-- So does a path to something that may not be there. -/
theorem locateLast_eq (h : SameKinds d e) (path : String) :
    e.locateLast path = d.locateLast path := by
  rw [locateLast, locateLast, h.checkPiece_eq, h.follow_eq, h.origin_eq]

/-- The same paths lead to folders. -/
theorem isFolder_eq (h : SameKinds d e) (path : String) : e.isFolder path = d.isFolder path := by
  rw [Bool.eq_iff_iff, isFolder_iff, isFolder_iff]
  simp only [find_eq_ok_iff, h.locate_eq, h.folder_iff]

end SameKinds

/-! ## Making folders -/

/-- A folder is made on both or refused on both, for the same reason. -/
theorem SameKinds.makeFolder (h : SameKinds d e) (path : String) :
    (∃ f, d.makeFolder path = .error f ∧ e.makeFolder path = .error f) ∨
      ∃ d' e', d.makeFolder path = .ok d' ∧ e.makeFolder path = .ok e' ∧ SameKinds d' e' := by
  rw [Disk.makeFolder, Disk.makeFolder, h.locateLast_eq]
  cases d.locateLast path with
  | error f => exact .inl ⟨f, rfl, rfl⟩
  | ok found =>
      obtain ⟨q, name⟩ := found
      by_cases hfree : (isName name && (d.node? (name :: q)).isNone) = true
      · refine .inr ⟨_, _, if_pos hfree, ?_, h.put name q .folder⟩
        exact if_pos (h.isNone_eq ▸ hfree)
      · exact .inl ⟨_, if_neg hfree, if_neg (h.isNone_eq ▸ hfree)⟩

/-- On disks that differ in the content of files only, the operation answers the same and leaves
such disks. -/
def Follows {α : Type} (act : StateM Disk α) : Prop := ∀ d e, SameKinds d e →
  (act e).1 = (act d).1 ∧ SameKinds (act d).2 (act e).2

theorem Follows.pure {α : Type} (a : α) : Follows (Pure.pure a) := fun _ _ h => ⟨rfl, h⟩

/-- Two operations that do not look at contents do not do so one after the other. -/
theorem Follows.bind {α β : Type} {act : StateM Disk α} {next : α → StateM Disk β}
    (h : Follows act) (hnext : ∀ a, Follows (next a)) : Follows (act >>= next) := by
  intro d e hde
  obtain ⟨hanswer, hdisk⟩ := h d e hde
  show (next (act e).1 (act e).2).1 = (next (act d).1 (act d).2).1 ∧
    SameKinds (next (act d).1 (act d).2).2 (next (act e).1 (act e).2).2
  rw [hanswer]
  exact hnext _ _ _ hdisk

/-- Making a folder does not look at contents. -/
theorem follows_makeFolder (path : String) : Follows (Files.makeFolder path) := by
  intro d e h
  have hupdate : ∀ d : Disk, (Files.makeFolder path : StateM Disk _) d =
      update (fun d => d.makeFolder path) d := fun _ => rfl
  rw [hupdate, hupdate, update, update]
  rcases h.makeFolder path with ⟨f, hd, he⟩ | ⟨d', e', hd, he, h'⟩
  · rw [hd, he]
    exact ⟨rfl, h⟩
  · rw [hd, he]
    exact ⟨rfl, h'⟩

theorem follows_isFolder (path : String) : Follows (Files.isFolder path) := fun _ _ h =>
  ⟨h.isFolder_eq path, h⟩

/-- Neither does making the folders of a path. -/
theorem follows_makeFirst (paths : List String) : Follows (Files.makeFirst paths) :=
  makeFirst_induct (P := Follows) .pure .bind follows_makeFolder follows_isFolder paths

end Disk

end Clausal
