import Clausal.Files.Disk
import Clausal.Proofs.Files.Path
import Clausal.Proofs.Numeral

/-!
# Where a path leads

A walk along a path that succeeds is described by what it asks of the disk: every place on the way
is a folder, and no piece is too long.  The path of a name in a folder leads through the folder to
the place that has this name on top, and what is found there is what the disk has at that place
(`Disk.find_join_iff`).
-/

namespace Clausal

namespace Disk

variable {d : Disk} {place q : Place} {name path folder : String} {n : Node}

/-! ## What is at a place -/

theorem node?_of_ne_nil (h : place ≠ []) :
    d.node? place = (d.nodes.find? fun n => n.1 == place).map Prod.snd := if_neg h

/-- There is an entry for a place below the root just if something is there. -/
theorem exists_mem_nodes_iff (h : place ≠ []) :
    (∃ m ∈ d.nodes, m.1 = place) ↔ (d.node? place).isSome = true := by
  rw [node?_of_ne_nil h, Option.isSome_map, List.find?_isSome]
  simp

/-! ## Walks -/

theorem checkFolder_eq_ok_iff : d.checkFolder place = .ok () ↔ d.node? place = some .folder := by
  unfold checkFolder
  split
  · next h => simp [h]
  · next h => simp [h]
  · next h => simp [h]

variable {piece : String} {start : Place} {ps : List String}

/-- A piece is looked up in folders only, and only if it is short enough for a name. -/
theorem checkPiece_eq_ok_iff : d.checkPiece place piece = .ok () ↔
    d.node? place = some .folder ∧ Path.isPieceTooLong piece = false := by
  rw [checkPiece, bind_eq_ok_iff]
  constructor
  · intro ⟨⟨⟩, hfolder, hpiece⟩
    refine ⟨checkFolder_eq_ok_iff.mp hfolder, ?_⟩
    split at hpiece
    · cases hpiece
    · next h => simpa using h
  · intro ⟨hfolder, hpiece⟩
    exact ⟨(), checkFolder_eq_ok_iff.mpr hfolder, by rw [hpiece]; rfl⟩

/-- Where a piece leads that can be followed. -/
def next (place : Place) (piece : String) : Place :=
  if piece == "" || piece == "." then place
  else if piece == ".." then place.tail
  else piece :: place

/-- A piece is followed just if it may be, and it leads to the next place. -/
theorem follow_eq_ok_iff : d.follow place piece = .ok q ↔
    d.checkPiece place piece = .ok () ∧ next place piece = q := by
  have hfollow : d.follow place piece =
      d.checkPiece place piece >>= fun _ => .ok (next place piece) := by
    rw [follow, next]
    refine bind_congr fun _ => ?_
    split
    · rfl
    · split <;> rfl
  rw [hfollow, bind_eq_ok_iff]
  constructor
  · intro ⟨⟨⟩, hcheck, h⟩
    exact ⟨hcheck, Except.ok.inj h⟩
  · intro ⟨hcheck, h⟩
    exact ⟨(), hcheck, congrArg Except.ok h⟩

/-- The last step of a walk starts where the others led. -/
theorem walk_append_iff : (ps ++ [piece]).foldlM d.follow start = .ok q ↔
    ∃ r, ps.foldlM d.follow start = .ok r ∧ d.follow r piece = .ok q := by
  simp [List.foldlM_append, bind_eq_ok_iff]

/-- A path leads to a place if the system takes it and every piece can be followed. -/
theorem locate_eq_ok_iff : d.locate path = .ok q ↔ checkPath path = .ok () ∧
    (Path.pieces path).foldlM d.follow (d.origin path) = .ok q := by
  rw [locate, bind_eq_ok_iff]
  constructor
  · intro ⟨⟨⟩, hpath, hwalk⟩
    exact ⟨hpath, hwalk⟩
  · intro ⟨hpath, hwalk⟩
    exact ⟨(), hpath, hwalk⟩

/-- A path finds what the tree has at the place that it leads to. -/
theorem find_eq_ok_iff : d.find path = .ok (q, n) ↔
    d.locate path = .ok q ∧ d.node? q = some n := by
  rw [find, bind_eq_ok_iff]
  constructor
  · intro ⟨r, hlocate, h⟩
    split at h
    · next m hm =>
        cases h
        exact ⟨hlocate, hm⟩
    · cases h
  · intro ⟨hlocate, hnode⟩
    exact ⟨q, hlocate, by rw [hnode]; rfl⟩

/-- The pieces of a path without the empty ones at the end. -/
def namedPieces (path : String) : List String :=
  ((Path.pieces path).reverse.dropWhile fun p => p == "").reverse

/-- The last piece of a path is not followed: it only has to be one that could be looked up. -/
theorem locateLast_eq_ok_iff : d.locateLast path = .ok (q, piece) ↔ checkPath path = .ok () ∧
    (namedPieces path).dropLast.foldlM d.follow (d.origin path) = .ok q ∧
      d.checkPiece q piece = .ok () ∧ (namedPieces path).getLastD "" = piece := by
  rw [locateLast, bind_eq_ok_iff]
  constructor
  · rintro ⟨⟨⟩, hpath, h⟩
    obtain ⟨_, hwalk, h⟩ := bind_eq_ok_iff.mp h
    obtain ⟨⟨⟩, hcheck, h⟩ := bind_eq_ok_iff.mp h
    cases h
    exact ⟨hpath, hwalk, hcheck, rfl⟩
  · rintro ⟨hpath, hwalk, hcheck, rfl⟩
    exact ⟨(), hpath, bind_eq_ok_iff.mpr ⟨q, hwalk, bind_eq_ok_iff.mpr ⟨(), hcheck, rfl⟩⟩⟩

/-- The test for a folder finds one at the end of the path. -/
theorem isFolder_iff : d.isFolder path = true ↔ ∃ q, d.find path = .ok (q, .folder) := by
  unfold isFolder
  split
  · next h => exact iff_of_true rfl ⟨_, h⟩
  · next h => exact iff_of_false Bool.false_ne_true fun ⟨q, hq⟩ => h q hq

/-- The test for a file finds one at the end of the path. -/
theorem isFile_iff : d.isFile path = true ↔ ∃ q content, d.find path = .ok (q, .file content) := by
  unfold isFile
  split
  · next h => exact iff_of_true rfl ⟨_, _, h⟩
  · next h => exact iff_of_false Bool.false_ne_true fun ⟨q, content, hq⟩ => h q content hq

/-- A file that is found can be read. -/
theorem read_of_find {content : ByteArray} (h : d.find path = .ok (q, .file content)) :
    d.read path = .ok content := by
  rw [read, h]
  rfl

/-! ## Names in a folder -/

/-- A name that a folder can hold: it is one piece of a path and leads into the folder. -/
structure IsEntryName (name : String) : Prop where
  /-- It leads to something in the folder. -/
  isName : isName name = true
  /-- It is one piece. -/
  noSlash : '/' ∉ name.toList

theorem IsEntryName.next_eq (h : IsEntryName name) (place : Place) :
    next place name = name :: place := by
  have hname := h.isName
  simp only [Disk.isName, Bool.and_eq_true, bne_iff_ne] at hname
  simp [next, hname]

/-- The system takes the path of a name in a folder: it has no zero character, and neither the
path nor the name is too long. -/
def Takes (folder name : String) : Prop :=
  checkPath (Path.join folder name) = .ok () ∧ Path.isPieceTooLong name = false

theorem checkPath_eq_ok_iff : checkPath path = .ok () ↔
    Path.hasZero path = false ∧ path ≠ "" ∧ Path.isTooLong path = false := by
  unfold checkPath
  split
  · next h => simp [h]
  · next hzero =>
      split
      · next h => simp [eq_of_beq h]
      · next hne =>
          split
          · next h => simp [h]
          · next hlong => simpa [hzero, hlong] using hne

/-- A path that the system takes has folders on the way that it takes. -/
theorem checkPath_of_join (hname : '/' ∉ name.toList) (hne : folder ≠ "")
    (h : checkPath (Path.join folder name) = .ok ()) : checkPath folder = .ok () := by
  obtain ⟨rest, hjoin⟩ := Path.join_eq_append folder hname
  rw [hjoin, checkPath_eq_ok_iff] at h
  obtain ⟨hzero, _, hlong⟩ := h
  refine checkPath_eq_ok_iff.mpr ⟨?_, hne, ?_⟩
  · simp only [Path.hasZero, String.toList_append, List.contains_append,
      Bool.or_eq_false_iff] at hzero
    exact hzero.1.1
  · simp only [Path.isTooLong, String.utf8ByteSize_append, decide_eq_false_iff_not] at hlong ⊢
    omega

/-- Where the paths into a folder start.  The empty text stands for the working folder. -/
def base (d : Disk) (folder : String) : Except Files.Fault Place :=
  if folder = "" then .ok d.current else d.locate folder

theorem base_of_locate (h : d.locate path = .ok q) : d.base path = .ok q := by
  have hne : path ≠ "" := by
    rintro rfl
    obtain ⟨hpath, _⟩ := locate_eq_ok_iff.mp h
    cases hpath
  rw [base, if_neg hne, h]

/-- The walk to a name in a folder goes to the folder first. -/
theorem walk_join (hname : IsEntryName name) (hbase : d.base folder = .ok place) :
    ∃ before, Path.pieces (Path.join folder name) = before ++ [name] ∧
      before.foldlM d.follow (d.origin (Path.join folder name)) = .ok place := by
  rcases Path.pieces_join folder hname.noSlash with
    ⟨rfl, hpieces⟩ | ⟨hne, hrooted, before, hpieces, hbefore⟩
  · refine ⟨[], hpieces, ?_⟩
    have horigin : d.origin (Path.join "" name) = d.current := by
      have hjoin : Path.join "" name = name := by
        rw [Path.join, if_pos (by simp)]
      rw [hjoin, origin, Path.isRooted_of_not_mem hname.noSlash]
      rfl
    rw [horigin]
    exact hbase
  · refine ⟨before, hpieces, ?_⟩
    rw [base, if_neg hne] at hbase
    obtain ⟨_, hwalk⟩ := locate_eq_ok_iff.mp hbase
    have horigin : d.origin (Path.join folder name) = d.origin folder := by
      rw [origin, origin, hrooted]
    rw [horigin]
    rcases hbefore with rfl | hempty
    · exact hwalk
    · rw [hempty] at hwalk
      obtain ⟨r, hr, hfollow⟩ := walk_append_iff.mp hwalk
      have hnext : r = place := (follow_eq_ok_iff.mp hfollow).2
      rw [hr, hnext]

/-- The path of a name in a folder leads to the place of the name, if the system takes the path. -/
theorem locate_join_iff (hname : IsEntryName name) (hbase : d.base folder = .ok place) :
    d.locate (Path.join folder name) = .ok q ↔
      Takes folder name ∧ d.node? place = some .folder ∧ name :: place = q := by
  obtain ⟨before, hpieces, hwalk⟩ := walk_join hname hbase
  rw [locate_eq_ok_iff, hpieces, walk_append_iff, hwalk, Takes]
  constructor
  · rintro ⟨hpath, _, ⟨⟩, hfollow⟩
    obtain ⟨hcheck, hnext⟩ := follow_eq_ok_iff.mp hfollow
    obtain ⟨hfolder, hpiece⟩ := checkPiece_eq_ok_iff.mp hcheck
    exact ⟨⟨hpath, hpiece⟩, hfolder, by rw [← hnext, hname.next_eq]⟩
  · rintro ⟨⟨hpath, hpiece⟩, hfolder, rfl⟩
    refine ⟨hpath, place, rfl, follow_eq_ok_iff.mpr ⟨?_, hname.next_eq place⟩⟩
    exact checkPiece_eq_ok_iff.mpr ⟨hfolder, hpiece⟩

/-- What the path of a name in a folder leads to. -/
theorem find_join_iff (hname : IsEntryName name) (hbase : d.base folder = .ok place) :
    d.find (Path.join folder name) = .ok (q, n) ↔
      Takes folder name ∧ d.node? place = some .folder ∧ name :: place = q ∧
        d.node? q = some n := by
  rw [find_eq_ok_iff, locate_join_iff hname hbase, and_assoc, and_assoc]

/-- It does so whether anything has the name or not. -/
theorem locateLast_join_iff (hname : IsEntryName name) (hbase : d.base folder = .ok place) :
    d.locateLast (Path.join folder name) = .ok (q, piece) ↔
      Takes folder name ∧ d.node? place = some .folder ∧ place = q ∧ name = piece := by
  obtain ⟨before, hpieces, hwalk⟩ := walk_join hname hbase
  have hne : ¬ (name == "") = true := by
    have hne := hname.isName
    simp only [Disk.isName, Bool.and_eq_true, bne_iff_ne] at hne
    simpa using hne.1.1
  have hnamed : namedPieces (Path.join folder name) = before ++ [name] := by
    have hdrop : (name :: before.reverse).dropWhile (fun p => p == "") = name :: before.reverse :=
      List.dropWhile_cons_of_neg hne
    rw [namedPieces, hpieces, List.reverse_append, List.reverse_singleton, List.singleton_append,
      hdrop, List.reverse_cons, List.reverse_reverse]
  rw [locateLast_eq_ok_iff, hnamed, List.dropLast_concat, List.getLastD_concat, hwalk, Takes]
  constructor
  · rintro ⟨hpath, ⟨⟩, hcheck, rfl⟩
    obtain ⟨hfolder, hpiece⟩ := checkPiece_eq_ok_iff.mp hcheck
    exact ⟨⟨hpath, hpiece⟩, hfolder, rfl, rfl⟩
  · rintro ⟨⟨hpath, hpiece⟩, hfolder, rfl, rfl⟩
    exact ⟨hpath, rfl, checkPiece_eq_ok_iff.mpr ⟨hfolder, hpiece⟩, rfl⟩

end Disk

end Clausal
