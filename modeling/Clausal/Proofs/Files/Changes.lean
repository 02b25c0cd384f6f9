import Clausal.Proofs.Files.Walks

/-!
# Changes of a disk

A walk looks at folders only, so it leads to the same place on every disk that has these folders
(`Disk.KeepsFolders`).  Making folders only adds folders (`Disk.Made`), and writing a file changes
one place, which was no folder.  Both keep a disk a tree: everything on it lies in a folder of the
disk, under a name that a folder can hold.
-/

namespace Clausal

namespace Disk

variable {d e f : Disk} {place q : Place} {name path folder text piece : String} {n : Node}

/-! ## Putting something at a place -/

@[simp] theorem node?_put_self (name : String) (q : Place) :
    (d.put (name :: q) n).node? (name :: q) = some n := by
  rw [node?_of_ne_nil (List.cons_ne_nil _ _), put, List.find?_cons_of_pos (by simp)]
  rfl

/-- Putting something at a place changes nothing elsewhere. -/
theorem node?_put_of_ne (h : q ≠ place) : (d.put place n).node? q = d.node? q := by
  by_cases hq : q = []
  · rw [node?, node?, if_pos hq, if_pos hq]
  · have hfilter : ((d.nodes.filter fun m => m.1 != place).find? fun m => m.1 == q) =
        d.nodes.find? fun m => m.1 == q := by
      rw [List.find?_filter]
      refine congrArg (fun p => d.nodes.find? p) (funext fun m => ?_)
      by_cases hm : m.1 = q
      · simp [hm, h]
      · simp [hm]
    rw [node?_of_ne_nil hq, node?_of_ne_nil hq, put,
      List.find?_cons_of_neg (by simpa using Ne.symm h), hfilter]

/-! ## Folders are kept -/

/-- The second disk has all folders of the first, and the same working folder. -/
structure KeepsFolders (d e : Disk) : Prop where
  /-- The working folder is the same. -/
  current_eq : e.current = d.current
  /-- A folder stays one. -/
  folder : ∀ {q}, d.node? q = some .folder → e.node? q = some .folder

theorem KeepsFolders.refl (d : Disk) : KeepsFolders d d := ⟨rfl, id⟩

theorem KeepsFolders.trans (h : KeepsFolders d e) (h' : KeepsFolders e f) : KeepsFolders d f :=
  ⟨h'.current_eq.trans h.current_eq, fun hq => h'.folder (h.folder hq)⟩

/-- What is not put in the place of a folder leaves all folders. -/
theorem KeepsFolders.put (h : d.node? place ≠ some .folder) : KeepsFolders d (d.put place n) where
  current_eq := rfl
  folder := by
    intro q hq
    have hne : q ≠ place := by
      rintro rfl
      exact h hq
    rw [node?_put_of_ne hne, hq]

/-- A step that leads to a place still does. -/
theorem KeepsFolders.follow (h : KeepsFolders d e) (hd : d.follow place piece = .ok q) :
    e.follow place piece = .ok q := by
  obtain ⟨hcheck, hnext⟩ := follow_eq_ok_iff.mp hd
  obtain ⟨hfolder, hpiece⟩ := checkPiece_eq_ok_iff.mp hcheck
  exact follow_eq_ok_iff.mpr ⟨checkPiece_eq_ok_iff.mpr ⟨h.folder hfolder, hpiece⟩, hnext⟩

/-- So does a walk of several steps. -/
theorem KeepsFolders.walk (h : KeepsFolders d e) : ∀ {ps : List String} {start : Place},
    ps.foldlM d.follow start = .ok q → ps.foldlM e.follow start = .ok q
  | [], _, hd => hd
  | p :: ps, start, hd => by
      rw [List.foldlM_cons, bind_eq_ok_iff] at hd ⊢
      obtain ⟨r, hr, hwalk⟩ := hd
      exact ⟨r, h.follow hr, h.walk hwalk⟩

/-- A path that leads to a folder still does. -/
theorem KeepsFolders.base (h : KeepsFolders d e) (hd : d.base folder = .ok q) :
    e.base folder = .ok q := by
  unfold Disk.base at hd ⊢
  split at hd
  · next hempty => rw [if_pos hempty, h.current_eq, hd]
  · next hempty =>
      obtain ⟨hpath, hwalk⟩ := locate_eq_ok_iff.mp hd
      have horigin : e.origin folder = d.origin folder := by
        rw [origin, origin, h.current_eq]
      rw [if_neg hempty]
      exact locate_eq_ok_iff.mpr ⟨hpath, horigin ▸ h.walk hwalk⟩

/-! ## Trees -/

/-- Everything on the disk lies in a folder of the disk, under a name that a folder can hold. -/
structure IsTree (d : Disk) : Prop where
  /-- The name is one that a folder can hold. -/
  name : ∀ {name q n}, d.node? (name :: q) = some n → IsEntryName name
  /-- The place around it is a folder. -/
  folder : ∀ {name q n}, d.node? (name :: q) = some n → d.node? q = some .folder

/-- A disk is a tree if every entry has a name and stands in a folder. -/
theorem isTree_of_nodes (h : ∀ m ∈ d.nodes, ∃ name q, m.1 = name :: q ∧ IsEntryName name ∧
    d.node? q = some .folder) : d.IsTree := by
  have hnode : ∀ {name q n}, d.node? (name :: q) = some n →
      IsEntryName name ∧ d.node? q = some .folder := by
    intro name q n hn
    have hsome : (d.node? (name :: q)).isSome = true := by rw [hn]; rfl
    obtain ⟨m, hm, he⟩ := (exists_mem_nodes_iff (List.cons_ne_nil _ _)).mpr hsome
    obtain ⟨_, _, he', hname, hfolder⟩ := h m hm
    rw [he] at he'
    cases he'
    exact ⟨hname, hfolder⟩
  exact ⟨fun hn => (hnode hn).1, fun hn => (hnode hn).2⟩

/-- Putting something into a folder, and not in the place of one, leaves a tree. -/
theorem IsTree.put (h : d.IsTree) (hname : IsEntryName name) (hq : d.node? q = some .folder)
    (hfree : d.node? (name :: q) ≠ some .folder) : (d.put (name :: q) n).IsTree := by
  have hkeeps : KeepsFolders d (d.put (name :: q) n) := .put hfree
  constructor
  · intro m r k hm
    by_cases he : m :: r = name :: q
    · cases he
      exact hname
    · rw [node?_put_of_ne he] at hm
      exact h.name hm
  · intro m r k hm
    by_cases he : m :: r = name :: q
    · cases he
      exact hkeeps.folder hq
    · rw [node?_put_of_ne he] at hm
      exact hkeeps.folder (h.folder hm)

/-! ## Making folders -/

/-- Only folders have been made. -/
structure Made (d e : Disk) : Prop where
  /-- The folders before are still there. -/
  keeps : KeepsFolders d e
  /-- A tree stays one. -/
  isTree : d.IsTree → e.IsTree
  /-- What is new is a folder. -/
  node?_cases : ∀ q, e.node? q = d.node? q ∨ (d.node? q = none ∧ e.node? q = some .folder)

theorem Made.refl (d : Disk) : Made d d := ⟨.refl d, id, fun _ => .inl rfl⟩

theorem Made.trans (h : Made d e) (h' : Made e f) : Made d f where
  keeps := h.keeps.trans h'.keeps
  isTree := fun hd => h'.isTree (h.isTree hd)
  node?_cases := by
    intro q
    rcases h'.node?_cases q with he | ⟨hnone, hfolder⟩
    · rw [he]
      exact h.node?_cases q
    · rcases h.node?_cases q with hd | ⟨_, hmade⟩
      · exact .inr ⟨hd ▸ hnone, hfolder⟩
      · rw [hmade] at hnone
        cases hnone

/-- What a path ends in is a single name, and what it stands in is a folder. -/
theorem not_mem_of_locateLast (h : d.locateLast path = .ok (q, piece)) :
    '/' ∉ piece.toList ∧ d.node? q = some .folder := by
  obtain ⟨_, _, hcheck, hlast⟩ := locateLast_eq_ok_iff.mp h
  refine ⟨?_, (checkPiece_eq_ok_iff.mp hcheck).1⟩
  rw [← hlast, List.getLastD_eq_getLast?]
  cases hl : (namedPieces path).getLast? with
  | none => exact List.not_mem_nil
  | some p =>
      have hp : p ∈ namedPieces path := List.mem_of_getLast? hl
      rw [namedPieces, List.mem_reverse] at hp
      have hmem := (List.dropWhile_sublist _).subset hp
      exact Path.not_mem_of_mem_pieces (List.mem_reverse.mp hmem)

/-- Making a folder puts it where nothing was. -/
theorem made_of_makeFolder (h : d.makeFolder path = .ok e) : Made d e := by
  rw [makeFolder, bind_eq_ok_iff] at h
  obtain ⟨⟨q, name⟩, hlast, h⟩ := h
  dsimp only at h
  split at h
  · next hfree =>
      cases h
      rw [Bool.and_eq_true, Option.isNone_iff_eq_none] at hfree
      obtain ⟨hname, hnone⟩ := hfree
      obtain ⟨hslash, hq⟩ := not_mem_of_locateLast hlast
      have hfree : d.node? (name :: q) ≠ some .folder := by
        rw [hnone]
        exact nofun
      refine ⟨.put hfree, fun hd => hd.put ⟨hname, hslash⟩ hq hfree, fun r => ?_⟩
      by_cases hr : r = name :: q
      · subst hr
        exact .inr ⟨hnone, node?_put_self name q⟩
      · exact .inl (node?_put_of_ne hr)
  · cases h

/-- Whatever it answers, the operation only makes folders. -/
def Makes {α : Type} (act : StateM Disk α) : Prop := ∀ d, Made d (act d).2

theorem Makes.pure {α : Type} (a : α) : Makes (Pure.pure a) := fun d => .refl d

/-- Two operations that make folders only do so one after the other. -/
theorem Makes.bind {α β : Type} {act : StateM Disk α} {next : α → StateM Disk β} (h : Makes act)
    (hnext : ∀ a, Makes (next a)) : Makes (act >>= next) := fun d =>
  (h d).trans (hnext _ _)

/-- The system makes a folder, or refuses to and changes nothing. -/
theorem makes_makeFolder (path : String) : Makes (Files.makeFolder path) := by
  intro d
  show Made d (update (fun d => d.makeFolder path) d).2
  unfold update
  split
  · next h => exact made_of_makeFolder h
  · exact .refl d

theorem makes_isFolder (path : String) : Makes (Files.isFolder path) := fun d => .refl d

/-- Making folders is put together from making one and from looking for one. -/
theorem makeFirst_induct {P : ∀ {α : Type}, StateM Disk α → Prop}
    (hpure : ∀ {α : Type} (a : α), P (Pure.pure a))
    (hbind : ∀ {α β : Type} {act : StateM Disk α} {next : α → StateM Disk β},
      P act → (∀ a, P (next a)) → P (act >>= next))
    (hmake : ∀ path, P (Files.makeFolder path)) (hlook : ∀ path, P (Files.isFolder path)) :
    ∀ paths : List String, P (Files.makeFirst paths)
  | [] => hpure _
  | path :: outer => by
      have hrest := makeFirst_induct hpure hbind hmake hlook outer
      rw [Files.makeFirst]
      split
      · exact hpure _
      · refine hbind (hmake path) fun answer => ?_
        split
        · exact hpure _
        · refine hbind hrest fun answer => ?_
          split
          · exact hpure _
          · refine hbind (hmake path) fun answer => ?_
            split
            · exact hpure _
            · exact hbind (hlook path) fun _ => hpure _
        · exact hbind (hlook path) fun _ => hpure _

/-- Making the folders of a path from the innermost outwards makes folders only. -/
theorem makes_makeFirst (paths : List String) : Makes (Files.makeFirst paths) :=
  makeFirst_induct (P := Makes) .pure .bind makes_makeFolder makes_isFolder paths

/-! ## Writing and reading a file -/

/-- A file can be written in a folder just if the system takes its path and there is no folder of
its name, and then it is put there. -/
theorem write_join_iff (hname : IsEntryName name) (hbase : d.base folder = .ok place) :
    d.write (Path.join folder name) text = .ok e ↔
      Takes folder name ∧ d.node? place = some .folder ∧ d.node? (name :: place) ≠ some .folder ∧
        d.put (name :: place) (.file text.toUTF8) = e := by
  rw [write, bind_eq_ok_iff]
  constructor
  · rintro ⟨⟨q, piece⟩, hlast, h⟩
    obtain ⟨htakes, hfolder, rfl, rfl⟩ := (locateLast_join_iff hname hbase).mp hlast
    dsimp only at h
    rw [if_pos hname.isName] at h
    split at h
    · cases h
    · next hfree =>
        cases h
        exact ⟨htakes, hfolder, hfree, rfl⟩
  · rintro ⟨htakes, hfolder, hfree, rfl⟩
    refine ⟨_, (locateLast_join_iff hname hbase).mpr ⟨htakes, hfolder, rfl, rfl⟩, ?_⟩
    dsimp only
    rw [if_pos hname.isName]
    split
    · next h => exact absurd h hfree
    · rfl

/-- A file that has been written can be read. -/
theorem read_of_write (hname : IsEntryName name) (hbase : d.base folder = .ok place)
    (h : d.write (Path.join folder name) text = .ok e) :
    e.read (Path.join folder name) = .ok text.toUTF8 := by
  obtain ⟨htakes, hfolder, hfree, rfl⟩ := (write_join_iff hname hbase).mp h
  have hkeeps : KeepsFolders d (d.put (name :: place) (.file text.toUTF8)) := .put hfree
  exact read_of_find ((find_join_iff hname (hkeeps.base hbase)).mpr
    ⟨htakes, hkeeps.folder hfolder, rfl, node?_put_self name place⟩)

/-- A file that has been written can be written again. -/
theorem write_again (hname : IsEntryName name) (hbase : d.base folder = .ok place)
    (h : d.write (Path.join folder name) text = .ok e) (other : String) : ∃ f,
      e.write (Path.join folder name) other = .ok f ∧
        f.read (Path.join folder name) = .ok other.toUTF8 := by
  obtain ⟨htakes, hfolder, hfree, rfl⟩ := (write_join_iff hname hbase).mp h
  have hkeeps : KeepsFolders d (d.put (name :: place) (.file text.toUTF8)) := .put hfree
  have hagain : (d.put (name :: place) (.file text.toUTF8)).write (Path.join folder name) other =
      .ok _ := (write_join_iff hname (hkeeps.base hbase)).mpr
    ⟨htakes, hkeeps.folder hfolder, by rw [node?_put_self]; exact nofun, rfl⟩
  exact ⟨_, hagain, read_of_write hname (hkeeps.base hbase) hagain⟩

end Disk

end Clausal
