import Clausal.Files.Disk

/-!
# A disk with a clock

The clock of a disk stands still.  On a machine every computation takes as long as it takes: the
durations are given beforehand, one for each computation that will be timed.
-/

namespace Clausal

/-- A disk, and the nanoseconds that each of the computations to come takes. -/
structure Machine where
  /-- The disk. -/
  disk : Disk
  /-- The durations, the next one first. -/
  durations : Nat → Nat

namespace Machine

/-- Carry out an operation of the disk. -/
def onDisk {α : Type} (act : StateM Disk α) : StateM Machine α := fun s =>
  ((act s.disk).1, { s with disk := (act s.disk).2 })

instance : Files (StateM Machine) where
  read path := onDisk (Files.read path)
  isFolder path := onDisk (Files.isFolder path)
  isFile path := onDisk (Files.isFile path)
  list path := onDisk (Files.list path)
  makeFolder path := onDisk (Files.makeFolder path)
  write path text := onDisk (Files.write path text)
  timed f := fun s =>
    ((f (), s.durations 0), { s with durations := fun n => s.durations (n + 1) })

theorem onDisk_bind {α β : Type} (act : StateM Disk α) (next : α → StateM Disk β) :
    onDisk (act >>= next) = onDisk act >>= fun a => onDisk (next a) := rfl

/-- Folders are made as on the disk. -/
theorem makeFirst_eq : ∀ paths : List String,
    Files.makeFirst paths = onDisk (Files.makeFirst paths)
  | [] => rfl
  | path :: outer => by
      rw [Files.makeFirst, Files.makeFirst]
      split
      · rfl
      · rw [onDisk_bind]
        refine bind_congr fun answer => ?_
        split
        · rfl
        · rw [makeFirst_eq outer, onDisk_bind]
          refine bind_congr fun answer => ?_
          split
          · rfl
          · rw [onDisk_bind]
            refine bind_congr fun answer => ?_
            split
            · rfl
            · rfl
        · rfl

/-! ### Operations that succeed -/

/-- The operation succeeds with a result, and leaves a machine. -/
def Yields {ε α : Type} (act : ExceptT ε (StateM Machine) α) (s : Machine) (a : α) (t : Machine) :
    Prop := act.run s = (.ok a, t)

variable {ε α β : Type} {s t u : Machine} {a : α} {b : β}

/-- An operation of the disk leaves the clock as it is. -/
theorem onDisk_eq {act : StateM Disk α} {d e : Disk} {durations : Nat → Nat}
    (h : act d = (a, e)) : onDisk act ⟨d, durations⟩ = (a, ⟨e, durations⟩) := by
  show ((act d).1, (⟨(act d).2, durations⟩ : Machine)) = _
  rw [h]

/-- An operation with a known result hands it on. -/
theorem bind_eq {act : StateM Machine α} {next : α → StateM Machine β} (h : act s = (a, t)) :
    (act >>= next) s = next a t := by
  show next (act s).1 (act s).2 = _
  rw [h]

theorem Yields.pure : Yields (Pure.pure a : ExceptT ε (StateM Machine) α) s a s := rfl

theorem Yields.bind {act : ExceptT ε (StateM Machine) α} {next : α → ExceptT ε (StateM Machine) β}
    (h : Yields act s a t) (hnext : Yields (next a) t b u) : Yields (act >>= next) s b u := by
  unfold Yields at *
  show (ExceptT.bindCont next (act.run s).1) (act.run s).2 = _
  rw [h]
  exact hnext

theorem Yields.lift {act : StateM Machine α} (h : act s = (a, t)) :
    Yields (liftM act : ExceptT ε (StateM Machine) α) s a t := by
  unfold Yields
  show (Except.ok (act s).1, (act s).2) = _
  rw [h]

/-- What is done about an error does not matter to an operation that succeeds. -/
theorem Yields.tryCatch {act : ExceptT ε (StateM Machine) α}
    {handle : ε → ExceptT ε (StateM Machine) α} (h : Yields act s a t) :
    Yields (MonadExcept.tryCatch act handle) s a t := by
  have hrun : (MonadExcept.tryCatch act handle).run s =
      (act.run >>= fun
        | .ok a => Pure.pure (Except.ok a)
        | .error e => (handle e).run : StateM Machine (Except ε α)) s := rfl
  exact hrun.trans (bind_eq h)

end Machine

end Clausal
