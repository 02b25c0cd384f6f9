import Clausal.Proofs.Asking
import Clausal.Proofs.Search.Simulation

/-!
# Asking a search again

No rule reads the journal, so a search that starts with entries in it adds the same ones as a search
that starts without (`explore_append`).  A search that finds nothing leaves the state as it was but
for the journal, so asked again it does all its work again, and the journal is repeated
(`Journal.times`).  A search that finds values leaves no clause to care for, so asked again it ends
at once with the same model (`explore_again`).
-/

namespace Clausal

open Search (Status Forced Event)

/-! ## Journals behind journals -/

/-- Counts of two pieces of work. -/
def Stats.add (a b : Stats) : Stats where
  resolvents := a.resolvents + b.resolvents
  rounds := a.rounds + b.rounds
  eliminations := a.eliminations + b.eliminations
  decisions := a.decisions + b.decisions
  propagations := a.propagations + b.propagations
  pureLiterals := a.pureLiterals + b.pureLiterals
  conflicts := a.conflicts + b.conflicts

/-- Counts of the same work, done `n` times. -/
def Stats.times (a : Stats) (n : Nat) : Stats where
  resolvents := n * a.resolvents
  rounds := n * a.rounds
  eliminations := n * a.eliminations
  decisions := n * a.decisions
  propagations := n * a.propagations
  pureLiterals := n * a.pureLiterals
  conflicts := n * a.conflicts

namespace Journal

variable {ε : Type}

/-- The second journal behind the first one. -/
def append (j k : Journal ε) : Journal ε := ⟨j.stats.add k.stats, j.events ++ k.events⟩

/-- The journal, `n` times in a row: every counter `n` times as great, and the events repeated. -/
def times (j : Journal ε) (n : Nat) : Journal ε :=
  ⟨j.stats.times n, (Array.replicate n j.events).flatten⟩

theorem append_empty (j : Journal ε) : j.append {} = j := by
  cases j
  simp [append, Stats.add]

theorem times_zero (j : Journal ε) : j.times 0 = {} := by
  simp [times, Stats.times]

/-- One more repetition goes behind the others. -/
theorem times_append (j : Journal ε) (n : Nat) : (j.times n).append j = j.times (n + 1) := by
  simp [append, times, Stats.add, Stats.times, Nat.succ_mul, Array.replicate_succ,
    Array.flatten_push]

end Journal

variable {f : Formula} {r found : Residual} {result : Option Residual} {i j k : Journal Event}
  {depth n : Nat}

namespace Residual

/-- A step is noted behind what the journal holds already. -/
theorem append_noteForced (i j : Journal Event) (step : Forced) :
    i.append (noteForced j step) = noteForced (i.append j) step := by
  cases step with
  | unit l =>
      simp only [noteForced, Journal.append, Array.append_push]
      rfl
  | pure l =>
      simp only [noteForced, Journal.append, Array.append_push]
      rfl

theorem append_noteDecision (i j : Journal Event) (l : Literal) (depth : Nat) :
    i.append (noteDecision j l depth) = noteDecision (i.append j) l depth := by
  simp only [noteDecision, Journal.append, Array.append_push]
  rfl

/-- Entries that are there already do not change what a run adds. -/
theorem simulation_append (i : Journal Event) : Simulation Eq Eq (fun j k => k = i.append j) :=
  .of_eq (fun h => h ▸ rfl) (fun h => h ▸ rfl) (fun h => h ▸ rfl) (fun _ h => h ▸ rfl)
    (fun x h => by rw [h, append_noteForced]) (fun l depth h => by rw [h, append_noteDecision])
    (fun h => h ▸ rfl)

/-- A search finds the same whatever the journal holds, and notes it behind that. -/
theorem explore_append (i : Journal Event) (hx : r.explore depth j = (result, k)) :
    r.explore depth (i.append j) = (result, i.append k) := by
  obtain ⟨other, _, hother, hrel, rfl⟩ := (simulation_append i).explore rfl rfl hx
  rw [hother]
  cases hrel with
  | none => rfl
  | some h => rw [h]

/-- What a search has found it finds again, at once. -/
theorem explore_again (h : found.clauses = []) : found.explore depth j = (some found, j) := by
  have hstatus : found.status = .satisfied := by
    rw [status, h]
    rfl
  exact explore_of_satisfied (propagate_of_decided hstatus (by decide))

end Residual

namespace Search

open Residual (Reached)

/-! ## Searches that find nothing -/

theorem mirror_start_journal (j : Journal Event) :
    mirror f (Residual.start f) j = { start f with journal := j } := by
  rw [mirror_start]
  rfl

/-- A search that finds nothing repeats its journal when it is asked once more. -/
theorem solve_times (hx : (Residual.start f).explore 0 {} = (none, k)) (n : Nat) :
    (mirror f (Residual.start f) (k.times n)).solve =
      .ok (.unsat, mirror f (Residual.start f) (k.times (n + 1))) := by
  have hagain := Residual.explore_append (k.times n) hx
  rw [Journal.append_empty, Journal.times_append] at hagain
  exact solve_mirror_of_none (Residual.reached_start f) hagain

theorem askTimes_times (hx : (Residual.start f).explore 0 {} = (none, k)) (n m : Nat) :
    askTimes Search.solve n (mirror f (Residual.start f) (k.times m)) =
      .ok (List.replicate n .unsat, mirror f (Residual.start f) (k.times (m + n))) := by
  induction n generalizing m with
  | zero => rfl
  | succ n ih =>
      have hrest := ih (m + 1)
      rw [Nat.add_right_comm, Nat.add_assoc] at hrest
      exact askTimes_of_ok (solve_times hx m) hrest

/-! ## Searches that find values -/

/-- A search that has found values answers the same from then on and stays as it is. -/
theorem askTimes_found {s : Search} {answer : Solution} (hs : s.solve = .ok (answer, s)) (n : Nat) :
    askTimes Search.solve n s = .ok (List.replicate n answer, s) := by
  induction n with
  | zero => rfl
  | succ n ih => exact askTimes_of_ok hs ih

/-- A search that has found a model gives it again and notes nothing. -/
theorem exists_solve_found (hx : (Residual.start f).explore 0 {} = (some found, k)) :
    ∃ m, (start f).solve = .ok (.sat (some m), mirror f found k) ∧
      (mirror f found k).solve = .ok (.sat (some m), mirror f found k) := by
  have hstart := Residual.reached_start f
  obtain ⟨hreached, hdone⟩ := hstart.explore hx
  have halong := hdone
  rw [hreached.eq_along] at halong
  obtain ⟨m, hcheck, _⟩ := exists_model hreached.fits halong
  refine ⟨m, ?_, solve_mirror_of_check hreached (Residual.explore_again hdone) hcheck⟩
  rw [mirror_start]
  exact solve_mirror_of_check hstart hx hcheck

/-! ## Any search -/

/-- A search may be asked as often as one likes.  If it has found values, every later call answers
with the same model and leaves the whole state as it is, journal included.  If it has found none,
it never will; the state is that of a new search but for the journal, in which every call has
added the same counts and the same events. -/
theorem solve_repeated (f : Formula) : ∃ answer s, (start f).solve = .ok (answer, s) ∧
    ((∃ m, answer = .sat (some m) ∧ ∀ n,
      askTimes Search.solve (n + 1) (start f) = .ok (List.replicate (n + 1) answer, s)) ∨
    (answer = .unsat ∧ ∀ n, askTimes Search.solve n (start f) =
      .ok (List.replicate n answer, { start f with journal := s.journal.times n }))) := by
  cases hx : (Residual.start f).explore 0 {} with
  | mk result k =>
      cases result with
      | some found =>
          obtain ⟨m, hsolve, hagain⟩ := exists_solve_found hx
          exact ⟨_, _, hsolve, .inl ⟨m, rfl, fun n =>
            askTimes_of_ok hsolve (askTimes_found hagain n)⟩⟩
      | none =>
          refine ⟨_, _, solve_of_none hx, .inr ⟨rfl, fun n => ?_⟩⟩
          have htimes := askTimes_times hx n 0
          rw [Nat.zero_add, Journal.times_zero, ← mirror_start, mirror_start_journal] at htimes
          exact htimes

end Search

end Clausal
