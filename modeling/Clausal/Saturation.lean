import Clausal.Clause.Resolvent
import Clausal.ClauseSet.Room
import Clausal.Journal
import Clausal.Solution

/-!
# Saturation under resolution

The working set starts with the distinct clauses of the formula that are no
tautologies.  A round resolves every two of its clauses, an earlier one with a later
one, on every variable on which they clash.  Resolvents that are tautologies are
passed over.  The round ends at once with the empty clause, and else the resolvents
that are new go to the end of the working set.  Rounds follow until one finds the
empty clause or nothing new.

That happens because all clauses are over the literals of the first ones, and a
round that finds something leaves less room for more (`ClauseSet.room`).
-/

namespace Clausal

/-- The resolvents of two clauses that are no tautologies, by ascending variable. -/
def Clause.derivations (a b : Clause) : List Clause :=
  (a.clashingVariables b).filterMap fun v => (a.resolve b v).filter fun r => !r.isTautology

namespace Saturation

/-! ### One round -/

/-- What a round has found so far. -/
structure Round where
  /-- Resolvents computed that are no tautologies. -/
  resolvents : Nat := 0
  /-- Those of them that are not in the working set. -/
  fresh : ClauseSet := .empty

/-- How a round ended with the empty clause. -/
structure Refutation where
  /-- The earlier parent. -/
  first : Clause
  /-- The later parent. -/
  second : Clause
  /-- Resolvents computed up to and with the empty clause. -/
  resolvents : Nat

/-- Take in a resolvent of two clauses. -/
def Round.add (known : ClauseSet) (a b : Clause) (r : Round) (c : Clause) :
    Except Refutation Round :=
  if c.isEmpty then .error ⟨a, b, r.resolvents + 1⟩
  else .ok ⟨r.resolvents + 1, if known.contains c then r.fresh else r.fresh.insert c⟩

/-- Resolve two clauses in every way. -/
def Round.addPair (known : ClauseSet) (a : Clause) (r : Round) (b : Clause) :
    Except Refutation Round :=
  (a.derivations b).foldlM (Round.add known a b) r

/-- Resolve every clause of a list with all that follow it. -/
def Round.addPairs (known : ClauseSet) : List Clause → Round → Except Refutation Round
  | [], r => .ok r
  | a :: rest, r => do
      let r ← rest.foldlM (Round.addPair known a) r
      addPairs known rest r

/-- One round over the working set. -/
def round (known : ClauseSet) : Except Refutation Round := Round.addPairs known known.toList {}

/-! ### What a round finds -/

/-- The fresh clauses of a round are not in the working set and are over its literals. -/
def Round.Fresh (known : ClauseSet) (r : Round) : Prop :=
  ∀ c ∈ r.fresh.toList, c ∉ known.toList ∧ ∀ l ∈ c, l ∈ known.literals

theorem mem_literals_of_mem_derivations {known : ClauseSet} {a b c : Clause}
    (ha : a ∈ known.toList) (hb : b ∈ known.toList) (hc : c ∈ a.derivations b) :
    ∀ l ∈ c, l ∈ known.literals := by
  intro l hl
  obtain ⟨v, _, hr⟩ := List.mem_filterMap.mp hc
  cases Clause.mem_of_mem_resolve (Option.filter_eq_some_iff.mp hr).1 hl with
  | inl h => exact ClauseSet.mem_literals.mpr ⟨a, ha, h⟩
  | inr h => exact ClauseSet.mem_literals.mpr ⟨b, hb, h⟩

theorem Round.Fresh.add {known : ClauseSet} {a b c : Clause} {r r' : Round} (h : r.Fresh known)
    (hc : ∀ l ∈ c, l ∈ known.literals) (hr : r.add known a b c = .ok r') : r'.Fresh known := by
  unfold Round.add at hr
  split at hr
  · cases hr
  · cases hr
    intro d hd
    dsimp only at hd
    split at hd
    · exact h d hd
    · next hk =>
        cases ClauseSet.mem_insert.mp hd with
        | inl hd => exact h d hd
        | inr he => subst he; exact ⟨fun hm => hk (ClauseSet.contains_iff.mpr hm), hc⟩

/-- What every step of a fold keeps, the fold keeps. -/
theorem foldlM_keeps {ε σ β : Type} {f : σ → β → Except ε σ} {P : σ → Prop} :
    ∀ {l : List β} {s s' : σ}, (∀ s s' b, b ∈ l → P s → f s b = .ok s' → P s') → P s →
      l.foldlM f s = .ok s' → P s'
  | [], s, s', _, hs, h => by cases h; exact hs
  | b :: l, s, s', hstep, hs, h => by
      rw [List.foldlM_cons] at h
      cases hb : f s b with
      | error e => rw [hb] at h; cases h
      | ok t =>
          rw [hb] at h
          exact foldlM_keeps (fun s s' c hc => hstep s s' c (List.mem_cons_of_mem _ hc))
            (hstep s t b List.mem_cons_self hs hb) h

theorem Round.Fresh.addPairs {known : ClauseSet} : ∀ {cs : List Clause} {r r' : Round},
    cs ⊆ known.toList → r.Fresh known → Round.addPairs known cs r = .ok r' → r'.Fresh known
  | [], r, r', _, h, hr => by cases hr; exact h
  | a :: rest, r, r', hcs, h, hr => by
      rw [Round.addPairs] at hr
      cases hf : rest.foldlM (Round.addPair known a) r with
      | error e => rw [hf] at hr; cases hr
      | ok t =>
          rw [hf] at hr
          refine Round.Fresh.addPairs (fun c hc => hcs (List.mem_cons_of_mem _ hc)) ?_ hr
          refine foldlM_keeps (P := Round.Fresh known) (fun s s' b hb hs he => ?_) h hf
          refine foldlM_keeps (P := Round.Fresh known) (fun s s' c hc hs he => ?_) hs he
          exact hs.add (mem_literals_of_mem_derivations (hcs List.mem_cons_self)
            (hcs (List.mem_cons_of_mem _ hb)) hc) he

theorem round_fresh {known : ClauseSet} {r : Round} (h : round known = .ok r) : r.Fresh known :=
  Round.Fresh.addPairs (fun _ hc => hc) (fun _ hc => absurd hc List.not_mem_nil) h

/-- A round that finds something leaves less room. -/
theorem room_lt_of_round {known : ClauseSet} {r : Round} (h : round known = .ok r)
    (hne : ¬ r.fresh.isEmpty = true) : (known.insertAll r.fresh.toList).room < known.room := by
  have hne' : r.fresh.toList ≠ [] := fun he => hne (ClauseSet.isEmpty_iff.mpr he)
  obtain ⟨c, hc⟩ := List.exists_mem_of_ne_nil _ hne'
  exact ClauseSet.room_insertAll_lt (fun d hd => (round_fresh h d hd).2) hc (round_fresh h c hc).1

/-! ### Rounds to the end -/

/-- How saturation ends. -/
inductive Outcome where
  /-- The empty clause was derived. -/
  | refuted
  /-- There is no new resolvent that is no tautology. -/
  | saturated
deriving DecidableEq, Repr

/-- What saturation writes into its log. -/
inductive Event where
  /-- The empty clause is a resolvent of two clauses. -/
  | derivedEmpty (first second : Clause)
  /-- A round found new clauses, besides those already known. -/
  | round (number fresh known : Nat)
  /-- A round found nothing new. -/
  | saturated (rounds size : Nat)
deriving DecidableEq

/-- The log entry of an event. -/
def Event.entry : Event → LogEntry
  | .derivedEmpty first second =>
      ⟨.debug, "derived the empty clause from " ++ first.text ++ " and " ++ second.text⟩
  | .round number fresh known =>
      ⟨.debug, "round " ++ toString number ++ ": " ++ toString fresh ++ " new clauses, " ++
        toString known ++ " known"⟩
  | .saturated rounds size =>
      ⟨.debug, "saturated after " ++ toString rounds ++ " rounds with " ++ toString size ++
        " clauses"⟩

end Saturation

/-- A solver that saturates the clauses of a formula. -/
structure Saturation where
  /-- The working set. -/
  working : ClauseSet
  /-- Whether the formula has the empty clause. -/
  hasEmptyClause : Bool
  /-- Counters and log. -/
  journal : Journal Saturation.Event := {}

namespace Saturation

/-- The solver of a formula, before its first round. -/
def start (f : Formula) : Saturation where
  working := .ofList (f.clauses.filter fun c => !c.isTautology)
  hasEmptyClause := f.hasEmptyClause

/-- Where a round leads. -/
inductive Step where
  /-- To the end. -/
  | ended (outcome : Outcome) (s : Saturation)
  /-- To the next round. -/
  | grown (s : Saturation)

/-- Count a round and the resolvents that it computed. -/
def countRound (s : Saturation) (resolvents : Nat) : Journal Event :=
  s.journal.count fun t =>
    { t with rounds := t.rounds + 1, resolvents := t.resolvents + resolvents }

/-- Carry out one round. -/
def step (s : Saturation) : Step :=
  match round s.working with
  | .error x =>
      let journal := s.countRound x.resolvents
      .ended .refuted { s with journal := journal.note (.derivedEmpty x.first x.second) }
  | .ok r =>
      let journal := s.countRound r.resolvents
      if r.fresh.isEmpty then
        let event := .saturated journal.stats.rounds s.working.size
        .ended .saturated { s with journal := journal.note event }
      else
        let event := .round journal.stats.rounds r.fresh.size s.working.size
        .grown { s with
          working := s.working.insertAll r.fresh.toList
          journal := journal.note event }

/-- A round that leads to another one leaves less room. -/
theorem room_lt_of_step {s s' : Saturation} (h : s.step = .grown s') :
    s'.working.room < s.working.room := by
  unfold step at h
  split at h
  · cases h
  · next r hr =>
      dsimp only at h
      split at h
      · cases h
      · next hne => cases h; exact room_lt_of_round hr hne

/-- Rounds until one finds the empty clause or nothing new. -/
def rounds (s : Saturation) : Outcome × Saturation :=
  match h : s.step with
  | .ended outcome s => (outcome, s)
  | .grown s' =>
      have : s'.working.room < s.working.room := room_lt_of_step h
      rounds s'
termination_by s.working.room

/-- Saturate the working set.  A formula with the empty clause is refuted without a
round. -/
def saturate (s : Saturation) : Outcome × Saturation :=
  if s.hasEmptyClause then (.refuted, s) else s.rounds

/-- The answer that an outcome stands for. -/
def Outcome.solution : Outcome → Solution
  | .refuted => .unsat
  | .saturated => .sat none

/-- Decide satisfiability by saturation. -/
def solve (s : Saturation) : Solution × Saturation :=
  let (outcome, s) := s.saturate
  (outcome.solution, s)

/-- The log since it was last taken, and the solver without it. -/
def takeLog (s : Saturation) : List LogEntry × Saturation :=
  let (events, journal) := s.journal.take
  (events.map Event.entry, { s with journal })

end Saturation

end Clausal
