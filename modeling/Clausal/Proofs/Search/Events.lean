import Clausal.Proofs.Search.Refinement

/-!
# What the events of a search tell of its trail

A trail does not keep which of its literals were decided.  The events tell it: the newest event on a
variable is the one that gave the variable its value (`newest`, `Traced`).

The events of a branch are on variables that are left at its start, and its decisions are made
below less others than there are variables left (`continues_explore`).  So a branch does not touch
what the events say of the literals that are on the trail already (`newest_of_branch`).
-/

namespace Clausal

open Search (Status Forced Event Fits)

namespace Search

/-- The literal that an event makes true. -/
def Event.literal : Event → Literal
  | .unit l => l
  | .pure l => l
  | .decide l _ => l

/-- Whether an event is a decision. -/
def Event.isDecision : Event → Bool
  | .decide _ _ => true
  | _ => false

/-- The newest event on a variable. -/
def newest (j : Journal Event) (v : Variable) : Option Event :=
  j.events.toList.reverse.find? fun e => e.literal.var == v

/-- Every literal was made true by the newest event on its variable. -/
def Traced (j : Journal Event) (t : List Literal) : Prop :=
  ∀ l ∈ t, ∃ e, newest j l.var = some e ∧ e.literal = l

/-- How many positive literals of a trail were decided. -/
def decidedTrue (j : Journal Event) (t : List Literal) : Nat :=
  t.countP fun l => l.positive && (newest j l.var).any Event.isDecision

/-- How many literals were made true. -/
def made (j : Journal Event) : Nat :=
  j.stats.propagations + j.stats.pureLiterals + j.stats.decisions

/-- The event of a forced step. -/
def Event.ofForced : Forced → Event
  | .unit l => .unit l
  | .pure l => .pure l

variable {j k : Journal Event} {e : Event} {step : Forced} {l : Literal} {t : List Literal}
  {v : Variable} {depth : Nat}

theorem literal_ofForced : (Event.ofForced step).literal = Residual.literal step := by
  cases step <;> rfl

/-- A forced step is no decision. -/
theorem isDecision_ofForced : (Event.ofForced step).isDecision = false := by
  cases step <;> rfl

/-- One more event is the newest of its variable, and of no other. -/
theorem newest_of_push (h : k.events = j.events.push e) :
    newest k v = if e.literal.var = v then some e else newest j v := by
  rw [newest, h, Array.toList_push, List.reverse_append, List.reverse_singleton,
    List.singleton_append]
  by_cases hv : e.literal.var = v
  · rw [List.find?_cons_of_pos (by simpa using hv), if_pos hv]
  · rw [List.find?_cons_of_neg (by simpa using hv), if_neg hv]
    rfl

/-- A forced step is the newest event on its variable, and changes it for no other. -/
theorem newest_noteForced : newest (Residual.noteForced j step) v =
    if (Residual.literal step).var = v then some (.ofForced step) else newest j v := by
  cases step with
  | unit l => exact newest_of_push (e := .unit l) rfl
  | pure l => exact newest_of_push (e := .pure l) rfl

/-- So is a decision. -/
theorem newest_noteDecision : newest (Residual.noteDecision j l depth) v =
    if l.var = v then some (.decide l depth) else newest j v :=
  newest_of_push (e := .decide l depth) rfl

/-- A forced step makes one literal more true. -/
theorem made_noteForced : made (Residual.noteForced j step) = made j + 1 := by
  cases step <;> simp only [made, Residual.noteForced] <;> omega

/-- So does a decision. -/
theorem made_noteDecision : made (Residual.noteDecision j l depth) = made j + 1 := by
  simp only [made, Residual.noteDecision]
  omega

/-- How many literals were decided to be true is seen from the newest events on their variables. -/
theorem decidedTrue_congr (h : ∀ m ∈ t, newest k m.var = newest j m.var) :
    decidedTrue k t = decidedTrue j t :=
  List.countP_congr fun m hm => by rw [h m hm]

/-- Whether a trail is traced is seen from these events as well. -/
theorem Traced.congr (ht : Traced j t) (h : ∀ m ∈ t, newest k m.var = newest j m.var) :
    Traced k t := by
  intro m hm
  rw [h m hm]
  exact ht m hm

/-- A forced step on a new variable leaves the events on the trail as they are. -/
theorem newest_noteForced_of_ne (hnew : ∀ m ∈ t, m.var ≠ (Residual.literal step).var) :
    ∀ m ∈ t, newest (Residual.noteForced j step) m.var = newest j m.var := by
  intro m hm
  rw [newest_noteForced, if_neg (hnew m hm).symm]

/-- So does a decision on a new variable. -/
theorem newest_noteDecision_of_ne (hnew : ∀ m ∈ t, m.var ≠ l.var) :
    ∀ m ∈ t, newest (Residual.noteDecision j l depth) m.var = newest j m.var := by
  intro m hm
  rw [newest_noteDecision, if_neg (hnew m hm).symm]

/-- One more literal counts if it is positive and its newest event is a decision. -/
theorem decidedTrue_cons (he : newest j l.var = some e) :
    decidedTrue j (l :: t) = decidedTrue j t + (l.positive && e.isDecision).toNat := by
  rw [decidedTrue, List.countP_cons, he, Option.any_some]
  cases l.positive && e.isDecision <;> rfl

/-- A forced literal does not count. -/
theorem decidedTrue_noteForced (hnew : ∀ m ∈ t, m.var ≠ (Residual.literal step).var) :
    decidedTrue (Residual.noteForced j step) (Residual.literal step :: t) = decidedTrue j t := by
  rw [decidedTrue_cons (newest_noteForced.trans (if_pos rfl)), isDecision_ofForced,
    Bool.and_false, decidedTrue_congr (newest_noteForced_of_ne hnew)]
  rfl

/-- A decided literal counts if it is positive. -/
theorem decidedTrue_noteDecision (hnew : ∀ m ∈ t, m.var ≠ l.var) :
    decidedTrue (Residual.noteDecision j l depth) (l :: t) =
      decidedTrue j t + l.positive.toNat := by
  rw [decidedTrue_cons (newest_noteDecision.trans (if_pos rfl)),
    decidedTrue_congr (newest_noteDecision_of_ne hnew)]
  exact congrArg (fun b => decidedTrue j t + b.toNat) (Bool.and_true _)

/-- The trail stays traced when a forced step is noted and its literal put on it. -/
theorem Traced.noteForced (ht : Traced j t) (hnew : ∀ m ∈ t, m.var ≠ (Residual.literal step).var) :
    Traced (Residual.noteForced j step) (Residual.literal step :: t) := by
  refine List.forall_mem_cons.mpr ⟨⟨_, ?_, literal_ofForced⟩, ?_⟩
  · rw [newest_noteForced, if_pos rfl]
  · exact ht.congr (newest_noteForced_of_ne hnew)

/-- So it does with a decision. -/
theorem Traced.noteDecision (ht : Traced j t) (hnew : ∀ m ∈ t, m.var ≠ l.var) :
    Traced (Residual.noteDecision j l depth) (l :: t) := by
  refine List.forall_mem_cons.mpr ⟨⟨.decide l depth, ?_, rfl⟩, ?_⟩
  · rw [newest_noteDecision, if_pos rfl]
  · exact ht.congr (newest_noteDecision_of_ne hnew)

/-! ## Journals that go on -/

/-- The second journal goes on from the first one: with events on some variables only, with
decisions below less than so many others, and with no fewer literals made true. -/
structure Continues (vs : List Variable) (bound : Nat) (j k : Journal Event) : Prop where
  newest_eq : ∀ v, v ∉ vs → newest k v = newest j v
  depth_lt : ∀ l depth, .decide l depth ∈ k.events → .decide l depth ∈ j.events ∨ depth < bound
  made_le : made j ≤ made k

namespace Continues

variable {vs ws : List Variable} {bound limit depth : Nat} {i : Journal Event}

theorem refl (vs : List Variable) (bound : Nat) (j : Journal Event) : Continues vs bound j j :=
  ⟨fun _ _ => rfl, fun _ _ h => .inl h, Nat.le_refl _⟩

theorem trans (h : Continues vs bound i j) (h' : Continues vs bound j k) :
    Continues vs bound i k where
  newest_eq v hv := (h'.newest_eq v hv).trans (h.newest_eq v hv)
  depth_lt l depth hd := (h'.depth_lt l depth hd).elim (h.depth_lt l depth) .inr
  made_le := Nat.le_trans h.made_le h'.made_le

/-- More variables and a greater bound allow for the same continuation. -/
theorem mono (h : Continues vs bound j k) (hvs : vs ⊆ ws) (hbound : bound ≤ limit) :
    Continues ws limit j k where
  newest_eq v hv := h.newest_eq v fun hm => hv (hvs hm)
  depth_lt l depth hd := (h.depth_lt l depth hd).imp_right fun hlt => Nat.lt_of_lt_of_le hlt hbound
  made_le := h.made_le

/-- A forced step on one of the variables continues a journal. -/
theorem noteForced (hv : (Residual.literal step).var ∈ vs) :
    Continues vs bound j (Residual.noteForced j step) where
  newest_eq v hvs := by
    have hne : (Residual.literal step).var ≠ v := fun heq => hvs (heq ▸ hv)
    rw [newest_noteForced, if_neg hne]
  depth_lt l depth hm := by
    cases step with
    | unit m => exact (Array.mem_push.mp hm).elim .inl nofun
    | pure m => exact (Array.mem_push.mp hm).elim .inl nofun
  made_le := by
    rw [made_noteForced]
    exact Nat.le_succ _

/-- So does a decision on one of them below fewer others than the bound. -/
theorem noteDecision (hv : l.var ∈ vs) (hd : depth < bound) :
    Continues vs bound j (Residual.noteDecision j l depth) where
  newest_eq v hvs := by
    have hne : l.var ≠ v := fun heq => hvs (heq ▸ hv)
    rw [newest_noteDecision, if_neg hne]
  depth_lt m d hm := by
    rcases Array.mem_push.mp hm with hm | he
    · exact .inl hm
    · cases he
      exact .inr hd
  made_le := by
    rw [made_noteDecision]
    exact Nat.le_succ _

theorem noteConflict : Continues vs bound j (Residual.noteConflict j) :=
  ⟨fun _ _ => rfl, fun _ _ h => .inl h, Nat.le_refl _⟩

end Continues

end Search

open Search

namespace Residual

variable {f : Formula} {r s found : Residual} {result : Option Residual} {status : Status}
  {j k k' : Journal Event} {l : Literal} {v : Variable} {depth bound : Nat}

/-! ## What a branch does to the journal -/

@[simp] theorem trail_assign : (r.assign l).trail = l :: r.trail := rfl

theorem vars_assign_subset : (r.assign l).vars ⊆ r.vars := fun _ hv => (mem_vars_of_assign hv).1

/-- Propagation notes steps on the variables that are left, and leaves no others. -/
theorem continues_propagate (hp : r.propagate j = (status, s, k)) :
    Continues r.vars bound j k ∧ s.vars ⊆ r.vars := by
  fun_induction Residual.propagate r j with
  | case1 => cases hp; exact ⟨.refl _ _ _, List.Subset.refl _⟩
  | case2 => cases hp; exact ⟨.refl _ _ _, List.Subset.refl _⟩
  | case3 => cases hp; exact ⟨.refl _ _ _, List.Subset.refl _⟩
  | case4 r j _ step hstep _ ih =>
      obtain ⟨hrest, hsub⟩ := ih hp
      have hfirst : Continues r.vars bound j (noteForced j step) :=
        .noteForced (mem_vars_of_forced? hstep)
      exact ⟨hfirst.trans (hrest.mono vars_assign_subset (Nat.le_refl _)),
        List.Subset.trans hsub vars_assign_subset⟩

/-- A decision and the branch below it. -/
theorem continues_branch (hv : v ∈ s.vars) (hsub : s.vars ⊆ r.vars) {p : Bool}
    (hlt : (s.assign ⟨v, p⟩).vars.length < r.vars.length)
    (h : Continues (s.assign ⟨v, p⟩).vars (depth + 1 + (s.assign ⟨v, p⟩).vars.length)
      (noteDecision j ⟨v, p⟩ depth) k) :
    Continues r.vars (depth + r.vars.length) j k := by
  have hdecision : Continues r.vars (depth + r.vars.length) j (noteDecision j ⟨v, p⟩ depth) :=
    .noteDecision (hsub hv) (by omega)
  exact hdecision.trans (h.mono (List.Subset.trans vars_assign_subset hsub) (by omega))

/-- A search notes steps on the variables that are left, below at most as many decisions more as
there are of these. -/
theorem continues_explore (hx : r.explore depth j = (result, k)) :
    Continues r.vars (depth + r.vars.length) j k := by
  fun_induction Residual.explore depth r j generalizing result k with
  | case1 depth r j s k' hp =>
      cases hx
      exact (continues_propagate hp).1
  | case2 depth r j s k' hp =>
      cases hx
      exact (continues_propagate hp).1.trans .noteConflict
  | case3 depth r j s k' hp hb =>
      cases hx
      exact (continues_propagate hp).1
  | case4 depth r j s k' hp v hb hs hv htrue hfalse found k'' he ih =>
      cases hx
      obtain ⟨hfirst, hsub⟩ := continues_propagate hp
      exact hfirst.trans (continues_branch hv hsub htrue (ih he))
  | case5 depth r j s k' hp v hb hs hv htrue hfalse k'' he ih₁ ih₂ =>
      obtain ⟨hfirst, hsub⟩ := continues_propagate hp
      exact (hfirst.trans (continues_branch hv hsub htrue (ih₁ he))).trans
        (continues_branch hv hsub hfalse (ih₂ hx))

/-- A branch does not touch what the events say of the literals that were there before it. -/
theorem newest_of_branch (h : Reached f r) (hv : v ∈ r.vars) {p : Bool}
    (hx : (r.assign ⟨v, p⟩).explore (depth + 1) (noteDecision j ⟨v, p⟩ depth) = (result, k)) :
    ∀ m ∈ r.trail, newest k m.var = newest j m.var := by
  intro m hm
  have hleft : m.var ∉ (r.assign ⟨v, p⟩).vars := fun hmem =>
    (h.new (vars_assign_subset hmem)).2 m hm rfl
  rw [(continues_explore hx).newest_eq _ hleft]
  exact newest_noteDecision_of_ne (h.new hv).2 m hm

/-- A branch makes no fewer literals true than were made before it. -/
theorem made_le_of_branch {p : Bool}
    (hx : (r.assign ⟨v, p⟩).explore (depth + 1) (noteDecision j ⟨v, p⟩ depth) = (result, k)) :
    made j ≤ made k := by
  have hle := (continues_explore hx).made_le
  rw [made_noteDecision] at hle
  exact Nat.le_of_succ_le hle

end Residual

end Clausal
