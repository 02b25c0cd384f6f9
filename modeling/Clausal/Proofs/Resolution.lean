import Clausal.Proofs.Projection

/-!
# What a resolvent says

*Of clauses that are no tautologies* (`Clause.resolve_exact`).  Their literals are over variables
that ascend with them (`Clause.ascending_map_var`), so the variables on which two of them clash
stand in the literals in ascending order, and none has to be dropped.  A resolvent says of the other
variables what the two clauses say together: a literal that makes it hold is in one of them, and the
other one is made to hold by its literal of the variable.

*Of any two clauses* (`Clause.follows_iff`).  The definition in words takes one pair of
complementary literals away, `Clause.joinCutting`, and what is left follows from the two clauses
whatever they are.  A resolvent has no literal of its variable at all.  The two are the same unless
the clauses share a literal of the variable, which takes a tautology.  Where they share one, the
resolvent follows only if it is a tautology itself: otherwise a valuation that makes the shared
literal true and the resolvent false satisfies both clauses.
-/

namespace Clausal

namespace Clause

variable {a b c r : Clause} {v : Variable} {l : Literal}

/-! ## The variables on which two clauses clash -/

/-- The variables of a clause that is no tautology ascend. -/
theorem ascending_map_var (ht : c.isTautology = false) :
    Ascending (c.literals.map Literal.var) := by
  refine List.pairwise_map.mpr (c.ascending.imp_of_mem fun {l m} hl hm hlt => ?_)
  have hne : l.var ≠ m.var := by
    intro hv
    rcases Literal.eq_or_eq_neg hv with rfl | rfl
    · exact Nat.lt_irrefl _ hlt
    · rw [isTautology_iff.mpr ⟨m, hm, hl⟩] at ht
      cases ht
  have hid : l.var.id ≠ m.var.id := mt Variable.eq_of_id_eq hne
  have hp := Bool.toNat_lt l.positive
  have hq := Bool.toNat_lt m.positive
  simp only [Literal.rank_eq, Literal.code] at hlt
  simp only [Variable.rank_eq]
  omega

/-- The variables on which a clause that is no tautology clashes are those of the literals whose
complements the other clause holds, as they stand in it. -/
theorem clashingVariables_eq_map (ha : a.isTautology = false) : a.clashingVariables b =
    (a.literals.filter fun l => decide (-l ∈ b)).map Literal.var :=
  Ascending.ofList_eq_self ((ascending_map_var ha).sublist (List.filter_sublist.map _))

/-! ## Two clauses that are no tautologies -/

theorem isSome_resolve_iff : (a.resolve b v).isSome = true ↔ v ∈ a.clashingVariables b := by
  rw [mem_clashingVariables_iff, resolve]
  split
  · next h => simp [h]
  · next h => simp [h]

theorem mentions_resolve (h : a.resolve b v = some r) : r.mentions v = false := by
  rw [Bool.eq_false_iff, ne_eq, mentions_iff]
  rintro ⟨l, hl, hv⟩
  exact var_ne_of_mem_resolve h hl hv

/-- The clauses of a resolvent hold complementary literals of its variable. -/
theorem exists_clash (h : a.resolve b v = some r) :
    ∃ p, (⟨v, p⟩ : Literal) ∈ a ∧ (⟨v, !p⟩ : Literal) ∈ b := by
  rcases clashesOn_iff.mp (resolve_eq_some_iff.mp h).1 with hp | hn
  · exact ⟨true, hp⟩
  · exact ⟨false, hn⟩

/-- A literal of one clause makes a resolvent hold.  The other clause holds with it where its own
literal of the variable is made true. -/
theorem exists_holds_set_of_resolve {w : Valuation} (h : a.resolve b v = some r)
    (hr : r.Holds w) : ∃ p, a.Holds (w.set v p) ∧ b.Holds (w.set v p) := by
  obtain ⟨l, hl, hw⟩ := hr
  have hv : l.var ≠ v := var_ne_of_mem_resolve h hl
  obtain ⟨p, hpa, hpb⟩ := exists_clash h
  rcases mem_of_mem_resolve h hl with hla | hlb
  · exact ⟨!p, holds_set_of_other hla hv hw, holds_set_of_mem hpb⟩
  · exact ⟨p, holds_set_of_mem hpa, holds_set_of_other hlb hv hw⟩

/-- A resolvent holds where some value of the variable makes the two clauses hold. -/
theorem holds_resolve_iff (ha : a.isTautology = false) (hb : b.isTautology = false)
    (h : a.resolve b v = some r) (w : Valuation) : r.Holds w ↔
      (a.Holds (w.set v true) ∧ b.Holds (w.set v true)) ∨
        (a.Holds (w.set v false) ∧ b.Holds (w.set v false)) := by
  have hother : ∀ p, r.Holds (w.set v p) ↔ r.Holds w := fun p =>
    holds_set_iff fun _ hl => var_ne_of_mem_resolve h hl
  constructor
  · intro hr
    obtain ⟨p, hp⟩ := exists_holds_set_of_resolve h hr
    cases p with
    | true => exact .inl hp
    | false => exact .inr hp
  · rintro (⟨haw, hbw⟩ | ⟨haw, hbw⟩)
    · exact (hother true).mp (holds_resolve ha hb h haw hbw)
    · exact (hother false).mp (holds_resolve ha hb h haw hbw)

/-- What resolving two clauses on a variable gives. -/
structure ResolvesExactly (a b : Clause) (v : Variable) : Prop where
  /-- The clauses clash on the variables of those literals of the first whose complements the
  second holds, in the order of the literals. -/
  clashing_eq : a.clashingVariables b =
    (a.literals.filter fun l => decide (-l ∈ b)).map Literal.var
  /-- The variables come in ascending order, and none comes twice. -/
  clashing_ascending : Ascending (a.clashingVariables b)
  /-- The other way round the clauses clash on the same variables. -/
  clashing_comm : a.clashingVariables b = b.clashingVariables a
  /-- The other way round the resolvent is the same. -/
  resolvent_comm : a.resolve b v = b.resolve a v
  /-- There is a resolvent exactly if the clauses clash on the variable. -/
  isSome_iff : (a.resolve b v).isSome = true ↔ v ∈ a.clashingVariables b
  /-- A resolvent holds exactly where some value of the variable makes both clauses hold. -/
  holds_iff : ∀ r, a.resolve b v = some r → ∀ w : Valuation, r.Holds w ↔
    (a.Holds (w.set v true) ∧ b.Holds (w.set v true)) ∨
      (a.Holds (w.set v false) ∧ b.Holds (w.set v false))
  /-- A resolvent does not mention the variable. -/
  mentions_eq_false : ∀ r, a.resolve b v = some r → r.mentions v = false
  /-- A resolvent is no tautology exactly if the clauses clash on this variable only. -/
  isTautology_eq_false_iff : ∀ r, a.resolve b v = some r →
    (r.isTautology = false ↔ a.clashingVariables b = [v])
  /-- A clause has no resolvent with itself. -/
  resolvent_self : a.resolve a v = none

/-- Resolving two clauses that are no tautologies is exact on every variable. -/
theorem resolve_exact (ha : a.isTautology = false) (hb : b.isTautology = false) (v : Variable) :
    ResolvesExactly a b v where
  clashing_eq := clashingVariables_eq_map ha
  clashing_ascending := Ascending.ofList_ascending _
  clashing_comm := clashingVariables_comm
  resolvent_comm := resolve_comm
  isSome_iff := isSome_resolve_iff
  holds_iff := fun _ h => holds_resolve_iff ha hb h
  mentions_eq_false := fun _ h => mentions_resolve h
  isTautology_eq_false_iff := fun _ h => isTautology_resolve_eq_false_iff ha hb h
  resolvent_self := resolve_self ha

/-- `x1 ∨ x2 ∨ x3` and `¬x1 ∨ ¬x2` clash twice, so their resolvent on the first variable is a
tautology. -/
theorem resolve_exact_clashingTwice : ∃ a b r : Clause,
    a.literals = [⟨.x1, true⟩, ⟨.x2, true⟩, ⟨.x3, true⟩] ∧
    b.literals = [⟨.x1, false⟩, ⟨.x2, false⟩] ∧
    a.isTautology = false ∧ b.isTautology = false ∧ a.resolve b .x1 = some r ∧
    a.clashingVariables b = [.x1, .x2] ∧ r.isTautology = true ∧ ResolvesExactly a b .x1 := by
  refine ⟨.ofLiterals [⟨.x1, true⟩, ⟨.x2, true⟩, ⟨.x3, true⟩],
    .ofLiterals [⟨.x1, false⟩, ⟨.x2, false⟩], _, rfl, rfl, rfl, rfl, rfl, rfl, rfl, ?_⟩
  exact resolve_exact rfl rfl .x1

/-! ## Any two clauses -/

/-- The literals of two clauses without one of the first and its complement in the second. -/
def joinCutting (l : Literal) (a b : Clause) : Clause :=
  ofLiterals ((a.literals.filter fun m => m != l) ++ b.literals.filter fun m => m != -l)

theorem mem_joinCutting {m : Literal} :
    m ∈ joinCutting l a b ↔ (m ∈ a ∧ m ≠ l) ∨ (m ∈ b ∧ m ≠ -l) := by
  simp only [joinCutting, mem_ofLiterals, List.mem_append, List.mem_filter, bne_iff_ne,
    mem_literals]

/-- What is left without a pair of complementary literals follows from the two clauses. -/
theorem holds_joinCutting {w : Valuation} (ha : a.Holds w) (hb : b.Holds w) :
    (joinCutting l a b).Holds w := by
  obtain ⟨m, hma, hmw⟩ := ha
  obtain ⟨n, hnb, hnw⟩ := hb
  by_cases hl : l.Holds w
  · refine ⟨n, mem_joinCutting.mpr (.inr ⟨hnb, ?_⟩), hnw⟩
    rintro rfl
    exact Literal.holds_neg.mp hnw hl
  · refine ⟨m, mem_joinCutting.mpr (.inl ⟨hma, ?_⟩), hmw⟩
    rintro rfl
    exact hl hmw

/-- No other literal of the variable is left if neither clause holds both. -/
theorem joinWithout_eq_joinCutting (ha : -l ∉ a) (hb : l ∉ b) :
    joinWithout l.var a b = joinCutting l a b := by
  refine ext_mem fun m => ?_
  rw [mem_joinWithout, mem_joinCutting]
  constructor
  · rintro ⟨hma | hmb, hv⟩
    · exact .inl ⟨hma, fun he => hv (congrArg Literal.var he)⟩
    · exact .inr ⟨hmb, fun he => hv (he ▸ Literal.var_neg l)⟩
  · rintro (⟨hma, hne⟩ | ⟨hmb, hne⟩)
    · refine ⟨.inl hma, fun hv => ?_⟩
      rcases Literal.eq_or_eq_neg hv with rfl | rfl
      · exact hne rfl
      · exact ha hma
    · refine ⟨.inr hmb, fun hv => ?_⟩
      rcases Literal.eq_or_eq_neg hv with rfl | rfl
      · exact hb hmb
      · exact hne rfl

/-- A clause that is no tautology is false somewhere: where its negative literals have their
variables true and all other variables are false. -/
theorem exists_not_holds (ht : c.isTautology = false) : ∃ w, ¬c.Holds w := by
  refine ⟨fun u => decide ((⟨u, false⟩ : Literal) ∈ c), ?_⟩
  rintro ⟨⟨u, p⟩, hl, hw⟩
  cases p with
  | false => exact of_decide_eq_false hw hl
  | true => exact not_mem_of_mem ht hl (of_decide_eq_true hw)

/-- A resolvent follows from the two clauses exactly if it is a tautology or they share no literal
of the variable. -/
theorem follows_iff (h : a.resolve b v = some r) :
    (∀ w, a.Holds w → b.Holds w → r.Holds w) ↔
      r.isTautology = true ∨ ∀ p, (⟨v, p⟩ : Literal) ∈ a → (⟨v, p⟩ : Literal) ∉ b := by
  constructor
  · intro hfollows
    cases ht : r.isTautology with
    | true => exact .inl rfl
    | false =>
        refine .inr fun p hpa hpb => ?_
        obtain ⟨w, hw⟩ := exists_not_holds ht
        have hr := hfollows (w.set v p) (holds_set_of_mem hpa) (holds_set_of_mem hpb)
        exact hw ((holds_set_iff fun _ hl => var_ne_of_mem_resolve h hl).mp hr)
  · rintro (ht | hshare) w ha hb
    · exact holds_of_isTautology w ht
    · obtain ⟨p, hpa, hpb⟩ := exists_clash h
      obtain ⟨_, rfl⟩ := resolve_eq_some_iff.mp h
      have hcut := joinWithout_eq_joinCutting (l := ⟨v, p⟩) (fun hna => hshare _ hna hpb)
        (hshare p hpa)
      rw [hcut]
      exact holds_joinCutting ha hb

/-- The resolvent of `x1 ∨ ¬x1` and `¬x1 ∨ x2` does not follow from them. -/
theorem follows_iff_sharedLiteral : ∃ a b r : Clause,
    a.literals = [⟨.x1, false⟩, ⟨.x1, true⟩] ∧ b.literals = [⟨.x1, false⟩, ⟨.x2, true⟩] ∧
    r.literals = [⟨.x2, true⟩] ∧ a.resolve b .x1 = some r ∧
    ¬(∀ w, a.Holds w → b.Holds w → r.Holds w) := by
  refine ⟨.ofLiterals [⟨.x1, true⟩, ⟨.x1, false⟩], .ofLiterals [⟨.x1, false⟩, ⟨.x2, true⟩],
    .ofLiterals [⟨.x2, true⟩], rfl, rfl, rfl, rfl, ?_⟩
  rw [follows_iff (v := .x1) rfl]
  decide

/-- A tautology has the empty clause as resolvent with itself, so a resolvent need not follow from
the clauses. -/
theorem not_follows_resolve : ¬∀ (a b r : Clause) (v : Variable), a.resolve b v = some r →
    ∀ w, a.Holds w → b.Holds w → r.Holds w := by
  intro hfollows
  have hself : (ofLiterals [⟨.x1, true⟩, ⟨.x1, false⟩]).resolve
      (ofLiterals [⟨.x1, true⟩, ⟨.x1, false⟩]) .x1 = some empty := rfl
  have hholds := holds_of_isTautology (fun _ => true)
    (c := ofLiterals [⟨.x1, true⟩, ⟨.x1, false⟩]) rfl
  exact not_holds_empty _ (hfollows _ _ _ _ hself _ hholds hholds)

end Clause

end Clausal
