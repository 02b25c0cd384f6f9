import Clausal.Search.Residual

/-!
# Least variables and pure literals

A search chooses among the literals that are left twice: a pure literal of the least
variable, and a least variable to branch on.  It does so once through a table of polarities
by position and a minimum, and once through the ascending list of variables.  Both ways choose
alike (`pureLiteral?_eq`, `leastVariable?_eq`).

A choice is pinned down by what it is (`IsLeastPure`), so the two ways are compared with that
and never with each other.
-/

namespace Clausal

namespace Search

variable {ls : List Literal} {l m : Literal} {v : Variable} {width : Nat}

/-! ## The least variable -/

/-- The least element of a list heads the ascending list of it. -/
theorem head?_ofList_eq_some {α : Type} [Ranked α] {a : α} {as : List α} (ha : a ∈ as)
    (hle : ∀ b ∈ as, Ranked.rank a ≤ Ranked.rank b) : (Ascending.ofList as).head? = some a := by
  have hasc := Ascending.ofList_ascending as
  cases h : Ascending.ofList as with
  | nil =>
      have hm := Ascending.mem_ofList.mpr ha
      rw [h] at hm
      exact absurd hm List.not_mem_nil
  | cons b bs =>
      have hb : b ∈ as := Ascending.mem_ofList.mp (h ▸ List.mem_cons_self)
      have hab : Ranked.rank b ≤ Ranked.rank a :=
        (h ▸ hasc).rank_head_le (h ▸ Ascending.mem_ofList.mpr ha)
      rw [List.head?_cons, Ranked.rank_inj (Nat.le_antisymm hab (hle b hb))]

/-- The minimum of the variables heads their ascending list. -/
theorem leastVariable?_eq (ls : List Literal) :
    leastVariable? ls = (Ascending.ofList (ls.map Literal.var)).head? := by
  rw [leastVariable?]
  cases h : (ls.map Literal.var).min? with
  | none => rw [List.min?_eq_none_iff.mp h]; rfl
  | some v =>
      obtain ⟨hv, hle⟩ := Variable.min?_spec h
      exact (head?_ofList_eq_some hv hle).symm

/-! ## Pure literals -/

/-- The literal is left and its complement is not, and no other such literal is over a
lesser variable. -/
structure IsLeastPure (ls : List Literal) (l : Literal) : Prop where
  mem : l ∈ ls
  neg_not_mem : -l ∉ ls
  least : ∀ m ∈ ls, -m ∉ ls → l.var.id ≤ m.var.id

/-- There is one least pure literal, for both literals of a variable are not pure. -/
theorem IsLeastPure.eq (hl : IsLeastPure ls l) (hm : IsLeastPure ls m) : l = m := by
  have hid := Nat.le_antisymm (hl.least m hm.mem hm.neg_not_mem)
    (hm.least l hl.mem hl.neg_not_mem)
  rcases Literal.eq_or_eq_neg (Variable.eq_of_id_eq hid) with he | he
  · exact he
  · exact absurd (he ▸ hl.mem) hm.neg_not_mem

/-- The pure literal over a variable is the one that is left without its complement. -/
theorem pureOver?_eq_some :
    Residual.pureOver? ls v = some l ↔ l.var = v ∧ l ∈ ls ∧ -l ∉ ls := by
  rw [Residual.pureOver?]
  split
  · next ht hf =>
      rw [decide_eq_true_eq] at ht
      rw [decide_eq_false_iff_not] at hf
      constructor
      · rintro ⟨⟩
        exact ⟨rfl, ht, hf⟩
      · rintro ⟨rfl, hl, hn⟩
        cases l with
        | mk u p => cases p with
          | true => rfl
          | false => exact absurd ht hn
  · next ht hf =>
      rw [decide_eq_false_iff_not] at ht
      rw [decide_eq_true_eq] at hf
      constructor
      · rintro ⟨⟩
        exact ⟨rfl, hf, ht⟩
      · rintro ⟨rfl, hl, hn⟩
        cases l with
        | mk u p => cases p with
          | true => exact absurd hf hn
          | false => rfl
  · next hne hne' =>
      refine ⟨nofun, ?_⟩
      rintro ⟨rfl, hl, hn⟩
      cases l with
      | mk u p => cases p with
        | true => exact absurd (decide_eq_false hn) (hne (decide_eq_true hl))
        | false => exact absurd (decide_eq_true hl) (hne' (decide_eq_false hn))

theorem isLeastPure_of_findSome? {vs : List Variable} (hasc : Ascending vs)
    (hvs : ∀ m ∈ ls, m.var ∈ vs) (h : vs.findSome? (Residual.pureOver? ls) = some l) :
    IsLeastPure ls l := by
  obtain ⟨before, v, after, hsplit, hv, hbefore⟩ := List.findSome?_eq_some_iff.mp h
  obtain ⟨rfl, hmem, hneg⟩ := pureOver?_eq_some.mp hv
  refine ⟨hmem, hneg, fun m hm hmn => ?_⟩
  have hmv := hvs m hm
  rw [hsplit, List.mem_append] at hmv
  rcases hmv with hb | ha
  · have hnone := hbefore m.var hb
    rw [pureOver?_eq_some.mpr ⟨rfl, hm, hmn⟩] at hnone
    cases hnone
  · rw [hsplit] at hasc
    exact Ascending.rank_head_le (List.pairwise_append.mp hasc).2.1 ha

/-! ## The table of polarities -/

/-- The polarities of a position in some literals. -/
def polaritiesAt (ls : List Literal) (i : Nat) : Polarities where
  positive := ls.any fun l => l.var.index == i && l.positive
  negative := ls.any fun l => l.var.index == i && !l.positive

/-- Each slot of the table collects the polarities of its variable. -/
theorem foldl_polarities {i : Nat} : ∀ {ls : List Literal} {t : Array Polarities},
    (ls.foldl (fun t l => t.modify l.var.index fun p => p.add l.positive) t)[i]? =
      t[i]?.map fun p =>
        ⟨p.positive || (polaritiesAt ls i).positive, p.negative || (polaritiesAt ls i).negative⟩
  | [], t => by simp [polaritiesAt]
  | l :: ls, t => by
      rw [List.foldl_cons, foldl_polarities, Array.getElem?_modify]
      by_cases hi : l.var.index = i
      · rw [if_pos hi, Option.map_map]
        congr 1
        funext p
        cases hp : l.positive <;>
          simp [Polarities.add, polaritiesAt, hi, hp]
      · have hb : (l.var.index == i) = false := beq_false_of_ne hi
        simp [polaritiesAt, hi, hb]

theorem size_polarities : (polarities width ls).size = width := by
  have hfoldl : ∀ (ls : List Literal) (t : Array Polarities),
      (ls.foldl (fun t l => t.modify l.var.index fun p => p.add l.positive) t).size = t.size := by
    intro ls
    induction ls with
    | nil => exact fun t => rfl
    | cons l ls ih => exact fun t => (ih _).trans Array.size_modify
  rw [polarities, hfoldl, Array.size_replicate]

theorem polarities_getElem? {i : Nat} (hi : i < width) :
    (polarities width ls)[i]? = some (polaritiesAt ls i) := by
  rw [polarities, foldl_polarities, Array.getElem?_replicate, if_pos hi]
  simp

theorem polaritiesAt_positive_iff :
    (polaritiesAt ls v.index).positive = true ↔ (⟨v, true⟩ : Literal) ∈ ls := by
  simp only [polaritiesAt, List.any_eq_true, Bool.and_eq_true, beq_iff_eq]
  constructor
  · rintro ⟨⟨u, p⟩, hl, hu, rfl⟩
    cases Variable.eq_of_index_eq hu
    exact hl
  · intro hl
    exact ⟨_, hl, rfl, rfl⟩

theorem polaritiesAt_negative_iff :
    (polaritiesAt ls v.index).negative = true ↔ (⟨v, false⟩ : Literal) ∈ ls := by
  simp only [polaritiesAt, List.any_eq_true, Bool.and_eq_true, beq_iff_eq, Bool.not_eq_true']
  constructor
  · rintro ⟨⟨u, p⟩, hl, hu, rfl⟩
    cases Variable.eq_of_index_eq hu
    exact hl
  · intro hl
    exact ⟨_, hl, rfl, rfl⟩

/-- A position is pure when one literal of its variable is left without the other. -/
theorem isPure_iff : (polaritiesAt ls v.index).isPure = true ↔
    (⟨v, (polaritiesAt ls v.index).positive⟩ : Literal) ∈ ls ∧
      (⟨v, !(polaritiesAt ls v.index).positive⟩ : Literal) ∉ ls := by
  rw [Polarities.isPure, bne_iff_ne]
  cases hp : (polaritiesAt ls v.index).positive with
  | true =>
      rw [Bool.not_true, ← polaritiesAt_positive_iff, ← polaritiesAt_negative_iff, hp]
      simp
  | false =>
      rw [Bool.not_false, ← polaritiesAt_positive_iff, ← polaritiesAt_negative_iff, hp]
      simp

/-- A pure literal is found at the position of its variable. -/
theorem isPure_of_mem (hl : l ∈ ls) (hn : -l ∉ ls) :
    (polaritiesAt ls l.var.index).isPure = true := by
  cases l with
  | mk v p =>
      have hneg : -(⟨v, p⟩ : Literal) = ⟨v, !p⟩ := rfl
      rw [hneg] at hn
      rw [isPure_iff]
      cases hp : (polaritiesAt ls v.index).positive with
      | true =>
          have ht := polaritiesAt_positive_iff.mp hp
          cases p with
          | true => exact ⟨hl, hn⟩
          | false => exact absurd ht hn
      | false =>
          have ht : (⟨v, true⟩ : Literal) ∉ ls := fun h => by
            rw [polaritiesAt_positive_iff.mpr h] at hp
            cases hp
          cases p with
          | true => exact absurd hl ht
          | false => exact ⟨hl, ht⟩

theorem exists_index_of_isPure {i : Nat} (h : (polaritiesAt ls i).isPure = true) :
    ∃ l ∈ ls, l.var.index = i := by
  refine Classical.byContradiction fun hn => ?_
  have hne : ∀ l ∈ ls, (l.var.index == i) = false := fun l hl =>
    beq_false_of_ne fun he => hn ⟨l, hl, he⟩
  have hpos : (polaritiesAt ls i).positive = false :=
    List.any_eq_false.mpr fun l hl => by simp [hne l hl]
  have hneg : (polaritiesAt ls i).negative = false :=
    List.any_eq_false.mpr fun l hl => by simp [hne l hl]
  rw [Polarities.isPure, hpos, hneg] at h
  cases h

theorem findIdx?_eq_some {i : Nat} (h : (polarities width ls).findIdx? Polarities.isPure = some i) :
    i < width ∧ (polaritiesAt ls i).isPure = true ∧
      ∀ k < i, ¬ (polaritiesAt ls k).isPure = true := by
  obtain ⟨hlt, hpure, hbefore⟩ := Array.findIdx?_eq_some_iff_getElem.mp h
  have hi : i < width := by simpa only [size_polarities] using hlt
  have hget : ∀ (k : Nat) (hk : k < (polarities width ls).size), k < width →
      (polarities width ls)[k] = polaritiesAt ls k := fun k hk hkw =>
    Option.some.inj ((Array.getElem?_eq_getElem hk).symm.trans (polarities_getElem? hkw))
  refine ⟨hi, hget i hlt hi ▸ hpure, fun k hk => ?_⟩
  exact hget k (Nat.lt_trans hk hlt) (Nat.lt_trans hk hi) ▸ hbefore k hk

/-- The position that is found is that of a variable, with the polarity that it is left with. -/
theorem pureLiteral?_of_findIdx? {i : Nat}
    (h : (polarities width ls).findIdx? Polarities.isPure = some i) :
    ∃ v, v.index = i ∧ pureLiteral? width ls = some ⟨v, (polaritiesAt ls i).positive⟩ := by
  obtain ⟨hlt, hpure, _⟩ := findIdx?_eq_some h
  obtain ⟨l, _, rfl⟩ := exists_index_of_isPure hpure
  refine ⟨l.var, rfl, ?_⟩
  simp only [pureLiteral?, h, polarities_getElem? hlt, Variable.ofIndex?_index]

theorem isLeastPure_of_pureLiteral? (h : pureLiteral? width ls = some l) : IsLeastPure ls l := by
  cases hi : (polarities width ls).findIdx? Polarities.isPure with
  | none => simp [pureLiteral?, hi] at h
  | some i =>
      obtain ⟨v, rfl, hv⟩ := pureLiteral?_of_findIdx? hi
      obtain ⟨_, hpure, hbefore⟩ := findIdx?_eq_some hi
      rw [hv, Option.some.injEq] at h
      subst h
      obtain ⟨hmem, hneg⟩ := isPure_iff.mp hpure
      refine ⟨hmem, hneg, fun m hm hmn => Nat.le_of_not_lt fun hlt => ?_⟩
      have hindex : m.var.index < v.index := by
        have hm := m.var.index_add_one
        have hv := v.index_add_one
        have hlt : m.var.id < v.id := hlt
        omega
      exact hbefore _ hindex (isPure_of_mem hm hmn)

theorem exists_pureLiteral? (hl : l ∈ ls) (hn : -l ∉ ls) (hwidth : l.var.index < width) :
    ∃ m, pureLiteral? width ls = some m := by
  cases hi : (polarities width ls).findIdx? Polarities.isPure with
  | none =>
      have hmem : polaritiesAt ls l.var.index ∈ polarities width ls :=
        Array.mem_of_getElem? (polarities_getElem? hwidth)
      have hfalse := Array.findIdx?_eq_none_iff.mp hi _ hmem
      rw [isPure_of_mem hl hn] at hfalse
      cases hfalse
  | some i =>
      obtain ⟨v, _, hv⟩ := pureLiteral?_of_findIdx? hi
      exact ⟨_, hv⟩

/-- The table of polarities and the ascending list of variables lead to the same pure
literal. -/
theorem pureLiteral?_eq (hwidth : ∀ m ∈ ls, m.var.index < width) :
    pureLiteral? width ls =
      (Ascending.ofList (ls.map Literal.var)).findSome? (Residual.pureOver? ls) := by
  have hvars : ∀ m ∈ ls, m.var ∈ Ascending.ofList (ls.map Literal.var) := fun m hm =>
    Ascending.mem_ofList.mpr (List.mem_map_of_mem hm)
  have hasc := Ascending.ofList_ascending (ls.map Literal.var)
  cases hr : (Ascending.ofList (ls.map Literal.var)).findSome? (Residual.pureOver? ls) with
  | some m =>
      have hm := isLeastPure_of_findSome? hasc hvars hr
      obtain ⟨l, hl⟩ := exists_pureLiteral? hm.mem hm.neg_not_mem (hwidth m hm.mem)
      rw [hl, (isLeastPure_of_pureLiteral? hl).eq hm]
  | none =>
      cases hl : pureLiteral? width ls with
      | none => rfl
      | some l =>
          have hp := isLeastPure_of_pureLiteral? hl
          have hnone := List.findSome?_eq_none_iff.mp hr l.var (hvars l hp.mem)
          rw [pureOver?_eq_some.mpr ⟨rfl, hp.mem, hp.neg_not_mem⟩] at hnone
          cases hnone

end Search

end Clausal
