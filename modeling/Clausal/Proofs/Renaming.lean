import Clausal.Clause.Resolvent
import Clausal.ClauseSet
import Mathlib.Data.List.Forall2

/-!
# The same clauses over other variables

Nothing that is done with clauses looks at the number of a variable except to compare it with
another one.  So two clauses that are alike up to their variables are treated alike, as long as
their variables are ordered alike.

The variables correspond by a relation and not by a map, since a map that keeps the order of all
variables is the identity.  A relation that `KeepsRank` pairs an element with at most one other, in
both directions (`KeepsRank.biUnique`).  `Literal.Matches`, `Clause.Matches` and `ClauseSet.Matches`
carry it on to literals, clauses and working sets.  Every operation on these has one lemma here,
which says that it gives what matches where it is given what matches.
-/

namespace Clausal

open List (Forall₂)
open Ranked (rank)
open Relator (BiUnique)

/-! ## Lists that match -/

section Lists

variable {α β γ δ : Type} {R : α → β → Prop} {S : γ → δ → Prop} {as : List α} {bs : List β}

/-- Tests that agree find elements that match. -/
theorem rel_find? {p : α → Bool} {q : β → Bool} (hpq : ∀ a b, R a b → p a = q b)
    (h : Forall₂ R as bs) : Option.Rel R (as.find? p) (bs.find? q) := by
  induction h with
  | nil => exact .none
  | @cons a b as bs hab _ ih =>
      rw [List.find?_cons, List.find?_cons, hpq a b hab]
      split
      · exact .some hab
      · exact ih

/-- Results that match wherever the elements do are found at elements that match. -/
theorem rel_findSome? {p : α → Option γ} {q : β → Option δ}
    (hpq : ∀ a b, R a b → Option.Rel S (p a) (q b)) (h : Forall₂ R as bs) :
    Option.Rel S (as.findSome? p) (bs.findSome? q) := by
  induction h with
  | nil => exact .none
  | @cons a b as bs hab _ ih =>
      have hfirst := hpq a b hab
      rw [List.findSome?_cons, List.findSome?_cons]
      generalize p a = x, q b = y at hfirst
      cases hfirst with
      | some hs => exact .some hs
      | none => exact ih

theorem rel_head? (h : Forall₂ R as bs) : Option.Rel R as.head? bs.head? := by
  cases h with
  | nil => exact .none
  | cons hab _ => exact .some hab

theorem rel_any {p : α → Bool} {q : β → Bool} (hpq : ∀ a b, R a b → p a = q b)
    (h : Forall₂ R as bs) : as.any p = bs.any q := by
  induction h with
  | nil => rfl
  | cons hab _ ih => rw [List.any_cons, List.any_cons, hpq _ _ hab, ih]

/-- Tests that agree keep elements that match. -/
theorem rel_filter_of_eq {p : α → Bool} {q : β → Bool} (hpq : ∀ a b, R a b → p a = q b)
    (h : Forall₂ R as bs) : Forall₂ R (as.filter p) (bs.filter q) :=
  List.rel_filter (fun a b hab => by simp [hpq a b hab]) h

theorem rel_isEmpty (h : Forall₂ R as bs) : as.isEmpty = bs.isEmpty := by
  cases h <;> rfl

/-- An element of the second list has a partner in the first one. -/
theorem exists_rel_of_mem {b : β} (h : Forall₂ R as bs) (hb : b ∈ bs) : ∃ a ∈ as, R a b := by
  induction h with
  | nil => exact absurd hb List.not_mem_nil
  | @cons a _ as bs hab _ ih =>
      rcases List.mem_cons.mp hb with rfl | hb
      · exact ⟨a, List.mem_cons_self, hab⟩
      · obtain ⟨c, hc, hcb⟩ := ih hb
        exact ⟨c, List.mem_cons_of_mem a hc, hcb⟩

/-- A function that cannot tell partners apart gives the same list for both. -/
theorem map_eq_of_rel {f : α → γ} {g : β → γ} (hfg : ∀ a b, R a b → g b = f a)
    (h : Forall₂ R as bs) : bs.map g = as.map f := by
  induction h with
  | nil => rfl
  | cons hab _ ih => rw [List.map_cons, List.map_cons, hfg _ _ hab, ih]

theorem rel_option_refl {P : α → α → Prop} (h : ∀ a, P a a) (a : Option α) :
    Option.Rel P a a := by
  cases a with
  | none => exact .none
  | some a => exact .some (h a)

/-- Where there is nothing on one side, there is nothing on the other. -/
theorem eq_none_of_rel {a : Option α} {b : Option β} (h : Option.Rel R a b) (ha : a = none) :
    b = none := by
  subst ha
  cases h
  rfl

/-- What is there on one side has a partner on the other. -/
theorem exists_of_rel {a : Option α} {b : Option β} {x : α} (h : Option.Rel R a b)
    (ha : a = some x) : ∃ y, b = some y ∧ R x y := by
  subst ha
  cases h with
  | some hxy => exact ⟨_, rfl, hxy⟩

theorem rel_option_map {f : α → γ} {g : β → δ} {a : Option α} {b : Option β}
    (hfg : ∀ a b, R a b → S (f a) (g b)) (h : Option.Rel R a b) :
    Option.Rel S (a.map f) (b.map g) := by
  cases h with
  | none => exact .none
  | some hab => exact .some (hfg _ _ hab)

theorem rel_option_bind {f : α → Option γ} {g : β → Option δ} {a : Option α} {b : Option β}
    (hfg : ∀ a b, R a b → Option.Rel S (f a) (g b)) (h : Option.Rel R a b) :
    Option.Rel S (a.bind f) (b.bind g) := by
  cases h with
  | none => exact .none
  | some hab => exact hfg _ _ hab

end Lists

/-! ## Relations that keep an order -/

/-- Elements that correspond are ordered alike. -/
def KeepsRank {α β : Type} [Ranked α] [Ranked β] (R : α → β → Prop) : Prop :=
  ∀ ⦃a a'⦄, R a a' → ∀ ⦃b b'⦄, R b b' → (rank a < rank b ↔ rank a' < rank b')

namespace KeepsRank

variable {α β : Type} [Ranked α] [Ranked β] {R : α → β → Prop} {a b : α} {a' b' : β}
  {as : List α} {bs : List β}

/-- Two ranks are equal just if those of the partners are. -/
theorem rank_eq_iff (h : KeepsRank R) (ha : R a a') (hb : R b b') :
    rank a = rank b ↔ rank a' = rank b' := by
  have hlt := h ha hb
  have hgt := h hb ha
  omega

/-- Nothing has two partners, since the order could not tell them apart. -/
theorem biUnique (h : KeepsRank R) : BiUnique R where
  left := fun _ _ _ ha hb => Ranked.rank_inj ((h.rank_eq_iff ha hb).mpr rfl)
  right := fun _ _ _ ha hb => Ranked.rank_inj ((h.rank_eq_iff ha hb).mp rfl)

theorem eq_iff (h : KeepsRank R) (ha : R a a') (hb : R b b') : a = b ↔ a' = b' :=
  Relator.rel_eq h.biUnique ha hb

/-- The new element finds its place at the same position: it is compared with partners only. -/
theorem insert (h : KeepsRank R) (ha : R a a') (hs : Forall₂ R as bs) :
    Forall₂ R (Ascending.insert a as) (Ascending.insert a' bs) := by
  induction hs with
  | nil => exact .cons ha .nil
  | cons hb hs ih =>
      simp only [Ascending.insert, h ha hb, h.rank_eq_iff ha hb]
      split
      · exact .cons ha (.cons hb hs)
      · split
        · exact .cons hb hs
        · exact .cons hb ih

/-- Lists that match are sorted in the same way, and lose the same repetitions. -/
theorem ofList (h : KeepsRank R) (hs : Forall₂ R as bs) :
    Forall₂ R (Ascending.ofList as) (Ascending.ofList bs) :=
  List.rel_foldr (R := R) (P := Forall₂ R) (fun _ _ ha _ _ hs => h.insert ha hs) .nil hs

end KeepsRank

variable {R : Variable → Variable → Prop} {v w : Variable} {l m : Literal}
  {ls ms : List Literal} {a a' b b' c d : Clause} {cs ds : List Clause} {s t : ClauseSet}

/-- The lesser of two variables is the one that corresponds to the lesser of the two others. -/
theorem KeepsRank.min (h : KeepsRank R) {v' w' : Variable} (hv : R v v') (hw : R w w') :
    R (min v w) (min v' w') := by
  have hlt : w.id < v.id ↔ w'.id < v'.id := h hw hv
  have hle : v.id ≤ w.id ↔ v'.id ≤ w'.id := by omega
  show R (if v.id ≤ w.id then v else w) (if v'.id ≤ w'.id then v' else w')
  simp only [hle]
  split
  · exact hv
  · exact hw

/-- The least variables match. -/
theorem KeepsRank.min? (h : KeepsRank R) {vs ws : List Variable} (hs : Forall₂ R vs ws) :
    Option.Rel R vs.min? ws.min? := by
  cases hs with
  | nil => exact .none
  | cons hv hs =>
      rw [List.min?_cons', List.min?_cons']
      exact .some (List.rel_foldl (R := R) (P := R) (fun _ _ hv _ _ hw => h.min hv hw) hv hs)

/-! ## Literals -/

/-- The literals have the same polarity, and their variables correspond. -/
def Literal.Matches (R : Variable → Variable → Prop) (l m : Literal) : Prop :=
  R l.var m.var ∧ l.positive = m.positive

theorem Literal.matches_mk (hv : R v w) (p : Bool) : (⟨v, p⟩ : Literal).Matches R ⟨w, p⟩ :=
  ⟨hv, rfl⟩

/-- Literals that match over the same variables are the same. -/
@[simp] theorem Literal.matches_eq_iff : l.Matches Eq m ↔ l = m := by
  cases l
  cases m
  simp [Matches]

theorem Literal.Matches.neg (h : l.Matches R m) : (-l).Matches R (-m) :=
  ⟨h.1, congrArg (!·) h.2⟩

/-- The order of literals is kept if that of their variables is: the polarities are the same. -/
theorem KeepsRank.literal (h : KeepsRank R) : KeepsRank (Literal.Matches R) := by
  intro l l' hl m m' hm
  have hlt := h hl.1 hm.1
  have hgt := h hm.1 hl.1
  have hp := Bool.toNat_lt l'.positive
  have hq := Bool.toNat_lt m'.positive
  simp only [Variable.rank_eq] at hlt hgt
  simp only [Literal.rank_eq, Literal.code, hl.2, hm.2]
  omega

/-! ## Clauses -/

/-- The literals of the clauses match, one by one. -/
def Clause.Matches (R : Variable → Variable → Prop) (c d : Clause) : Prop :=
  Forall₂ (Literal.Matches R) c.literals d.literals

namespace Clause

/-- Clauses of literals that match are matched, whatever order the literals came in. -/
theorem matches_ofLiterals (h : KeepsRank R) (hs : Forall₂ (Literal.Matches R) ls ms) :
    (ofLiterals ls).Matches R (ofLiterals ms) :=
  h.literal.ofList hs

/-- A clause matches at most one other, in either direction. -/
theorem biUnique_matches (h : KeepsRank R) : BiUnique (Matches R) where
  left := fun _ _ _ ha hb => eq_of_literals_eq (h.literal.biUnique.forall₂.left ha hb)
  right := fun _ _ _ ha hb => eq_of_literals_eq (h.literal.biUnique.forall₂.right ha hb)

/-- A literal and its complement stand side by side in both lists or in none. -/
theorem hasTwin_eq (h : KeepsRank R) (hs : Forall₂ (Literal.Matches R) ls ms) :
    hasTwin ls = hasTwin ms := by
  induction hs with
  | nil => rfl
  | cons hl hs ih =>
      cases hs with
      | nil => rfl
      | cons hm hs =>
          rw [hasTwin, hasTwin, ih, Bool.eq_iff_iff]
          simp only [Bool.or_eq_true, beq_iff_eq, h.eq_iff hl.1 hm.1]

namespace Matches

/-- A clause has a literal just if the other one has its partner. -/
theorem mem_iff (hc : c.Matches R d) (h : KeepsRank R) (hl : l.Matches R m) : l ∈ c ↔ m ∈ d :=
  List.rel_mem h.literal.biUnique hl hc

theorem mem_mk_iff (hc : c.Matches R d) (h : KeepsRank R) (hv : R v w) (p : Bool) :
    (⟨v, p⟩ : Literal) ∈ c ↔ (⟨w, p⟩ : Literal) ∈ d :=
  hc.mem_iff h (Literal.matches_mk hv p)

theorem size_eq (hc : c.Matches R d) : c.size = d.size := hc.length_eq

theorem isEmpty_eq (hc : c.Matches R d) : c.isEmpty = d.isEmpty := rel_isEmpty hc

/-- Tautologies match tautologies. -/
theorem isTautology_eq (hc : c.Matches R d) (h : KeepsRank R) :
    c.isTautology = d.isTautology := hasTwin_eq h hc

/-- A clause mentions a variable just if the other one mentions its partner. -/
theorem mentions_eq (hc : c.Matches R d) (h : KeepsRank R) (hv : R v w) :
    c.mentions v = d.mentions w := by
  simp only [mentions, hc.mem_mk_iff h hv]

/-- The least variables of clauses that match are partners. -/
theorem leastVariable? (hc : c.Matches R d) : Option.Rel R c.leastVariable? d.leastVariable? :=
  rel_option_map (fun _ _ hl => hl.1) (rel_head? hc)

end Matches

/-! ## Resolvents -/

/-- Clauses clash on a variable just if those that match them clash on its partner. -/
theorem clashesOn_eq (h : KeepsRank R) (ha : a.Matches R a') (hb : b.Matches R b')
    (hv : R v w) : a.clashesOn b v = a'.clashesOn b' w := by
  simp only [clashesOn, ha.mem_mk_iff h hv, hb.mem_mk_iff h hv]

/-- What is left of two clauses without a variable matches what is left without its partner. -/
theorem matches_joinWithout (h : KeepsRank R) (ha : a.Matches R a') (hb : b.Matches R b')
    (hv : R v w) : (joinWithout v a b).Matches R (joinWithout w a' b') := by
  refine matches_ofLiterals h (rel_filter_of_eq (fun l m hl => ?_) (List.rel_append ha hb))
  rw [Bool.eq_iff_iff, bne_iff_ne, bne_iff_ne, ne_eq, ne_eq, h.eq_iff hl.1 hv]

/-- Clauses that match have resolvents that match, or none on either side. -/
theorem matches_resolve (h : KeepsRank R) (ha : a.Matches R a') (hb : b.Matches R b')
    (hv : R v w) : Option.Rel (Matches R) (a.resolve b v) (a'.resolve b' w) := by
  rw [resolve, resolve, clashesOn_eq h ha hb hv]
  split
  · exact .some (matches_joinWithout h ha hb hv)
  · exact .none

/-- The resolvents match, and one is passed over as a tautology if the other one is. -/
theorem matches_proper_resolve (h : KeepsRank R) (ha : a.Matches R a') (hb : b.Matches R b')
    (hv : R v w) : Option.Rel (Matches R) ((a.resolve b v).filter fun r => !r.isTautology)
      ((a'.resolve b' w).filter fun r => !r.isTautology) := by
  have hr := matches_resolve h ha hb hv
  generalize a.resolve b v = x, a'.resolve b' w = y at hr
  cases hr with
  | none => exact .none
  | some hr =>
      rw [Option.filter_some, Option.filter_some, hr.isTautology_eq h]
      split
      · exact .some hr
      · exact .none

/-- Clauses that match clash on variables that match, in the same order. -/
theorem rel_clashingVariables (h : KeepsRank R) (ha : a.Matches R a') (hb : b.Matches R b') :
    Forall₂ R (a.clashingVariables b) (a'.clashingVariables b') := by
  refine h.ofList (List.rel_map (fun _ _ hl => hl.1) (rel_filter_of_eq (fun l m hl => ?_) ha))
  rw [decide_eq_decide]
  exact hb.mem_iff h hl.neg

end Clause

/-! ## Working sets -/

/-- The clauses of the sets match, one by one. -/
def ClauseSet.Matches (R : Variable → Variable → Prop) (s t : ClauseSet) : Prop :=
  Forall₂ (Clause.Matches R) s.toList t.toList

namespace ClauseSet.Matches

/-- A clause is in the set just if the one that it matches is in the other set. -/
theorem mem_iff (hs : s.Matches R t) (h : KeepsRank R) (hc : c.Matches R d) :
    c ∈ s.toList ↔ d ∈ t.toList :=
  List.rel_mem (Clause.biUnique_matches h) hc hs

/-- Looking up a clause and looking up the one that it matches give the same answer. -/
theorem contains_eq (hs : s.Matches R t) (h : KeepsRank R) (hc : c.Matches R d) :
    s.contains c = t.contains d := by
  rw [Bool.eq_iff_iff, contains_iff, contains_iff, hs.mem_iff h hc]

theorem isEmpty_eq (hs : s.Matches R t) : s.isEmpty = t.isEmpty := by
  have hlist : s.toList.isEmpty = t.toList.isEmpty := rel_isEmpty hs
  rw [Bool.eq_iff_iff, isEmpty_iff, isEmpty_iff, ← List.isEmpty_iff, hlist, List.isEmpty_iff]

/-- A clause that is new to one set is new to the other, so both grow or neither does. -/
theorem insert (hs : s.Matches R t) (h : KeepsRank R) (hc : c.Matches R d) :
    (s.insert c).Matches R (t.insert d) := by
  rw [Matches, toList_insert, toList_insert]
  simp only [hs.mem_iff h hc]
  split
  · exact hs
  · exact List.rel_append hs (.cons hc .nil)

/-- Putting in clauses that match leaves sets that match. -/
theorem insertAll (hs : s.Matches R t) (h : KeepsRank R)
    (hcs : Forall₂ (Clause.Matches R) cs ds) : (s.insertAll cs).Matches R (t.insertAll ds) :=
  List.rel_foldl (R := Clause.Matches R) (P := ClauseSet.Matches R)
    (fun _ _ hs _ _ hc => hs.insert h hc) hs hcs

theorem empty : ClauseSet.empty.Matches R ClauseSet.empty := .nil

/-- Sets of clauses that match are sets that match. -/
theorem ofList (h : KeepsRank R) (hcs : Forall₂ (Clause.Matches R) cs ds) :
    (ClauseSet.ofList cs).Matches R (ClauseSet.ofList ds) :=
  empty.insertAll h hcs

/-- The distinct clauses that are no tautologies match. -/
theorem ofProper (h : KeepsRank R) (hcs : Forall₂ (Clause.Matches R) cs ds) :
    (ClauseSet.ofList (cs.filter fun c => !c.isTautology)).Matches R
      (ClauseSet.ofList (ds.filter fun c => !c.isTautology)) :=
  ofList h (rel_filter_of_eq (fun _ _ hc => by rw [hc.isTautology_eq h]) hcs)

end ClauseSet.Matches

end Clausal
