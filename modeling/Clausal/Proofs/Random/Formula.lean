import Clausal.Proofs.Random.Samples
import Mathlib.Data.List.Perm.Basic

/-!
# The shape of random formulas

Of the generator only one thing is assumed: a sample that comes to an end holds distinct numbers,
as many as asked for and all of them below the bound (`Generator.SamplesDistinct`).  A formula is
then drawn just where its shape is possible and each sample comes to an end, and it has the shape
that was asked for (`Generator.formula_drawsShape`).  The words of every source make such a
generator.

* No number of a sample is dropped where it becomes a variable, also at the largest number that
  names one (`Variable.map_index_filterMap_ofIndex?`).
* No literal is lost where the clause is put in order (`Clause.literals_ofLiterals_perm`).
* The declared range is not widened (`Formula.numVariables_addAll`).

What `i + k` clauses draw splits into what the first `i` draw and what the others draw from there on
(`Generator.clauses_add`).  So fewer clauses from the same state are the first ones of more, and
nothing but a sample without an end keeps a formula of a possible shape from being drawn.
-/

namespace Clausal

/-! ## Clauses over distinct variables -/

theorem Variable.ofIndex?_of_lt {i : Nat} (h : i < maxId) :
    ∃ v, ofIndex? i = some v ∧ v.index = i :=
  ⟨⟨i + 1, Nat.succ_pos i, h⟩, ofId?_eq_some.mpr rfl, rfl⟩

/-- Where all positions are those of variables, none is dropped. -/
theorem Variable.map_index_filterMap_ofIndex? : ∀ {positions : List Nat},
    (∀ i ∈ positions, i < maxId) → (positions.filterMap ofIndex?).map index = positions
  | [], _ => rfl
  | i :: positions, h => by
      obtain ⟨hi, hrest⟩ := List.forall_mem_cons.mp h
      obtain ⟨v, hv, rfl⟩ := ofIndex?_of_lt hi
      rw [List.filterMap_cons_some hv, List.map_cons, map_index_filterMap_ofIndex? hrest]

/-- A clause of so many literals, over as many of the variables up to `n`. -/
structure Clause.HasWidth (n width : Nat) (c : Clause) : Prop where
  /-- There are so many literals. -/
  size_eq : c.size = width
  /-- No two literals are over one variable. -/
  distinct : (c.literals.map Literal.var).Nodup
  /-- The variables are in the range. -/
  inRange : ∀ l ∈ c, 1 ≤ l.var.id ∧ l.var.id ≤ n
  /-- No variable comes with both polarities. -/
  isTautology_eq : c.isTautology = false

/-- Literals over distinct variables only change their order where they become a clause. -/
theorem Clause.literals_ofLiterals_perm {ls : List Literal} (h : (ls.map Literal.var).Nodup) :
    (ofLiterals ls).literals.Perm ls :=
  (List.perm_ext_iff_of_nodup (ofLiterals ls).ascending.nodup (List.Nodup.of_map _ h)).mpr
    fun _ => mem_ofLiterals

theorem Clause.isTautology_eq_false {c : Clause} (h : (c.literals.map Literal.var).Nodup) :
    c.isTautology = false := by
  rw [Bool.eq_false_iff]
  intro htaut
  obtain ⟨l, hl, hneg⟩ := isTautology_iff.mp htaut
  exact l.ne_neg (List.inj_on_of_nodup_map h hl hneg rfl)

/-- Literals over the variables at the positions of a sample make a clause of its size. -/
theorem Random.IsSample.hasWidth {n width : Nat} {ls : List Literal}
    (h : IsSample n width (ls.map fun l => l.var.index)) :
    (Clause.ofLiterals ls).HasWidth n width := by
  have hdistinct : (ls.map Literal.var).Nodup := by
    refine List.Nodup.of_map Variable.index ?_
    rw [List.map_map]
    exact h.nodup
  have hperm := Clause.literals_ofLiterals_perm hdistinct
  have hnodup : ((Clause.ofLiterals ls).literals.map Literal.var).Nodup :=
    (hperm.map Literal.var).nodup_iff.mpr hdistinct
  constructor
  · rw [Clause.size, hperm.length_eq, ← h.length_eq, List.length_map]
  · exact hnodup
  · intro l hl
    have hlt : l.var.index < n := h.lt _ (List.mem_map_of_mem (Clause.mem_ofLiterals.mp hl))
    rw [← l.var.index_add_one]
    exact ⟨Nat.succ_pos _, hlt⟩
  · exact Clause.isTautology_eq_false hnodup

/-! ## Formulas of a shape -/

/-- A formula of so many clauses of one width, over so many declared variables. -/
structure Formula.HasShape (n m width : Nat) (f : Formula) : Prop where
  /-- The declared variables. -/
  numVariables_eq : f.numVariables = n
  /-- There are so many clauses. -/
  length_clauses : f.clauses.length = m
  /-- Each has the width. -/
  hasWidth : ∀ c ∈ f.clauses, c.HasWidth n width

theorem Formula.hasShape_addAll {n m width : Nat} (h : n ≤ Variable.maxId) {cs : List Clause}
    (hlength : cs.length = m) (hwidth : ∀ c ∈ cs, c.HasWidth n width) :
    ((empty n h).addAll cs).HasShape n m width where
  numVariables_eq := numVariables_addAll fun c hc =>
    variablesNeeded_le_iff.mpr fun l hl => ((hwidth c hc).inRange l hl).2
  length_clauses := hlength
  hasWidth := hwidth

namespace Random

namespace Generator

variable {σ : Type} {g : Generator σ} {n width m : Nat}

/-- Every sample that comes to an end holds as many distinct numbers below the bound as
were asked for, unless there are not so many. -/
def SamplesDistinct (g : Generator σ) : Prop :=
  ∀ length amount, amount ≤ length → Gives (g.sample length amount) (IsSample length amount)

theorem samplesDistinct_generator (s : Source) : s.generator.SamplesDistinct :=
  fun _ _ h => sample_gives s h

/-! ## One clause -/

/-- Coins decide on polarities only. -/
theorem map_var_polarize (g : Generator σ) : ∀ (vs : List Variable) (state : σ),
    (g.polarize vs state).1.map Literal.var = vs
  | [], _ => rfl
  | v :: vs, state => by
      have ih := map_var_polarize g vs (g.coin state).2
      rw [polarize, List.mapM_cons]
      exact congrArg (v :: ·) ih

/-- No number of a list is dropped on its way to a literal. -/
theorem map_index_polarize (g : Generator σ) {positions : List Nat}
    (h : ∀ i ∈ positions, i < Variable.maxId) (state : σ) :
    (g.polarize (positions.filterMap Variable.ofIndex?) state).1.map (fun l => l.var.index) =
      positions := by
  have hindex := Variable.map_index_filterMap_ofIndex? h
  rwa [← map_var_polarize g (positions.filterMap Variable.ofIndex?) state, List.map_map] at hindex

theorem clause_gives (h : g.SamplesDistinct) (hn : n ≤ Variable.maxId) (hw : width ≤ n) :
    Gives (g.clause n width) (Clause.HasWidth n width) := by
  refine (h n width hw).bind fun positions hsample => ?_
  intro state c after hc
  have hpositions := map_index_polarize g
    (fun i hi => Nat.lt_of_lt_of_le (hsample.lt i hi) hn) state
  rw [← hpositions] at hsample
  cases hc
  exact hsample.hasWidth

/-- There is a clause if there is a sample for it. -/
theorem isSome_clause (g : Generator σ) (n width : Nat) (state : σ) :
    (g.clause n width state).isSome = (g.sample n width state).isSome := by
  show ((g.sample n width state).bind _).isSome = _
  cases g.sample n width state with
  | none => rfl
  | some drawn => rfl

/-! ## Clauses one after the other -/

theorem clauses_zero (g : Generator σ) (n width : Nat) : g.clauses n width 0 = pure [] := rfl

theorem clauses_succ (g : Generator σ) (n width m : Nat) :
    g.clauses n width (m + 1) = do
      let c ← g.clause n width
      let cs ← g.clauses n width m
      return c :: cs := by
  rw [clauses, List.replicate_succ, List.mapM_cons]
  rfl

/-- The others are drawn where the first clauses leave the state. -/
theorem clauses_add (g : Generator σ) (n width i k : Nat) :
    g.clauses n width (i + k) = do
      let cs ← g.clauses n width i
      let ds ← g.clauses n width k
      return cs ++ ds := by
  rw [clauses, List.replicate_add, List.mapM_append]
  rfl

/-- More clauses are drawn only if fewer are, and then these come first. -/
theorem exists_of_clauses_add {i k : Nat} {state after : σ} {es : List Clause}
    (h : g.clauses n width (i + k) state = some (es, after)) :
    ∃ cs middle ds, g.clauses n width i state = some (cs, middle) ∧
      g.clauses n width k middle = some (ds, after) ∧ es = cs ++ ds := by
  rw [clauses_add] at h
  obtain ⟨cs, middle, hcs, h⟩ := bind_eq_some_iff.mp h
  obtain ⟨ds, last, hds, h⟩ := bind_eq_some_iff.mp h
  cases h
  exact ⟨cs, middle, ds, hcs, hds, rfl⟩

theorem clauses_gives (h : g.SamplesDistinct) (hn : n ≤ Variable.maxId) (hw : width ≤ n) :
    ∀ m, Gives (g.clauses n width m) fun cs => cs.length = m ∧ ∀ c ∈ cs, c.HasWidth n width
  | 0 => Gives.pure ⟨rfl, fun c hc => absurd hc List.not_mem_nil⟩
  | m + 1 => by
      rw [clauses_succ]
      refine (clause_gives h hn hw).bind fun c hc => ?_
      refine (clauses_gives h hn hw m).bind fun cs hcs => Gives.pure ⟨?_, ?_⟩
      · rw [List.length_cons, hcs.1]
      · exact List.forall_mem_cons.mpr ⟨hc, hcs.2⟩

/-- The sample for each clause comes to an end, where the clauses before it leave the state. -/
def SamplesEnd (g : Generator σ) (n width m : Nat) (state : σ) : Prop :=
  ∀ i < m, ∀ cs middle, g.clauses n width i state = some (cs, middle) →
    (g.sample n width middle).isSome = true

theorem isSome_clauses_succ {state : σ} :
    (g.clauses n width (m + 1) state).isSome = true ↔
      ∃ cs middle, g.clauses n width m state = some (cs, middle) ∧
        (g.sample n width middle).isSome = true := by
  have hone : g.clauses n width 1 = do return [← g.clause n width] := by
    simp only [clauses_succ, clauses_zero, pure_bind]
  rw [clauses_add, isSome_bind_iff]
  refine exists_congr fun cs => exists_congr fun middle => and_congr_right fun _ => ?_
  rw [isSome_bind_pure, hone, isSome_bind_pure, isSome_clause]

/-- There are clauses just if each sample comes to an end. -/
theorem isSome_clauses_iff (g : Generator σ) (n width : Nat) (state : σ) : ∀ m,
    (g.clauses n width m state).isSome = true ↔ g.SamplesEnd n width m state
  | 0 => ⟨fun _ i hi => absurd hi (Nat.not_lt_zero i), fun _ => rfl⟩
  | m + 1 => by
      rw [isSome_clauses_succ, SamplesEnd, Nat.forall_lt_succ_right]
      have ih := isSome_clauses_iff g n width state m
      constructor
      · rintro ⟨cs, middle, hcs, hsample⟩
        refine ⟨ih.mp (by rw [hcs]; rfl), ?_⟩
        intro ds last hds
        cases hcs.symm.trans hds
        exact hsample
      · rintro ⟨hbefore, hlast⟩
        obtain ⟨⟨cs, middle⟩, hcs⟩ := Option.isSome_iff_exists.mp (ih.mpr hbefore)
        exact ⟨cs, middle, hcs, hlast cs middle hcs⟩

/-! ## The formula -/

/-- Everything that asking for a formula may come to. -/
theorem formula_eq_some_iff {state after : σ} {r : Except Error Formula} :
    g.formula n m width state = some (r, after) ↔
      (Variable.maxId < n ∧ r = .error (.tooManyVariables n) ∧ after = state) ∨
      (n ≤ Variable.maxId ∧ n < width ∧ r = .error (.widthTooLarge width n) ∧ after = state) ∨
      ∃ hn : n ≤ Variable.maxId, width ≤ n ∧ ∃ cs, g.clauses n width m state = some (cs, after) ∧
        r = .ok ((Formula.empty n hn).addAll cs) := by
  by_cases hn : n ≤ Variable.maxId
  · by_cases hw : width ≤ n
    · rw [formula, dif_pos hn, if_pos hw, bind_eq_some_iff]
      constructor
      · rintro ⟨cs, middle, hcs, hr⟩
        cases hr
        exact .inr (.inr ⟨hn, hw, cs, hcs, rfl⟩)
      · rintro (⟨hlt, -⟩ | ⟨-, hlt, -⟩ | ⟨-, -, cs, hcs, rfl⟩)
        · exact absurd hn (Nat.not_le.mpr hlt)
        · exact absurd hw (Nat.not_le.mpr hlt)
        · exact ⟨cs, after, hcs, rfl⟩
    · rw [formula, dif_pos hn, if_neg hw]
      constructor
      · intro h
        cases h
        exact .inr (.inl ⟨hn, Nat.not_le.mp hw, rfl, rfl⟩)
      · rintro (⟨hlt, -⟩ | ⟨-, -, rfl, rfl⟩ | ⟨-, hle, -⟩)
        · exact absurd hn (Nat.not_le.mpr hlt)
        · rfl
        · exact absurd hle hw
  · rw [formula, dif_neg hn]
    constructor
    · intro h
      cases h
      exact .inl ⟨Nat.not_le.mp hn, rfl, rfl⟩
    · rintro (⟨-, rfl, rfl⟩ | ⟨hle, -⟩ | ⟨hle, -⟩)
      · rfl
      · exact absurd hle hn
      · exact absurd hle hn

theorem formula_eq_error_iff {state after : σ} {e : Error} :
    g.formula n m width state = some (.error e, after) ↔
      after = state ∧
        (Variable.maxId < n ∧ e = .tooManyVariables n ∨
          n ≤ Variable.maxId ∧ n < width ∧ e = .widthTooLarge width n) := by
  rw [formula_eq_some_iff]
  constructor
  · rintro (⟨hlt, he, rfl⟩ | ⟨hn, hlt, he, rfl⟩ | ⟨hn, -, cs, -, he⟩)
    · cases he
      exact ⟨rfl, .inl ⟨hlt, rfl⟩⟩
    · cases he
      exact ⟨rfl, .inr ⟨hn, hlt, rfl⟩⟩
    · cases he
  · rintro ⟨rfl, ⟨hlt, rfl⟩ | ⟨hn, hlt, rfl⟩⟩
    · exact .inl ⟨hlt, rfl, rfl⟩
    · exact .inr (.inl ⟨hn, hlt, rfl, rfl⟩)

theorem formula_eq_ok_iff {state after : σ} {f : Formula} :
    g.formula n m width state = some (.ok f, after) ↔
      ∃ hn : n ≤ Variable.maxId, width ≤ n ∧ ∃ cs, g.clauses n width m state = some (cs, after) ∧
        f = (Formula.empty n hn).addAll cs := by
  rw [formula_eq_some_iff]
  constructor
  · rintro (⟨-, hf, -⟩ | ⟨-, -, hf, -⟩ | ⟨hn, hw, cs, hcs, hf⟩)
    · cases hf
    · cases hf
    · cases hf
      exact ⟨hn, hw, cs, hcs, rfl⟩
  · rintro ⟨hn, hw, cs, hcs, rfl⟩
    exact .inr (.inr ⟨hn, hw, cs, hcs, rfl⟩)

theorem exists_formula_iff {state : σ} :
    (∃ f after, g.formula n m width state = some (.ok f, after)) ↔
      n ≤ Variable.maxId ∧ width ≤ n ∧ g.SamplesEnd n width m state := by
  simp only [formula_eq_ok_iff, ← isSome_clauses_iff, Option.isSome_iff_exists, Prod.exists]
  constructor
  · rintro ⟨f, after, hn, hw, cs, hcs, -⟩
    exact ⟨hn, hw, cs, after, hcs⟩
  · rintro ⟨hn, hw, cs, after, hcs⟩
    exact ⟨_, after, hn, hw, cs, hcs, rfl⟩

/-- What a generator gives for `n` variables, `m` clauses and a width, from a state on. -/
structure DrawsShape (g : Generator σ) (n m width : Nat) (state : σ) : Prop where
  /-- There is an error just where the shape is not possible: too many variables are looked for
  first.  Then nothing is drawn. -/
  error_iff : ∀ e after, g.formula n m width state = some (.error e, after) ↔
    after = state ∧
      (Variable.maxId < n ∧ e = .tooManyVariables n ∨
        n ≤ Variable.maxId ∧ n < width ∧ e = .widthTooLarge width n)
  /-- There is a formula just where the shape is possible and each sample comes to an end. -/
  ok_iff : (∃ f after, g.formula n m width state = some (.ok f, after)) ↔
    n ≤ Variable.maxId ∧ width ≤ n ∧ g.SamplesEnd n width m state
  /-- The formula has the shape. -/
  shape : ∀ f after, g.formula n m width state = some (.ok f, after) → f.HasShape n m width
  /-- More clauses begin with the same ones. -/
  beginning : ∀ more, m ≤ more → ∀ longer after,
    g.formula n more width state = some (.ok longer, after) →
      ∃ f middle, g.formula n m width state = some (.ok f, middle) ∧ f.clauses <+: longer.clauses

/-- A generator whose samples are distinct draws formulas of the shape asked for. -/
theorem formula_drawsShape (h : g.SamplesDistinct) (n m width : Nat) (state : σ) :
    g.DrawsShape n m width state where
  error_iff _ _ := formula_eq_error_iff
  ok_iff := exists_formula_iff
  shape := by
    intro f after hf
    obtain ⟨hn, hw, cs, hcs, rfl⟩ := formula_eq_ok_iff.mp hf
    obtain ⟨hlength, hwidth⟩ := clauses_gives h hn hw m state cs after hcs
    exact Formula.hasShape_addAll hn hlength hwidth
  beginning := by
    intro more hle f after hf
    obtain ⟨hn, hw, es, hes, rfl⟩ := formula_eq_ok_iff.mp hf
    rw [← Nat.add_sub_of_le hle] at hes
    obtain ⟨cs, middle, ds, hcs, -, rfl⟩ := exists_of_clauses_add hes
    exact ⟨_, middle, formula_eq_ok_iff.mpr ⟨hn, hw, cs, hcs, rfl⟩, List.prefix_append cs ds⟩

/-- From this script both clauses of width two come out as `x1 ∨ x3`, and the second word is
skipped on the way. -/
theorem formula_drawsShape_script :
    (Source.ofWords #[5, 3000000000, 1, 2, 3, 4]).generator.SamplesDistinct ∧
    ∃ f, (Source.ofWords #[5, 3000000000, 1, 2, 3, 4]).generator.formula 3 2 2 0 =
        some (.ok f, 12) ∧
      f.clauses.map Clause.text = ["(x1 ∨ x3)", "(x1 ∨ x3)"] ∧ f.HasShape 3 2 2 := by
  let c : Clause := .ofLiterals [⟨.x1, true⟩, ⟨.x3, true⟩]
  have hf : (Source.ofWords #[5, 3000000000, 1, 2, 3, 4]).generator.formula 3 2 2 0 =
      some (.ok ((Formula.empty 3 (by decide)).addAll [c, c]), 12) := by decide +kernel
  have hdistinct := samplesDistinct_generator (Source.ofWords #[5, 3000000000, 1, 2, 3, 4])
  refine ⟨hdistinct, _, hf, by decide +kernel, ?_⟩
  exact (formula_drawsShape hdistinct 3 2 2 0).shape _ _ hf

end Generator

end Random

end Clausal
