import Clausal.Literal.Reader

/-!
# What numerals and literals denote

The grammar of numbers and literals, stated without a reader.  A numeral is one or
more ASCII digits behind at most one plus sign, and it denotes the value of its
digits.  A literal is the numeral of its variable, behind a minus sign if it is
negative.

The readers accept exactly these texts, as far as the numbers stay within their
limits.  A reader gives up at the first digit that exceeds its limit, and
`le_ofDigitChars` is why it loses nothing by that: further digits never make a
number smaller.
-/

namespace Clausal

/-! ### Readers built from readers -/

theorem map_eq_ok_iff {ε α β : Type} {f : α → β} {b : β} : ∀ {x : Except ε α},
    x.map f = .ok b ↔ ∃ a, x = .ok a ∧ f a = b
  | .error e => by simp [Except.map]
  | .ok a => by simp [Except.map]

theorem bind_eq_ok_iff {ε α β : Type} {k : α → Except ε β} {b : β} : ∀ {x : Except ε α},
    (x >>= k) = .ok b ↔ ∃ a, x = .ok a ∧ k a = .ok b
  | .error e => by simp [bind, Except.bind]
  | .ok a => by simp [bind, Except.bind]

theorem map_eq_error_iff {ε α β : Type} {f : α → β} {e : ε} : ∀ {x : Except ε α},
    x.map f = .error e ↔ x = .error e
  | .error e' => by simp [Except.map]
  | .ok a => by simp [Except.map]

theorem bind_eq_error_iff {ε α β : Type} {k : α → Except ε β} {e : ε} : ∀ {x : Except ε α},
    (x >>= k) = .error e ↔ x = .error e ∨ ∃ a, x = .ok a ∧ k a = .error e
  | .error e' => by simp [bind, Except.bind]
  | .ok a => by simp [bind, Except.bind]

namespace Numeral

/-- The text is a numeral of the number. -/
def Denotes (text : List Char) (n : Nat) : Prop :=
  ∃ ds : List Char, (text = ds ∨ text = '+' :: ds) ∧ ds ≠ [] ∧
    (∀ c ∈ ds, c.isDigit = true) ∧ Nat.ofDigitChars 10 ds 0 = n

/-! ### Digits -/

theorem isDigit_iff {c : Char} : c.isDigit = true ↔ '0' ≤ c ∧ c ≤ '9' := by
  simp only [Char.isDigit, Bool.and_eq_true, decide_eq_true_eq]
  exact Iff.rfl

theorem digit?_of_isDigit {c : Char} (h : c.isDigit = true) :
    digit? c = some (c.toNat - '0'.toNat) := by
  rw [digit?, if_pos (isDigit_iff.mp h)]

theorem digit?_of_not_isDigit {c : Char} (h : ¬c.isDigit = true) : digit? c = none := by
  rw [digit?, if_neg (fun hc => h (isDigit_iff.mpr hc))]

theorem le_ofDigitChars (cs : List Char) (n : Nat) : n ≤ Nat.ofDigitChars 10 cs n := by
  rw [Nat.ofDigitChars_eq_ofDigitChars_zero]
  exact Nat.le_trans (Nat.le_mul_of_pos_left n (Nat.pow_pos (by decide))) (Nat.le_add_right _ _)

theorem not_isDigit_plus : ¬('+'.isDigit = true) := by decide

theorem not_isDigit_minus : ¬('-'.isDigit = true) := by decide

/-- No numeral starts with a minus sign. -/
theorem not_denotes_minus {rest : List Char} {n : Nat} : ¬Denotes ('-' :: rest) n := by
  rintro ⟨ds, rfl | ht, -, hds, -⟩
  · exact not_isDigit_minus (hds '-' List.mem_cons_self)
  · simp at ht

/-! ### Reading numerals -/

/-- Digits are read behind `n` exactly if the number they make up is within the limit. -/
theorem readFrom_eq_ok_iff {limit : Nat} : ∀ {cs : List Char} {n m : Nat}, n ≤ limit →
    (readFrom limit n cs = .ok m ↔
      (∀ c ∈ cs, c.isDigit = true) ∧ Nat.ofDigitChars 10 cs n = m ∧ m ≤ limit)
  | [], n, m, hn => by
      simp only [readFrom, Except.ok.injEq, List.not_mem_nil, false_implies, implies_true,
        Nat.ofDigitChars_nil, true_and]
      exact ⟨fun h => ⟨h, h ▸ hn⟩, And.left⟩
  | c :: cs, n, m, hn => by
      by_cases hc : c.isDigit = true
      · simp only [readFrom, digit?_of_isDigit hc, List.forall_mem_cons, hc, true_and,
          Nat.ofDigitChars_cons]
        split
        · next hle => exact readFrom_eq_ok_iff hle
        · next hgt =>
            have hge := le_ofDigitChars cs (10 * n + (c.toNat - '0'.toNat))
            constructor
            · intro h
              cases h
            · rintro ⟨-, rfl, hle⟩
              exact absurd (Nat.le_trans hge hle) hgt
      · simp only [readFrom, digit?_of_not_isDigit hc, List.forall_mem_cons, hc, Bool.false_eq_true,
          false_and, reduceCtorEq]

/-- A text is read exactly if it is a numeral of a number within the limit. -/
theorem read_eq_ok_iff {limit : Nat} {text : List Char} {n : Nat} :
    read limit text = .ok n ↔ Denotes text n ∧ n ≤ limit := by
  unfold read
  split
  · simp [Denotes]
  · -- A sign alone: the digits behind it are missing, and it is no digit itself.
    simp [Denotes, not_isDigit_plus]
  · next rest hne =>
      have hrest : rest ≠ [] := fun h => hne (by rw [h])
      rw [readFrom_eq_ok_iff (Nat.zero_le limit)]
      constructor
      · rintro ⟨hds, hn, hle⟩
        exact ⟨⟨rest, .inr rfl, hrest, hds, hn⟩, hle⟩
      · rintro ⟨⟨ds, rfl | ht, -, hds, hn⟩, hle⟩
        · exact absurd (hds '+' List.mem_cons_self) not_isDigit_plus
        · cases ht
          exact ⟨hds, hn, hle⟩
  · next hnil _ hplus =>
      rw [readFrom_eq_ok_iff (Nat.zero_le limit)]
      constructor
      · rintro ⟨hds, hn, hle⟩
        exact ⟨⟨text, .inl rfl, fun h => hnil h, hds, hn⟩, hle⟩
      · rintro ⟨⟨ds, rfl | ht, -, hds, hn⟩, hle⟩
        · exact ⟨hds, hn, hle⟩
        · exact absurd ht (hplus ds)

/-! ### Printed numerals -/

theorem isDigit_of_mem_digits {n : Nat} {c : Char} (h : c ∈ digits n) : c.isDigit = true :=
  Nat.isDigit_of_mem_toDigits (by decide) (by decide) h

theorem digits_ne_nil (n : Nat) : digits n ≠ [] := Nat.toDigits_ne_nil

/-- The digits of a number are a numeral of it. -/
theorem denotes_digits (n : Nat) : Denotes (digits n) n :=
  ⟨digits n, .inl rfl, digits_ne_nil n, fun _ => isDigit_of_mem_digits,
    Nat.ofDigitChars_ten_toDigits⟩

end Numeral

/-! ### Variables and literals -/

/-- A number within 32 bits is within 64 bits. -/
theorem Variable.maxId_le_maxWord : Variable.maxId ≤ Numeral.maxWord := by decide

/-- The text is a literal: the numeral of its variable, behind a minus sign if it is negative. -/
def Literal.Denotes (text : List Char) (l : Literal) : Prop :=
  ∃ numeral : List Char, text = (if l.positive then numeral else '-' :: numeral) ∧
    Numeral.Denotes numeral l.var.id

/-- A text is read as a variable exactly if it is a numeral of it. -/
theorem Variable.read_eq_ok_iff {text : List Char} {v : Variable} :
    Variable.read text = .ok v ↔ Numeral.Denotes text v.id := by
  have hv : v.id ≤ Numeral.maxWord := Nat.le_trans v.id_le_maxId Variable.maxId_le_maxWord
  have hread : Numeral.read Numeral.maxWord text = .ok v.id ↔ Numeral.Denotes text v.id :=
    Numeral.read_eq_ok_iff.trans (and_iff_left hv)
  rw [← hread, Variable.read]
  cases Numeral.read Numeral.maxWord text with
  | error fault => simp
  | ok n =>
      simp only [Except.ok.injEq]
      rw [@eq_comm _ n, ← Variable.ofId?_eq_some]
      cases Variable.ofId? n <;> simp

/-- A text is read as a literal exactly if it denotes it. -/
theorem Literal.read_eq_ok_iff {text : List Char} {l : Literal} :
    Literal.read text = .ok l ↔ Literal.Denotes text l := by
  obtain ⟨v, positive⟩ := l
  unfold Literal.read Literal.Denotes
  split
  · next rest =>
      simp only [map_eq_ok_iff, Literal.mk.injEq, Variable.read_eq_ok_iff]
      constructor
      · rintro ⟨w, hw, rfl, rfl⟩
        exact ⟨rest, rfl, hw⟩
      · rintro ⟨numeral, ht, hn⟩
        cases positive with
        | false =>
            cases ht
            exact ⟨v, hn, rfl, rfl⟩
        | true =>
            rw [if_pos rfl] at ht
            subst ht
            exact absurd hn Numeral.not_denotes_minus
  · next hminus =>
      simp only [map_eq_ok_iff, Literal.mk.injEq, Variable.read_eq_ok_iff]
      constructor
      · rintro ⟨w, hw, rfl, rfl⟩
        exact ⟨text, rfl, hw⟩
      · rintro ⟨numeral, ht, hn⟩
        cases positive with
        | false => exact absurd ht (hminus numeral)
        | true =>
            rw [if_pos rfl] at ht
            subst ht
            exact ⟨v, hn, rfl, rfl⟩

end Clausal
