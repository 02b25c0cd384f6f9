import Clausal.Proofs.Numeral

/-!
# Every text as a literal

A text is a literal, or it is the numeral of a number that names no variable, or its unsigned
part is no numeral of 64 bits.  `Literal.read_classifies` says which of the three holds of a text,
in terms of the unsigned part and the number it denotes.  The limits are met in two steps: the
unsigned part is read within 64 bits (`Numeral.exists_error_iff` says when that fails), and the
number has to name a variable (`Variable.read_eq_outOfRange_iff`).

A literal and the signed number it stands for determine each other (`Literal.ofInt?_eq_some_iff`),
and so do the literal and the decimal text of that number.
-/

namespace Clausal

variable {text : List Char} {n m : Nat}

/-! ### Numerals -/

namespace Numeral

/-- A text is refused exactly if it is no numeral of a number within the limit. -/
theorem exists_error_iff {limit : Nat} :
    (∃ fault, read limit text = .error fault) ↔ ¬∃ n, Denotes text n ∧ n ≤ limit := by
  simp only [← read_eq_ok_iff]
  cases read limit text with
  | error fault => simp
  | ok n => simp

end Numeral

/-! ### Variables -/

namespace Variable

/-- The number of a numeral is out of range if it is zero or needs more than 32 bits. -/
theorem read_eq_outOfRange_iff : read text = .error (.outOfRange n) ↔
    Numeral.Denotes text n ∧ (n = 0 ∨ maxId < n ∧ n ≤ Numeral.maxWord) := by
  have hword : Numeral.Denotes text n ∧ (n = 0 ∨ maxId < n ∧ n ≤ Numeral.maxWord) ↔
      Numeral.read Numeral.maxWord text = .ok n ∧ (n = 0 ∨ maxId < n) := by
    rw [Numeral.read_eq_ok_iff]
    constructor
    · rintro ⟨hn, rfl | ⟨hid, hle⟩⟩
      · exact ⟨⟨hn, Nat.zero_le _⟩, .inl rfl⟩
      · exact ⟨⟨hn, hle⟩, .inr hid⟩
    · rintro ⟨⟨hn, hle⟩, h⟩
      exact ⟨hn, h.imp_right fun hid => ⟨hid, hle⟩⟩
  rw [hword, ← ofId?_eq_none, read]
  cases Numeral.read Numeral.maxWord text with
  | error fault => simp
  | ok m =>
      simp only [Except.ok.injEq]
      cases hm : ofId? m with
      | none =>
          simp only [Except.error.injEq, ReadError.outOfRange.injEq]
          exact ⟨fun h => ⟨h, h ▸ hm⟩, And.left⟩
      | some v =>
          simp only [reduceCtorEq, false_iff]
          rintro ⟨rfl, hnone⟩
          rw [hm] at hnone
          cases hnone

/-- The fault of a text that is no numeral of 64 bits quotes the whole text. -/
theorem read_eq_notANumber_iff {quoted : String} :
    (∃ fault, read text = .error (.notANumber quoted fault)) ↔
      quoted = String.ofList text ∧ ¬∃ n, Numeral.Denotes text n ∧ n ≤ Numeral.maxWord := by
  rw [← Numeral.exists_error_iff, read]
  cases Numeral.read Numeral.maxWord text with
  | error fault => simp [eq_comm]
  | ok m => cases hm : ofId? m <;> simp [hm]

end Variable

/-! ### Literals -/

namespace Literal

/-- The text of the variable: that of the literal without one minus sign in front. -/
def unsigned : List Char → List Char
  | '-' :: rest => rest
  | text => text

theorem unsigned_of_head? (h : text.head? ≠ some '-') : unsigned text = text := by
  unfold unsigned
  split
  · exact absurd rfl h
  · rfl

/-- A literal is read as the variable of its unsigned text, and is negative behind a minus sign. -/
theorem read_eq (text : List Char) : read text =
    (Variable.read (unsigned text)).map fun v => ⟨v, decide (text.head? ≠ some '-')⟩ := by
  unfold read
  split
  · rfl
  · next hminus =>
      have hhead : text.head? ≠ some '-' := fun h => by
        obtain ⟨rest, hrest⟩ := List.head?_eq_some_iff.mp h
        exact hminus rest hrest
      rw [decide_eq_true hhead, unsigned_of_head? hhead]

theorem read_eq_error_iff {e : Variable.ReadError} :
    read text = .error e ↔ Variable.read (unsigned text) = .error e := by
  rw [read_eq, map_eq_error_iff]

/-- A text is read as a literal exactly if its unsigned part is a numeral of the variable, and its
sign that of the literal. -/
theorem read_eq_ok_iff_unsigned {l : Literal} : read text = .ok l ↔
    Numeral.Denotes (unsigned text) l.var.id ∧ (l.positive = false ↔ text.head? = some '-') := by
  have hsign : decide (text.head? ≠ some '-') = l.positive ↔
      (l.positive = false ↔ text.head? = some '-') := by
    cases l.positive <;> simp
  rw [read_eq, map_eq_ok_iff, ← hsign]
  simp only [Variable.read_eq_ok_iff]
  constructor
  · rintro ⟨v, hv, rfl⟩
    exact ⟨hv, rfl⟩
  · rintro ⟨hv, hp⟩
    exact ⟨l.var, hv, congrArg (Literal.mk l.var) hp⟩

/-- A literal comes from the one number that stands for it. -/
theorem ofInt?_eq_some_iff {z : Int} {l : Literal} : ofInt? z = some l ↔ l.toInt = z := by
  obtain ⟨v, positive⟩ := l
  have hid := v.one_le_id
  simp only [ofInt?, Option.map_eq_some_iff, Variable.ofId?_eq_some, mk.injEq, toInt]
  constructor
  · rintro ⟨w, hw, rfl, rfl⟩
    by_cases hz : 0 < z
    · rw [if_pos (decide_eq_true hz)]
      omega
    · rw [if_neg (by simpa using hz)]
      omega
  · rintro rfl
    refine ⟨v, ?_, rfl, ?_⟩
    · cases positive <;> simp
    · cases positive with
      | true => simp; omega
      | false => simp

theorem ofInt?_eq_none_iff {z : Int} : ofInt? z = none ↔ z = 0 ∨ Variable.maxId < z.natAbs := by
  rw [ofInt?, Option.map_eq_none_iff, Variable.ofId?_eq_none, Int.natAbs_eq_zero]

/-- The decimal text of a literal as a number: its digits, behind a minus sign if it is negative. -/
theorem toList_toString_toInt (l : Literal) : (toString l.toInt).toList =
    if l.positive then Numeral.digits l.var.id else '-' :: Numeral.digits l.var.id := by
  obtain ⟨v, positive⟩ := l
  obtain ⟨k, hk⟩ := Nat.exists_eq_add_of_le' v.one_le_id
  cases positive with
  | true =>
      show (Nat.repr v.id).toList = _
      rw [Nat.repr_eq_ofList_toDigits, String.toList_ofList]
      rfl
  | false =>
      have hneg : (⟨v, false⟩ : Literal).toInt = Int.negSucc k := by
        rw [toInt, if_neg Bool.false_ne_true, hk]
        omega
      rw [hneg, if_neg Bool.false_ne_true]
      show ("-" ++ Nat.repr (k + 1)).toList = '-' :: Nat.toDigits 10 v.id
      rw [← hk, String.toList_append, Nat.repr_eq_ofList_toDigits,
        String.toList_ofList (l := Nat.toDigits 10 v.id)]
      rfl

theorem denotes_toString_toInt (l : Literal) : Denotes (toString l.toInt).toList l :=
  ⟨Numeral.digits l.var.id, toList_toString_toInt l, Numeral.denotes_digits l.var.id⟩

/-- What the unsigned part of a text denotes decides whether the text is a literal, and the fault
if it is none.  A literal is read back from the number that stands for it and from the decimal
text of that number.  No literal stands for zero or for a number of more than 32 bits. -/
theorem read_classifies :
    (∀ text l, read text = .ok l ↔ ∃ n, Numeral.Denotes (unsigned text) n ∧
      1 ≤ n ∧ n ≤ Variable.maxId ∧ l.var.id = n ∧ (l.positive = false ↔ text.head? = some '-')) ∧
    (∀ text, (∃ l, read text = .ok l) ↔
      ∃ n, Numeral.Denotes (unsigned text) n ∧ 1 ≤ n ∧ n ≤ Variable.maxId) ∧
    (∀ text n, read text = .error (.outOfRange n) ↔
      Numeral.Denotes (unsigned text) n ∧ (n = 0 ∨ Variable.maxId < n ∧ n ≤ Numeral.maxWord)) ∧
    (∀ text quoted, (∃ fault, read text = .error (.notANumber quoted fault)) ↔
      quoted = String.ofList (unsigned text) ∧
        ¬∃ n, Numeral.Denotes (unsigned text) n ∧ n ≤ Numeral.maxWord) ∧
    (∀ l : Literal, read (toString l.toInt).toList = .ok l ∧ ofInt? l.toInt = some l) ∧
    ∀ z, ofInt? z = none ↔ z = 0 ∨ Variable.maxId < z.natAbs := by
  refine ⟨fun text l => ?_, fun text => ⟨?_, ?_⟩, fun text n => ?_, fun text quoted => ?_,
    fun l => ⟨read_eq_ok_iff.mpr (denotes_toString_toInt l), ofInt?_eq_some_iff.mpr rfl⟩,
    fun z => ofInt?_eq_none_iff⟩
  · rw [read_eq_ok_iff_unsigned]
    constructor
    · rintro ⟨hn, hsign⟩
      exact ⟨_, hn, l.var.one_le_id, l.var.id_le_maxId, rfl, hsign⟩
    · rintro ⟨_, hn, -, -, rfl, hsign⟩
      exact ⟨hn, hsign⟩
  · rintro ⟨l, hl⟩
    exact ⟨_, (read_eq_ok_iff_unsigned.mp hl).1, l.var.one_le_id, l.var.id_le_maxId⟩
  · rintro ⟨n, hn, hone, hmax⟩
    refine ⟨⟨⟨n, hone, hmax⟩, decide (text.head? ≠ some '-')⟩, ?_⟩
    exact read_eq_ok_iff_unsigned.mpr ⟨hn, by simp⟩
  · rw [read_eq_error_iff, Variable.read_eq_outOfRange_iff]
  · simp only [read_eq_error_iff]
    exact Variable.read_eq_notANumber_iff

/-- The largest variable behind zeros, the first number beyond it, a number of more than 64 bits,
and two minus signs. -/
example : (read "-+004294967295".toList).toOption.map toInt = some (-4294967295) ∧
    read "4294967296".toList = .error (.outOfRange 4294967296) ∧
    read "18446744073709551616".toList =
      .error (.notANumber "18446744073709551616" .tooLarge) ∧
    read "--5".toList = .error (.notANumber "-5" .invalidDigit) := ⟨by decide, rfl, rfl, rfl⟩

end Literal

end Clausal
