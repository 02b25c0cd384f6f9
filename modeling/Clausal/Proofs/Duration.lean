import Clausal.Duration
import Clausal.Proofs.Numeral
import Mathlib.Data.Rat.Cast.Order
import Mathlib.Tactic.Linarith
import Mathlib.Tactic.Positivity

/-!
# What the text of a duration says

The text of a number with six decimals is stated by what the number is, without a way to work it out
(`HasSixDecimals`): the digits of the text make up the whole number of millionths that is nearest to
it.  The text of a duration is that of the exact value of its double (`hasSixDecimals_text`).

Rounding a quotient looks at the remainder only, and `roundDiv_isNearest` is why that is enough.
-/

namespace Clausal

namespace Duration

/-- The exact value of a double, without its sign. -/
def magnitude (x : Float) : ℚ :=
  match x.toModel.unpack with
  | .finite _ mantissa exponent _ => mantissa * 2 ^ exponent
  | _ => 0

/-- A whole number is nearest to a number, and if there are two of them it is the even one. -/
structure IsNearest (x : ℚ) (k : ℕ) : Prop where
  /-- No other whole number is nearer. -/
  close : |x - k| ≤ 1 / 2
  /-- A tie goes to the even one. -/
  even : |x - k| = 1 / 2 → k % 2 = 0

/-- The text is the number, written with six decimals. -/
def HasSixDecimals (x : ℚ) (text : List Char) : Prop :=
  ∃ (whole : ℕ) (decimals : List Char), text = Nat.toDigits 10 whole ++ '.' :: decimals ∧
    decimals.length = 6 ∧ (∀ c ∈ decimals, c.isDigit = true) ∧
    IsNearest (x * 1000000) (whole * 1000000 + Nat.ofDigitChars 10 decimals 0)

/-! ## Rounding -/

/-- A quotient lies above its whole part by the remainder, in parts of the divisor. -/
theorem cast_div_sub_div {n d : ℕ} (hd : 0 < d) : (n : ℚ) / d - (n / d : ℕ) = (n % d : ℕ) / d := by
  have hdq : (d : ℚ) ≠ 0 := by exact_mod_cast hd.ne'
  have hsplit : (n : ℚ) = d * (n / d : ℕ) + (n % d : ℕ) := by
    exact_mod_cast (Nat.div_add_mod n d).symm
  rw [div_sub' hdq, div_left_inj' hdq]
  linarith

theorem div_lt_half_iff {r d : ℕ} (hd : 0 < d) : (r : ℚ) / d < 1 / 2 ↔ 2 * r < d := by
  rw [div_lt_div_iff₀ (by exact_mod_cast hd) two_pos, one_mul, mul_comm]
  exact_mod_cast Iff.rfl

theorem div_eq_half_iff {r d : ℕ} (hd : 0 < d) : (r : ℚ) / d = 1 / 2 ↔ 2 * r = d := by
  have hdq : (d : ℚ) ≠ 0 := by exact_mod_cast hd.ne'
  rw [div_eq_div_iff hdq two_ne_zero, one_mul, mul_comm]
  exact_mod_cast Iff.rfl

/-- The rounded quotient is nearest to the exact one. -/
theorem roundDiv_isNearest {n d : ℕ} (hd : 0 < d) : IsNearest ((n : ℚ) / d) (roundDiv n d) := by
  have hsplit := cast_div_sub_div (n := n) hd
  have hnonneg : (0 : ℚ) ≤ (n % d : ℕ) / d := by positivity
  have hlt := div_lt_half_iff (r := n % d) hd
  have heq := div_eq_half_iff (r := n % d) hd
  have hone : ((n % d : ℕ) : ℚ) / d < 1 := by
    rw [div_lt_one (by exact_mod_cast hd)]
    exact_mod_cast Nat.mod_lt n hd
  unfold roundDiv
  split
  · next hdown =>
      have habs : |(n : ℚ) / d - (n / d : ℕ)| = (n % d : ℕ) / d := by
        rw [hsplit, abs_of_nonneg hnonneg]
      rw [← hlt, ← heq] at hdown
      constructor
      · rw [habs]
        exact hdown.elim le_of_lt fun h => h.1.le
      · intro htie
        rw [habs] at htie
        exact (hdown.resolve_left htie.not_lt).2
  · next hup =>
      rw [not_or, not_and, ← hlt, ← heq, not_lt] at hup
      have habs : |(n : ℚ) / d - (n / d + 1 : ℕ)| = 1 - (n % d : ℕ) / d := by
        rw [Nat.cast_add_one, ← sub_sub, hsplit, abs_of_nonpos (by linarith), neg_sub]
      constructor
      · rw [habs]
        linarith [hup.1]
      · intro htie
        rw [habs] at htie
        have hodd := hup.2 (by linarith)
        omega

/-- A power of two with a negative exponent is a divisor. -/
theorem mul_zpow_eq_div (mantissa : ℕ) (exponent : ℤ) : (mantissa : ℚ) * (2 : ℚ) ^ exponent =
    (mantissa <<< exponent.toNat : ℕ) / (1 <<< (-exponent).toNat : ℕ) := by
  obtain ⟨k, rfl | rfl⟩ := exponent.eq_nat_or_neg
  · simp [Nat.shiftLeft_eq]
  · simp [Nat.shiftLeft_eq, div_eq_mul_inv]

/-- The millionths of a double are the whole number of them that is nearest to its value. -/
theorem millionths_isNearest (x : Float) : IsNearest (magnitude x * 1000000) (millionths x) := by
  have hzero : IsNearest ((0 : ℚ) * 1000000) 0 := ⟨by norm_num, fun _ => rfl⟩
  unfold magnitude millionths
  cases x.toModel.unpack with
  | finite sign mantissa exponent hpos =>
      have hvalue : (mantissa : ℚ) * (2 : ℚ) ^ exponent * (1000000 : ℚ) =
          (mantissa <<< exponent.toNat * 1000000 : ℕ) / (1 <<< (-exponent).toNat : ℕ) := by
        rw [mul_zpow_eq_div, div_mul_eq_mul_div, Nat.cast_mul _ 1000000, Nat.cast_ofNat]
      dsimp only
      rw [hvalue]
      exact roundDiv_isNearest (by rw [Nat.one_shiftLeft]; exact Nat.two_pow_pos _)
  | zero sign => exact hzero
  | infinity sign => exact hzero
  | notANumber => exact hzero

/-! ## Writing -/

theorem toList_sixDecimals (k : ℕ) :
    (sixDecimals k).toList =
      Nat.toDigits 10 (k / 1000000) ++ '.' ::
        (List.replicate (6 - (Nat.toDigits 10 (k % 1000000)).length) '0' ++
          Nat.toDigits 10 (k % 1000000)) :=
  String.toList_ofList

/-- What is written is the number of millionths. -/
theorem hasSixDecimals_of_isNearest {x : ℚ} {k : ℕ} (h : IsNearest (x * 1000000) k) :
    HasSixDecimals x (sixDecimals k).toList := by
  have hshort : (Nat.toDigits 10 (k % 1000000)).length ≤ 6 :=
    (Nat.length_toDigits_le_iff (by decide) (by decide)).mpr (Nat.mod_lt k (by decide))
  refine ⟨k / 1000000, _, toList_sixDecimals k, ?_, ?_, ?_⟩
  · rw [List.length_append, List.length_replicate, Nat.sub_add_cancel hshort]
  · intro c hc
    rcases List.mem_append.mp hc with hzero | hdigit
    · rw [List.eq_of_mem_replicate hzero]
      rfl
    · exact Numeral.isDigit_of_mem_digits hdigit
  · rw [Nat.ofDigitChars_append, Nat.ofDigitChars_replicate_zero, Nat.mul_zero,
      Nat.ofDigitChars_ten_toDigits, mul_comm (k / 1000000), Nat.div_add_mod]
    exact h

/-- The text of a duration is the exact value of its double. -/
theorem hasSixDecimals_text (n : ℕ) : HasSixDecimals (magnitude (seconds n)) (text n).toList :=
  hasSixDecimals_of_isNearest (millionths_isNearest _)

/-- Half a microsecond is rounded down since its double is below it, and 7812.5 microseconds, which
are a double, since 7812 is even. -/
example : [500, 1500, 7812500].map text = ["0.000000", "0.000002", "0.007812"] := by decide

/-- A number with six decimals ends in a digit. -/
theorem HasSixDecimals.isDigit_getLast? {x : ℚ} {text : List Char} {c : Char}
    (h : HasSixDecimals x text) (hc : text.getLast? = some c) : c.isDigit = true := by
  obtain ⟨whole, decimals, rfl, hlength, hdigits, -⟩ := h
  have hne : decimals ≠ [] := by
    rintro rfl
    cases hlength
  rw [List.getLast?_append_of_ne_nil _ (List.cons_ne_nil _ _),
    List.getLast?_cons_of_ne_nil hne] at hc
  exact hdigits c (List.mem_of_getLast? hc)

end Duration

end Clausal
