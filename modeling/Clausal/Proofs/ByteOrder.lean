/-!
# The order of bytes

Texts are compared character by character, and a folder of the system is sorted by the bytes of its
names.  Both orders agree (`Text.bytes_lt_bytes`): a character with a greater number is written
with a greater byte at the first place where the two differ, and neither is a beginning of the
other.
-/

namespace Clausal

namespace Text

/-- The bytes of a text. -/
def bytes (text : String) : List UInt8 := text.toUTF8.data.toList

theorem bytes_eq (text : String) : bytes text = text.toList.flatMap String.utf8EncodeChar := by
  have h : text.toUTF8 = text.toList.utf8Encode := by
    rw [← String.toByteArray_ofList, String.ofList_toList]
    rfl
  rw [bytes, h, List.utf8Encode, List.toList_data_toByteArray]

/-! ## The code of a character -/

variable {m n : Nat} {xs ys : List UInt8}

/-- Bytes are compared by their numbers, and equal bytes leave it to those that follow. -/
theorem cons_lt_cons (hm : m < 256) (hn : n < 256) (hle : m ≤ n) (h : m = n → xs < ys) :
    UInt8.ofNat m :: xs < UInt8.ofNat n :: ys := by
  have hbyte : ∀ {k : Nat}, k < 256 → (UInt8.ofNat k).toNat = k := fun hk => by
    rw [UInt8.toNat_ofNat', Nat.mod_eq_of_lt hk]
  rw [List.cons_lt_cons_iff, UInt8.lt_iff_toNat_lt, ← UInt8.toNat_inj, hbyte hm, hbyte hn]
  rcases Nat.lt_or_eq_of_le hle with hlt | heq
  · exact .inl hlt
  · exact .inr ⟨heq, h heq⟩

theorem cons_lt_cons_of_lt (hn : n < 256) (h : m < n) :
    UInt8.ofNat m :: xs < UInt8.ofNat n :: ys :=
  cons_lt_cons (Nat.lt_trans h hn) hn (Nat.le_of_lt h) fun he => absurd he (Nat.ne_of_lt h)

/-- The bytes of a greater character are greater, whatever follows. -/
theorem encode_lt_encode {c d : Char} (h : c < d) (xs ys : List UInt8) :
    String.utf8EncodeChar c ++ xs < String.utf8EncodeChar d ++ ys := by
  have hlt : c.val.toNat < d.val.toNat := h
  have hd : d.val.toNat < 0xd800 ∨ 0xdfff < d.val.toNat ∧ d.val.toNat < 0x110000 := d.valid
  unfold String.utf8EncodeChar
  generalize c.val.toNat = m at *
  generalize d.val.toNat = n at *
  dsimp only
  -- Of two codes the shorter one begins with the smaller byte, and in codes of one length the
  -- groups of bits are compared from the highest one on.
  by_cases h₁ : n ≤ 127
  · rw [if_pos (show m ≤ 127 by omega), if_pos h₁]
    exact cons_lt_cons_of_lt (by omega) hlt
  rw [if_neg h₁]
  by_cases h₂ : n ≤ 2047
  · rw [if_pos h₂]
    split
    · exact cons_lt_cons_of_lt (by omega) (by omega)
    · rw [if_pos (show m ≤ 2047 by omega)]
      exact cons_lt_cons (by omega) (by omega) (by omega) fun _ =>
        cons_lt_cons_of_lt (by omega) (by omega)
  rw [if_neg h₂]
  by_cases h₃ : n ≤ 65535
  · rw [if_pos h₃]
    split
    · exact cons_lt_cons_of_lt (by omega) (by omega)
    · split
      · exact cons_lt_cons_of_lt (by omega) (by omega)
      · rw [if_pos (show m ≤ 65535 by omega)]
        exact cons_lt_cons (by omega) (by omega) (by omega) fun _ =>
          cons_lt_cons (by omega) (by omega) (by omega) fun _ =>
            cons_lt_cons_of_lt (by omega) (by omega)
  · rw [if_neg h₃]
    split
    · exact cons_lt_cons_of_lt (by omega) (by omega)
    · split
      · exact cons_lt_cons_of_lt (by omega) (by omega)
      · split
        · exact cons_lt_cons_of_lt (by omega) (by omega)
        · exact cons_lt_cons (by omega) (by omega) (by omega) fun _ =>
            cons_lt_cons (by omega) (by omega) (by omega) fun _ =>
              cons_lt_cons (by omega) (by omega) (by omega) fun _ =>
                cons_lt_cons_of_lt (by omega) (by omega)

/-! ## Texts -/

theorem flatMap_encode_lt : ∀ {cs ds : List Char}, cs < ds →
    cs.flatMap String.utf8EncodeChar < ds.flatMap String.utf8EncodeChar
  | [], [], h => absurd h (List.lt_irrefl _)
  | [], d :: ds, _ => by
      rw [List.flatMap_nil, List.flatMap_cons]
      cases hd : String.utf8EncodeChar d with
      | nil => exact absurd hd String.utf8EncodeChar_ne_nil
      | cons x xs => exact List.Lex.nil
  | c :: cs, [], h => absurd h (List.not_lt_nil _)
  | c :: cs, d :: ds, h => by
      rw [List.flatMap_cons, List.flatMap_cons]
      rcases List.cons_lt_cons_iff.mp h with hlt | ⟨rfl, hlt⟩
      · exact encode_lt_encode hlt _ _
      · exact List.append_left_lt (flatMap_encode_lt hlt)

/-- The order of texts is the order of their bytes. -/
theorem bytes_lt_bytes {s t : String} (h : s < t) : bytes s < bytes t := by
  rw [bytes_eq, bytes_eq]
  exact flatMap_encode_lt h

end Text

end Clausal
