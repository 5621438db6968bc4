import Mathlib.Algebra.Group.Nat.Defs

/-!
# The order of UTF-8 forms

Names are compared by code points, character by character. Comparing the bytes of their UTF-8
forms gives the same order. The first byte of a character grows with the number of bytes behind
it, and those bytes hold the lower bits of the code point, six at a time and the highest first.
So of two different characters the lower one has the lower byte where their forms first differ,
whatever stands behind the characters.
-/

namespace GenomeScript.Text

/-- The bytes of the UTF-8 form of a text. -/
def bytes (text : String) : List UInt8 := text.toUTF8.data.toList

/-- The form of a text is made of the forms of its characters. -/
theorem bytes_eq_flatMap (text : String) : bytes text = text.toList.flatMap String.utf8EncodeChar := by
  have hbytes : text.toByteArray = text.toList.utf8Encode := by
    rw [← String.toByteArray_ofList, String.ofList_toList]
  rw [bytes, String.toUTF8_eq_toByteArray, hbytes, List.utf8Encode, List.toList_data_toByteArray]

/-- The lowest bits of a code point as bytes, six bits in each, the highest first. -/
def sextets (code : Nat) : Nat → List UInt8
  | 0 => []
  | count + 1 => UInt8.ofNat (code / 64 ^ count % 64 + 128) :: sextets code count

/-- The mark of a first byte with a number of bytes behind it. -/
def leadMark : Nat → Nat
  | 0 => 0
  | 1 => 192
  | 2 => 224
  | _ => 240

/-- The least code point with a number of bytes behind the first, and after the last such number
the end of the code points. -/
def leastCode : Nat → Nat
  | 0 => 0
  | 1 => 128
  | 2 => 2048
  | 3 => 65536
  | _ => 1114112

/-- A character is a marked first byte with the highest bits, and sextets behind it. -/
theorem exists_utf8EncodeChar_eq (c : Char) :
    ∃ count ≤ 3, leastCode count ≤ c.toNat ∧ c.toNat < leastCode (count + 1) ∧
      String.utf8EncodeChar c =
        UInt8.ofNat (c.toNat / 64 ^ count + leadMark count) :: sextets c.toNat count := by
  have hend : c.toNat < 1114112 := by
    have hvalid : c.toNat < 55296 ∨ 57343 < c.toNat ∧ c.toNat < 1114112 := c.valid
    omega
  unfold String.utf8EncodeChar
  change ∃ count ≤ 3, leastCode count ≤ c.toNat ∧ c.toNat < leastCode (count + 1) ∧
    (if c.toNat ≤ 127 then _ else if c.toNat ≤ 2047 then _ else if c.toNat ≤ 65535 then _ else _) = _
  split
  next h => exact ⟨0, by omega, Nat.zero_le _, Nat.lt_succ_of_le h, by simp [sextets, leadMark]⟩
  next hone =>
    split
    next h =>
      refine ⟨1, by omega, by simp [leastCode]; omega, Nat.lt_succ_of_le h, ?_⟩
      have hlead : c.toNat / 64 % 32 = c.toNat / 64 := by omega
      simp [sextets, leadMark, hlead]
    next htwo =>
      split
      next h =>
        refine ⟨2, by omega, by simp [leastCode]; omega, Nat.lt_succ_of_le h, ?_⟩
        have hlead : c.toNat / 4096 % 16 = c.toNat / 4096 := by omega
        simp [sextets, leadMark, hlead]
      next hthree =>
        refine ⟨3, by omega, by simp [leastCode]; omega, hend, ?_⟩
        have hlead : c.toNat / 262144 % 8 = c.toNat / 262144 := by omega
        simp [sextets, leadMark, hlead]

/-- A lower first byte puts a list of bytes before another. -/
theorem cons_lt_cons_of_lt {a b : Nat} (h : a < b) (hb : b < 256) (xs ys : List UInt8) :
    UInt8.ofNat a :: xs < UInt8.ofNat b :: ys := by
  refine List.cons_lt_cons_iff.mpr (.inl ?_)
  rw [UInt8.lt_iff_toNat_lt, UInt8.toNat_ofNat', UInt8.toNat_ofNat']
  omega

/-- Of two numbers the lower has the lower quotient, or the same one and the lower remainder. -/
theorem div_lt_or_mod_lt {m n : Nat} (h : m < n) (d : Nat) :
    m / d < n / d ∨ m / d = n / d ∧ m % d < n % d := by
  rcases Nat.lt_or_eq_of_le (Nat.div_le_div_right (c := d) (Nat.le_of_lt h)) with hlt | heq
  · exact .inl hlt
  · have hm := Nat.div_add_mod m d
    have hn := Nat.div_add_mod n d
    rw [heq] at hm
    exact .inr ⟨heq, by omega⟩

/-- Sextets are ordered as the bits that they hold. -/
theorem sextets_append_lt {m n : Nat} (count : Nat) (h : m % 64 ^ count < n % 64 ^ count)
    (xs ys : List UInt8) : sextets m count ++ xs < sextets n count ++ ys := by
  induction count with
  | zero => simp [Nat.mod_one] at h
  | succ count ih =>
    have hdigit (k : Nat) : k % 64 ^ (count + 1) / 64 ^ count = k / 64 ^ count % 64 :=
      Nat.mod_mul_right_div_self k (64 ^ count) 64
    have hlower (k : Nat) : k % 64 ^ (count + 1) % 64 ^ count = k % 64 ^ count :=
      Nat.mod_mod_of_dvd k (Nat.pow_dvd_pow 64 (Nat.le_succ count))
    have hcases := div_lt_or_mod_lt h (64 ^ count)
    rw [hdigit, hdigit, hlower, hlower] at hcases
    rw [sextets, sextets, List.cons_append, List.cons_append]
    rcases hcases with hlt | ⟨heq, hlt⟩
    · exact cons_lt_cons_of_lt (by omega) (by omega) _ _
    · rw [heq]
      exact List.cons_lt_cons_iff.mpr (.inr ⟨rfl, ih hlt⟩)

/-- The first byte of a character grows with the number of bytes behind it. -/
theorem lead_lt_lead {m n k l : Nat} (hl : l ≤ 3) (hkl : k < l) (hm : m < leastCode (k + 1))
    (hn : leastCode l ≤ n) : m / 64 ^ k + leadMark k < n / 64 ^ l + leadMark l := by
  have hk : k = 0 ∨ k = 1 ∨ k = 2 := by omega
  have hl' : l = 1 ∨ l = 2 ∨ l = 3 := by omega
  rcases hk with rfl | rfl | rfl <;> rcases hl' with rfl | rfl | rfl <;>
    simp only [leastCode, leadMark] at hm hn ⊢ <;> omega

/-- The first byte of a character is a byte. -/
theorem lead_lt_256 {n l : Nat} (hl : l ≤ 3) (hn : n < leastCode (l + 1)) :
    n / 64 ^ l + leadMark l < 256 := by
  have hl' : l = 0 ∨ l = 1 ∨ l = 2 ∨ l = 3 := by omega
  rcases hl' with rfl | rfl | rfl | rfl <;> simp only [leastCode, leadMark] at hn ⊢ <;> omega

/-- More bytes behind the first are for higher code points. -/
theorem leastCode_mono {k l : Nat} (h : k ≤ l) (hl : l ≤ 4) : leastCode k ≤ leastCode l := by
  have hl' : l = 0 ∨ l = 1 ∨ l = 2 ∨ l = 3 ∨ l = 4 := by omega
  have hk' : k = 0 ∨ k = 1 ∨ k = 2 ∨ k = 3 ∨ k = 4 := by omega
  rcases hl' with rfl | rfl | rfl | rfl | rfl <;> rcases hk' with rfl | rfl | rfl | rfl | rfl <;>
    simp only [leastCode] <;> omega

/-- The form of the lower of two characters comes first, whatever follows. -/
theorem utf8EncodeChar_append_lt {c d : Char} (h : c < d) (xs ys : List UInt8) :
    String.utf8EncodeChar c ++ xs < String.utf8EncodeChar d ++ ys := by
  have hcode : c.toNat < d.toNat := h
  obtain ⟨k, hk, hkc, hck, hc⟩ := exists_utf8EncodeChar_eq c
  obtain ⟨l, hl, hld, hdl, hd⟩ := exists_utf8EncodeChar_eq d
  have hbyte := lead_lt_256 hl hdl
  rw [hc, hd, List.cons_append, List.cons_append]
  rcases Nat.lt_trichotomy k l with hkl | rfl | hlk
  · exact cons_lt_cons_of_lt (lead_lt_lead hl hkl hck hld) hbyte _ _
  · -- As many bytes in both: the forms differ in the highest bits or behind the first byte.
    rcases div_lt_or_mod_lt hcode (64 ^ k) with hlt | ⟨heq, hlt⟩
    · exact cons_lt_cons_of_lt (by omega) hbyte _ _
    · rw [heq]
      exact List.cons_lt_cons_iff.mpr (.inr ⟨rfl, sextets_append_lt k hlt xs ys⟩)
  · have hmono : leastCode (l + 1) ≤ leastCode k := leastCode_mono hlk (by omega)
    omega

/-- Texts are ordered as their UTF-8 forms. -/
theorem bytes_lt_bytes {a b : String} (h : a < b) : bytes a < bytes b := by
  have hchars : a.toList < b.toList := h
  rw [bytes_eq_flatMap, bytes_eq_flatMap]
  generalize a.toList = cs at hchars
  generalize b.toList = ds at hchars
  induction hchars with
  | @nil d ds =>
    obtain ⟨count, _, _, _, hd⟩ := exists_utf8EncodeChar_eq d
    rw [List.flatMap_nil, List.flatMap_cons, hd, List.cons_append]
    exact List.nil_lt_cons _ _
  | rel hlt => exact utf8EncodeChar_append_lt hlt _ _
  | @cons c cs ds _ ih =>
    rw [List.flatMap_cons, List.flatMap_cons]
    exact List.append_left_lt ih

end GenomeScript.Text
