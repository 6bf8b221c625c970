import EightBit.Word

/-!
Words and their halves.
-/

namespace EightBit

theorem toNat_word (high low : UInt8) :
    (word high low).toNat = high.toNat * 256 + low.toNat := by
  have hhigh := high.toNat_lt
  have hlow := low.toNat_lt
  rw [word, UInt16.toNat_ofNat']
  omega

/-- Before the end of the address space, addresses count up without wrapping around. -/
theorem toNat_add_ofNat {w : UInt16} {k : Nat} (h : w.toNat + k < 0x10000) :
    (w + UInt16.ofNat k).toNat = w.toNat + k := by
  rw [UInt16.toNat_add, UInt16.toNat_ofNat']
  omega

theorem ofNat_toNat_add (w : UInt16) (k : Nat) :
    UInt16.ofNat (w.toNat + k) = w + UInt16.ofNat k := by
  rw [UInt16.ofNat_add, UInt16.ofNat_toNat]

namespace Word

@[simp] theorem high_word (high low : UInt8) : Word.high (word high low) = high := by
  have hlow := low.toNat_lt
  have h : (high.toNat * 256 + low.toNat) / 256 = high.toNat := by omega
  rw [Word.high, toNat_word, h, UInt8.ofNat_toNat]

@[simp] theorem low_word (high low : UInt8) : Word.low (word high low) = low := by
  apply UInt8.toNat_inj.mp
  have hlow := low.toNat_lt
  rw [Word.low, toNat_word, UInt8.toNat_ofNat']
  omega

@[simp] theorem word_high_low (w : UInt16) : word (Word.high w) (Word.low w) = w := by
  apply UInt16.toNat_inj.mp
  have hw := w.toNat_lt
  rw [toNat_word, Word.high, Word.low, UInt8.toNat_ofNat', UInt8.toNat_ofNat']
  omega

def bytes (w : UInt16) : List UInt8 := [low w, high w]

theorem toNat_high (w : UInt16) : (high w).toNat = w.toNat / 256 := by
  have hw := w.toNat_lt
  rw [high, UInt8.toNat_ofNat']
  omega

theorem toNat_low (w : UInt16) : (low w).toNat = w.toNat % 256 := UInt8.toNat_ofNat'

theorem high_and (v w : UInt16) : high (v &&& w) = high v &&& high w := by
  apply UInt8.toNat_inj.mp
  simp only [UInt8.toNat_and, toNat_high, UInt16.toNat_and]
  exact Nat.and_div_two_pow (n := 8)

theorem high_xor (v w : UInt16) : high (v ^^^ w) = high v ^^^ high w := by
  apply UInt8.toNat_inj.mp
  simp only [UInt8.toNat_xor, toNat_high, UInt16.toNat_xor]
  exact Nat.xor_div_two_pow (n := 8)

theorem high_not (w : UInt16) : high (~~~w) = ~~~high w := by
  have hw := w.toNat_lt
  apply UInt8.toNat_inj.mp
  rw [UInt8.toNat_not, toNat_high, toNat_high, UInt16.toNat_not]
  simp only [UInt8.size, UInt16.size]
  omega

end Word

end EightBit
