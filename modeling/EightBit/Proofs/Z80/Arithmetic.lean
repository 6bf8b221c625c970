import EightBit.Proofs.Multibyte
import EightBit.Proofs.Word
import EightBit.Z80.Step
import Mathlib.Tactic.IntervalCases

/-!
What the Z80 has beyond the common operations on bytes: sums and differences of words, which are
those of their bytes one after the other, and the correction to packed decimal.
-/

namespace EightBit

open Byte

/-- The highest bit of a word is that of its high byte. -/
theorem Word.and_top_ne_zero (w : UInt16) : (w &&& 0x8000 != 0) = bit (Word.high w) 7 := by
  have hbit : bit (Word.high w) 7 = w.toNat.testBit 15 := by
    rw [bit_seven, Word.toNat_high, Nat.testBit_eq_decide_div_mod_eq, decide_eq_decide]
    have hw := w.toNat_lt
    omega
  have hword : (w &&& 0x8000).toNat = (w.toNat.testBit 15).toNat * 2 ^ 15 := by
    rw [UInt16.toNat_and, ← Nat.and_two_pow]
    rfl
  have hzero : w &&& 0x8000 = 0 ↔ w.toNat.testBit 15 = false := by
    rw [← UInt16.toNat_inj, hword]
    cases w.toNat.testBit 15 <;> simp
  rw [hbit]
  cases htop : w.toNat.testBit 15 <;> simp [hzero, htop]

namespace Z80

open FlagLayout (zilog chain addOverflows subtractOverflows)

theorem bit_maskIf (on : Bool) (mask : UInt8) (k : Nat) :
    bit (maskIf on mask) k = (on && bit mask k) := by
  cases on
  · simp [maskIf, bit]
  · rfl

theorem flag_carry (s : Z80) : s.flag flagC = zilog.carrySet s.f := by
  rw [FlagLayout.carrySet_eq (.inr rfl)]
  exact and_mask_eq_mask _ rfl

/-- A sum of words by the sums of its low and of its high bytes. -/
theorem sum_by_bytes (a b : UInt16) (c : Bool) :
    let low := (Word.low a).toNat + (Word.low b).toNat + c.toNat
    let carry := (decide (256 ≤ low)).toNat
    let high := (Word.high a).toNat + (Word.high b).toNat + carry
    Word.bytes (UInt16.ofNat (a.toNat + b.toNat + c.toNat)) =
        [UInt8.ofNat low, UInt8.ofNat high] ∧
      (65536 ≤ a.toNat + b.toNat + c.toNat ↔ 256 ≤ high) ∧
      (4096 ≤ a.toNat % 4096 + b.toNat % 4096 + c.toNat ↔
        16 ≤ (Word.high a).toNat % 16 + (Word.high b).toNat % 16 + carry) := by
  intro low carry high
  have ha := a.toNat_lt
  have hb := b.toNat_lt
  have hc := c.toNat_le
  have hlow : low = a.toNat % 256 + b.toNat % 256 + c.toNat := by
    simp only [low, Word.toNat_low]
  have hcarry : carry = low / 256 := by
    simp only [carry, toNat_decide]
    split_ifs <;> omega
  have hhigh : high = a.toNat / 256 + b.toNat / 256 + carry := by
    simp only [high, Word.toNat_high]
  simp only [Word.toNat_high]
  clear_value low carry high
  refine ⟨?_, by omega, by omega⟩
  simp only [Word.bytes, List.cons.injEq, and_true]
  constructor <;> apply UInt8.toNat_inj.mp
  · rw [Word.toNat_low, UInt16.toNat_ofNat', UInt8.toNat_ofNat']
    omega
  · rw [Word.toNat_high, UInt16.toNat_ofNat', UInt8.toNat_ofNat']
    omega

/-- A difference of words by the differences of its low and of its high bytes. -/
theorem difference_by_bytes (a b : UInt16) (c : Bool) :
    let borrow := (decide ((Word.low a).toNat < (Word.low b).toNat + c.toNat)).toNat
    Word.bytes (UInt16.ofNat (a.toNat + 131072 - (b.toNat + c.toNat))) =
        [UInt8.ofNat ((Word.low a).toNat + 512 - ((Word.low b).toNat + c.toNat)),
          UInt8.ofNat ((Word.high a).toNat + 512 - ((Word.high b).toNat + borrow))] ∧
      (a.toNat < b.toNat + c.toNat ↔ (Word.high a).toNat < (Word.high b).toNat + borrow) ∧
      (a.toNat % 4096 < b.toNat % 4096 + c.toNat ↔
        (Word.high a).toNat % 16 < (Word.high b).toNat % 16 + borrow) := by
  intro borrow
  have ha := a.toNat_lt
  have hb := b.toNat_lt
  have hc := c.toNat_le
  have hborrow : borrow = if a.toNat % 256 < b.toNat % 256 + c.toNat then 1 else 0 := by
    simp only [borrow, toNat_decide, Word.toNat_low]
  simp only [Word.toNat_high, Word.toNat_low]
  clear_value borrow
  refine ⟨?_, by split_ifs at hborrow <;> omega, by split_ifs at hborrow <;> omega⟩
  simp only [Word.bytes, List.cons.injEq, and_true]
  constructor <;> apply UInt8.toNat_inj.mp
  · rw [Word.toNat_low, UInt16.toNat_ofNat', UInt8.toNat_ofNat']
    omega
  · rw [Word.toNat_high, UInt16.toNat_ofNat', UInt8.toNat_ofNat']
    split_ifs at hborrow <;> omega

theorem addOverflows_high (a b v : UInt16) :
    (~~~(a ^^^ b) &&& (a ^^^ v) &&& 0x8000 != 0) =
      addOverflows (Word.high a) (Word.high b) (Word.high v) := by
  have htop : (0x80 : UInt8).toNat = 2 ^ 7 := rfl
  rw [Word.and_top_ne_zero, addOverflows, and_mask_ne_zero _ htop, Word.high_and, Word.high_not,
    Word.high_xor, Word.high_xor]

theorem subtractOverflows_high (a b v : UInt16) :
    ((a ^^^ b) &&& (a ^^^ v) &&& 0x8000 != 0) =
      subtractOverflows (Word.high a) (Word.high b) (Word.high v) := by
  have htop : (0x80 : UInt8).toNat = 2 ^ 7 := rfl
  rw [Word.and_top_ne_zero, subtractOverflows, and_mask_ne_zero _ htop, Word.high_and,
    Word.high_xor, Word.high_xor]

/-- What an operation tells in its flags beside the bits of its answer. -/
structure Conditions where
  carry : Bool
  subtract : Bool
  overflow : Bool
  half : Bool
  zero : Bool

def Conditions.bit (o : Conditions) (value : UInt8) : Nat → Bool
  | 0 => o.carry
  | 1 => o.subtract
  | 2 => o.overflow
  | 4 => o.half
  | 6 => o.zero
  | k => Byte.bit value k

theorem bit_add (flags a b : UInt8) (c : Bool) {k : Nat} (hk : k < 8) :
    let o := zilog.add flags a b c
    bit o.flags k = Conditions.bit
      ⟨256 ≤ a.toNat + b.toNat + c.toNat, false, addOverflows a b o.value,
        16 ≤ a.toNat % 16 + b.toNat % 16 + c.toNat, o.value == 0⟩ o.value k := by
  intro o
  have htop : (o.value &&& 0x80 != 0) = bit o.value 7 := and_mask_ne_zero _ rfl
  simp only [o, FlagLayout.bit_add _ _ _ _ _ hk]
  -- The masks are closed terms, so that each flag is left to computation.
  interval_cases k <;> first | rfl | exact htop

theorem bit_sub (flags a b : UInt8) (c : Bool) {k : Nat} (hk : k < 8) :
    let o := zilog.sub flags a b c
    bit o.flags k = Conditions.bit
      ⟨a.toNat < b.toNat + c.toNat, true, subtractOverflows a b o.value,
        a.toNat % 16 < b.toNat % 16 + c.toNat, o.value == 0⟩ o.value k := by
  intro o
  have htop : (o.value &&& 0x80 != 0) = bit o.value 7 := and_mask_ne_zero _ rfl
  simp only [o, FlagLayout.bit_sub _ _ _ _ _ hk]
  interval_cases k <;> first | rfl | exact htop

theorem bit_wordFlags (value : UInt16) (carry half overflow : Bool) {k : Nat} (hk : k < 8) :
    bit (wordFlags value carry half overflow) k =
      Conditions.bit ⟨carry, false, overflow, half, value == 0⟩ (Word.high value) k := by
  simp only [wordFlags, bit_or, bit_and, bit_maskIf]
  interval_cases k <;> simp [Conditions.bit, bit]

theorem Conditions.bit_zero (o : Conditions) (value : UInt8) : o.bit value 6 = o.zero := rfl

theorem Conditions.bit_withZero (o : Conditions) (zero : Bool) (value : UInt8) {k : Nat}
    (hk : k ≠ 6) : { o with zero }.bit value k = o.bit value k := by
  unfold Conditions.bit
  split <;> first | rfl | exact absurd rfl hk

/-- Flags that differ in what they tell as zero agree under every mask that leaves it out. -/
theorem Conditions.and_mask_congr {o : Conditions} {zero : Bool} {value f g mask : UInt8}
    (hf : ∀ k < 8, Byte.bit f k = o.bit value k)
    (hg : ∀ k < 8, Byte.bit g k = { o with zero }.bit value k)
    (hmask : Byte.bit mask 6 = false) : f &&& mask = g &&& mask := by
  refine and_congr_of_bits fun k hk hbit => ?_
  have hk6 : k ≠ 6 := by
    rintro rfl
    rw [hmask] at hbit
    contradiction
  rw [hf k hk, hg k hk, o.bit_withZero zero value hk6]

theorem bit_addWords (flags : UInt8) (a b : UInt16) {k : Nat} (hk : k < 8) :
    let o := addWords flags a b
    bit o.flags k =
      if bit (flagS ||| flagZ ||| flagV) k then bit flags k
      else Conditions.bit
        ⟨65536 ≤ a.toNat + b.toNat, false, false, 4096 ≤ a.toNat % 4096 + b.toNat % 4096, false⟩
        (Word.high o.value) k := by
  intro o
  simp only [o, addWords, bit_or, bit_and, bit_maskIf]
  interval_cases k <;> simp [Conditions.bit, bit]

theorem bit_addWordsCarry (a b : UInt16) (c : Bool) {k : Nat} (hk : k < 8) :
    let o := addWordsCarry a b c
    bit o.flags k = Conditions.bit
      ⟨65536 ≤ a.toNat + b.toNat + c.toNat, false,
        addOverflows (Word.high a) (Word.high b) (Word.high o.value),
        4096 ≤ a.toNat % 4096 + b.toNat % 4096 + c.toNat, o.value == 0⟩ (Word.high o.value) k := by
  intro o
  simp only [o, addWordsCarry, addOverflows_high]
  exact bit_wordFlags _ _ _ _ hk

theorem bit_subtractWordsBorrow (a b : UInt16) (c : Bool) {k : Nat} (hk : k < 8) :
    let o := subtractWordsBorrow a b c
    bit o.flags k = Conditions.bit
      ⟨a.toNat < b.toNat + c.toNat, true,
        subtractOverflows (Word.high a) (Word.high b) (Word.high o.value),
        a.toNat % 4096 < b.toNat % 4096 + c.toNat, o.value == 0⟩ (Word.high o.value) k := by
  intro o
  simp only [o, subtractWordsBorrow, subtractOverflows_high, bit_or, bit_wordFlags _ _ _ _ hk]
  interval_cases k <;> simp [Conditions.bit, bit]

/-- The sum of the bytes of two words: apart from zero, its flags are those of the sum of words. -/
theorem chain_add_bytes (flags : UInt8) (a b : UInt16) (c : Bool) :
    let value := UInt16.ofNat (a.toNat + b.toNat + c.toNat)
    let result := chain zilog.add zilog.carrySet flags c (Word.bytes a) (Word.bytes b)
    Word.bytes value = result.1 ∧ ∀ k < 8, bit result.2 k = Conditions.bit
      ⟨65536 ≤ a.toNat + b.toNat + c.toNat, false,
        addOverflows (Word.high a) (Word.high b) (Word.high value),
        4096 ≤ a.toNat % 4096 + b.toNat % 4096 + c.toNat, Word.high value == 0⟩
      (Word.high value) k := by
  intro value result
  obtain ⟨hbytes, hcarry, hhalf⟩ := sum_by_bytes a b c
  simp only [← FlagLayout.carrySet_add (.inr rfl) flags] at hbytes hcarry hhalf
  have hhigh := (List.cons.inj (List.cons.inj hbytes).2).1
  refine ⟨hbytes, fun k hk => (bit_add _ _ _ _ hk).trans ?_⟩
  -- The high byte of the word is what the operation on the high bytes answers.
  rw [show Word.high value = _ from hhigh]
  simp only [hcarry, hhalf]
  rfl

/-- The difference of the bytes of two words: apart from zero, its flags are those of the difference
of words. -/
theorem chain_sub_bytes (flags : UInt8) (a b : UInt16) (c : Bool) :
    let value := UInt16.ofNat (a.toNat + 131072 - (b.toNat + c.toNat))
    let result := chain zilog.sub zilog.carrySet flags c (Word.bytes a) (Word.bytes b)
    Word.bytes value = result.1 ∧ ∀ k < 8, bit result.2 k = Conditions.bit
      ⟨a.toNat < b.toNat + c.toNat, true,
        subtractOverflows (Word.high a) (Word.high b) (Word.high value),
        a.toNat % 4096 < b.toNat % 4096 + c.toNat, Word.high value == 0⟩
      (Word.high value) k := by
  intro value result
  obtain ⟨hbytes, hborrow, hhalf⟩ := difference_by_bytes a b c
  simp only [← FlagLayout.borrowSet_sub (.inr rfl) flags] at hbytes hborrow hhalf
  have hhigh := (List.cons.inj (List.cons.inj hbytes).2).1
  refine ⟨hbytes, fun k hk => (bit_sub _ _ _ _ hk).trans ?_⟩
  rw [show Word.high value = _ from hhigh]
  simp only [hborrow, hhalf]
  rfl

/-- Arithmetic on words is that on their bytes from the low end. Without carry it leaves sign, zero
and overflow as they were; with carry only zero is told by the whole word. -/
theorem words_by_bytes (s : Z80) (a b : UInt16) :
    let c := s.flag flagC
    let plain := addWords s.f a b
    let sum := addWordsCarry a b c
    let difference := subtractWordsBorrow a b c
    let plainBytes := chain zilog.add zilog.carrySet s.f false (Word.bytes a) (Word.bytes b)
    let sumBytes := chain zilog.add zilog.carrySet s.f c (Word.bytes a) (Word.bytes b)
    let differenceBytes := chain zilog.sub zilog.carrySet s.f c (Word.bytes a) (Word.bytes b)
    let kept := flagS ||| flagZ ||| flagV
    let common := flagC ||| flagH ||| flagN ||| flag3 ||| flag5
    let signed := common ||| flagS ||| flagV
    (Word.bytes plain.value = plainBytes.1 ∧ plain.flags &&& common = plainBytes.2 &&& common ∧
      plain.flags &&& kept = s.f &&& kept) ∧
    (Word.bytes sum.value = sumBytes.1 ∧ sum.flags &&& signed = sumBytes.2 &&& signed ∧
      (sum.flags &&& flagZ ≠ 0 ↔ sum.value = 0)) ∧
    (Word.bytes difference.value = differenceBytes.1 ∧
      difference.flags &&& signed = differenceBytes.2 &&& signed ∧
      (difference.flags &&& flagZ ≠ 0 ↔ difference.value = 0)) := by
  intro c plain sum difference plainBytes sumBytes differenceBytes kept common signed
  obtain ⟨hplain, hplainBits⟩ := chain_add_bytes s.f a b false
  obtain ⟨hsum, hsumBits⟩ := chain_add_bytes s.f a b c
  obtain ⟨hdifference, hdifferenceBits⟩ := chain_sub_bytes s.f a b c
  have hzero (flags : UInt8) : (flags &&& flagZ ≠ 0 ↔ bit flags 6 = true) := by
    have hmask : flagZ.toNat = 2 ^ 6 := rfl
    rw [← and_mask_ne_zero flags hmask, bne_iff_ne]
  have hsigned : bit signed 6 = false := by decide
  refine ⟨⟨hplain, ?_, ?_⟩, ⟨hsum, ?_, ?_⟩, hdifference, ?_, ?_⟩
  · refine and_congr_of_bits fun k hk hmask => ?_
    rw [bit_addWords _ _ _ hk, hplainBits k hk]
    interval_cases k <;> first | rfl | exact absurd hmask (by decide)
  · refine and_congr_of_bits fun k hk hmask => ?_
    rw [bit_addWords _ _ _ hk, if_pos hmask]
  · exact Conditions.and_mask_congr (fun k hk => bit_addWordsCarry a b c hk) hsumBits hsigned
  · rw [hzero, bit_addWordsCarry _ _ _ (by decide), Conditions.bit_zero, beq_iff_eq]
  · exact Conditions.and_mask_congr (fun k hk => bit_subtractWordsBorrow a b c hk)
      hdifferenceBits hsigned
  · rw [hzero, bit_subtractWordsBorrow _ _ _ (by decide), Conditions.bit_zero, beq_iff_eq]

/-- What a correction to packed decimal adds to the accumulator or takes from it. -/
def correction (flags a : UInt8) : UInt8 :=
  maskIf (bit flags 4 || 9 < a.toNat % 16) 0x06 ||| maskIf (bit flags 0 || 0x99 < a.toNat) 0x60

theorem toNat_correction (flags a : UInt8) :
    (correction flags a).toNat = (if bit flags 4 = true ∨ 9 < a.toNat % 16 then 6 else 0) +
      (if bit flags 0 = true ∨ 0x99 < a.toNat then 96 else 0) := by
  have hmasks (low high : Bool) : (maskIf low 0x06 ||| maskIf high 0x60).toNat =
      (if low then 6 else 0) + (if high then 96 else 0) := by
    cases low <;> cases high <;> rfl
  simp only [correction, hmasks, Bool.or_eq_true, decide_eq_true_eq]

theorem value_decimalAdjust (flags a : UInt8) :
    (decimalAdjust flags a).value =
      if bit flags 1 then a - correction flags a else a + correction flags a := by
  have hcarry : (flags &&& flagC == flagC) = bit flags 0 := and_mask_eq_mask flags rfl
  have hsubtract : (flags &&& flagN == flagN) = bit flags 1 := and_mask_eq_mask flags rfl
  have hhalf : (flags &&& flagH == flagH) = bit flags 4 := and_mask_eq_mask flags rfl
  have hlow : (a &&& 0x0f).toNat = a.toNat % 16 := Nat.and_two_pow_sub_one_eq_mod a.toNat 4
  have hdigit : decide (9 < a &&& 0x0f) = decide (9 < a.toNat % 16) := by
    rw [decide_eq_decide, UInt8.lt_iff_toNat_lt, hlow]
    rfl
  simp only [decimalAdjust, FlagLayout.pass, hcarry, hsubtract, hhalf, hdigit]
  split <;> rfl

theorem carrySet_decimalAdjust (flags a : UInt8) :
    zilog.carrySet (decimalAdjust flags a).flags = (bit flags 0 || 0x99 < a.toNat) := by
  have hcarry : (flags &&& flagC == flagC) = bit flags 0 := and_mask_eq_mask flags rfl
  have hpass (kept v : UInt8) : bit (zilog.pass kept v).flags 0 = bit kept 0 := by
    rw [FlagLayout.bit_pass _ _ _ (by decide)]
    rfl
  simp only [FlagLayout.carrySet_eq (.inr rfl), decimalAdjust, hpass, hcarry, bit_or, bit_and,
    bit_maskIf]
  have hC : bit flagC 0 = true := rfl
  have hN : bit flagN 0 = false := rfl
  have hH : bit flagH 0 = false := rfl
  have hV : bit flagV 0 = false := rfl
  simp [hC, hN, hH, hV]
  rfl

end Z80

end EightBit
