import EightBit.Proofs.Decimal
import EightBit.Proofs.Z80.Arithmetic

/-!
Packed decimal arithmetic on the Z80: a binary sum or difference, then a correction of the
accumulator. Together they are decimal operations on bytes, which can be chained as those of the
6502 can.
-/

namespace EightBit

open Byte

namespace Z80

open FlagLayout (zilog)

def adjusted (op : UInt8 → UInt8 → UInt8 → Bool → Outcome) (flags a b : UInt8) (c : Bool) :
    Outcome :=
  let o := op flags a b c
  decimalAdjust o.flags o.value

/-- The correction of a binary result with the digits `high` and `low`, of which `v` is what a byte
holds: if each nibble is corrected where its decimal digit carries, the result is decimal. -/
theorem decimalAdjust_of_digits {flags v : UInt8} {high low σ : Int}
    (hσ : σ = if bit flags 1 then -1 else 1) (hv : (v.toNat : Int) = (16 * high + low) % 256)
    (hlow : low / 10 = if bit flags 4 = true ∨ 9 < v.toNat % 16 then σ else 0)
    (hhigh : (high + low / 10) / 10 = if bit flags 0 = true ∨ 0x99 < v.toNat then σ else 0) :
    let o := decimalAdjust flags v
    (o.value.toNat : Int) = (high + low / 10) % 10 * 16 + low % 10 ∧
      σ * (zilog.carrySet o.flags).toNat = (high + low / 10) / 10 := by
  intro o
  have hfix : σ * (correction flags v).toNat = 6 * (low / 10) + 96 * ((high + low / 10) / 10) := by
    rw [toNat_correction, hhigh, hlow]
    split_ifs <;> push_cast <;> ring
  have hvalue : (o.value.toNat : Int) = (v.toNat + σ * (correction flags v).toNat) % 256 := by
    have hcorrection := (correction flags v).toNat_lt
    simp only [o, value_decimalAdjust]
    cases hsubtract : bit flags 1 with
    | false =>
      rw [hsubtract] at hσ
      simp only [hσ, Bool.false_eq_true, ↓reduceIte, UInt8.toNat_add]
      omega
    | true =>
      rw [hsubtract] at hσ
      simp only [hσ, ↓reduceIte, UInt8.toNat_sub]
      omega
  have hcarry : (zilog.carrySet o.flags).toNat =
      if bit flags 0 = true ∨ 0x99 < v.toNat then 1 else 0 := by
    rw [carrySet_decimalAdjust]
    cases bit flags 0 <;> simp [toNat_decide]
  constructor
  · rw [hvalue, hfix, hv, Int.emod_add_emod, ← FlagLayout.add_six_add_sixty_mod,
      Int.add_assoc _ (6 * _)]
  · rw [hhigh, hcarry]
    split_ifs <;> simp

/-- A nibble or a byte of a binary sum is corrected exactly if the decimal digit carries. -/
theorem corrected_sum {high low v : Nat} (hhigh : high ≤ 18) (hlow : low ≤ 19)
    (hv : v = (16 * high + low) % 256) :
    (low / 10 = if 16 ≤ low ∨ 9 < v % 16 then 1 else 0) ∧
      ((high + low / 10) / 10 = if 256 ≤ 16 * high + low ∨ 0x99 < v then 1 else 0) := by
  have hcarry : low / 10 = if 9 < low then 1 else 0 := by split_ifs <;> omega
  rw [hcarry, hv]
  split_ifs <;> omega

/-- A nibble or a byte of a binary difference is corrected exactly if the decimal digit borrows. -/
theorem corrected_difference {high low v : Int} (hhigh : -9 ≤ high ∧ high ≤ 9)
    (hlow : -10 ≤ low ∧ low ≤ 9) (hv : v = (16 * high + low) % 256) :
    (low / 10 = if low < 0 ∨ 9 < v % 16 then -1 else 0) ∧
      ((high + low / 10) / 10 = if 16 * high + low < 0 ∨ 0x99 < v then -1 else 0) := by
  have hborrow : low / 10 = if low < 0 then -1 else 0 := by split_ifs <;> omega
  rw [hborrow, hv]
  split_ifs <;> omega

theorem decimalDigits_add : FlagLayout.DecimalDigits (adjusted zilog.add) zilog.carrySet 1 := by
  intro flags a b c ha hb
  obtain ⟨x, y, hx, hy, hahigh, halow, ha⟩ := ha.digits
  obtain ⟨x', y', hx', hy', hbhigh, hblow, hb⟩ := hb.digits
  have hc := c.toNat_le
  obtain ⟨low, hlow⟩ : ∃ low, y + y' + c.toNat = low := ⟨_, rfl⟩
  obtain ⟨high, hhigh⟩ : ∃ high, x + x' = high := ⟨_, rfl⟩
  have hlow' : (y : Int) + 1 * (y' + c.toNat) = low := by omega
  have hhigh' : (x : Int) + 1 * x' = high := by omega
  have hsum : a.toNat + b.toNat + c.toNat = 16 * high + low := by omega
  have hsubtract : bit (zilog.add flags a b c).flags 1 = false := bit_add _ _ _ _ (by decide)
  have hcarry : bit (zilog.add flags a b c).flags 0 = true ↔ 256 ≤ 16 * high + low := by
    rw [bit_add _ _ _ _ (by decide), ← hsum]
    exact decide_eq_true_iff
  have hhalf : bit (zilog.add flags a b c).flags 4 = true ↔ 16 ≤ low := by
    rw [bit_add _ _ _ _ (by decide), ← hlow, ← halow, ← hblow]
    exact decide_eq_true_iff
  have hvalue : (zilog.add flags a b c).value.toNat = (16 * high + low) % 256 := by
    rw [← hsum]
    exact UInt8.toNat_ofNat'
  obtain ⟨hlowFix, hhighFix⟩ :=
    corrected_sum (show high ≤ 18 by omega) (show low ≤ 19 by omega) hvalue
  simp only [hahigh, halow, hbhigh, hblow, hlow', hhigh', adjusted]
  apply decimalAdjust_of_digits
  · rw [hsubtract]
    rfl
  · exact_mod_cast hvalue
  · simp only [hhalf]
    exact_mod_cast hlowFix
  · simp only [hcarry]
    exact_mod_cast hhighFix

theorem decimalDigits_sub : FlagLayout.DecimalDigits (adjusted zilog.sub) zilog.carrySet (-1) := by
  intro flags a b c ha hb
  obtain ⟨x, y, hx, hy, hahigh, halow, ha⟩ := ha.digits
  obtain ⟨x', y', hx', hy', hbhigh, hblow, hb⟩ := hb.digits
  have hc := c.toNat_le
  obtain ⟨low, hlow⟩ : ∃ low : Int, (y : Int) + -1 * (y' + c.toNat) = low := ⟨_, rfl⟩
  obtain ⟨high, hhigh⟩ : ∃ high : Int, (x : Int) + -1 * x' = high := ⟨_, rfl⟩
  have hsubtract : bit (zilog.sub flags a b c).flags 1 = true := bit_sub _ _ _ _ (by decide)
  have hcarry : bit (zilog.sub flags a b c).flags 0 = true ↔ 16 * high + low < 0 := by
    rw [bit_sub _ _ _ _ (by decide)]
    refine decide_eq_true_iff.trans ?_
    omega
  have hhalf : bit (zilog.sub flags a b c).flags 4 = true ↔ low < 0 := by
    rw [bit_sub _ _ _ _ (by decide)]
    refine decide_eq_true_iff.trans ?_
    omega
  have hvalue : ((zilog.sub flags a b c).value.toNat : Int) = (16 * high + low) % 256 := by
    have hdifference : (zilog.sub flags a b c).value.toNat =
        (a.toNat + 512 - (b.toNat + c.toNat)) % 256 := UInt8.toNat_ofNat'
    omega
  obtain ⟨hlowFix, hhighFix⟩ := corrected_difference (show -9 ≤ high ∧ high ≤ 9 by omega)
    (show -10 ≤ low ∧ low ≤ 9 by omega) hvalue
  simp only [hahigh, halow, hbhigh, hblow, hlow, hhigh, adjusted]
  apply decimalAdjust_of_digits
  · rw [hsubtract]
    rfl
  · exact hvalue
  · simp only [hhalf]
    exact_mod_cast hlowFix
  · simp only [hcarry]
    exact_mod_cast hhighFix

def daa : Instruction := Instruction.fetch (fun _ => 0x27) 0

/-- One byte of a decimal calculation: row `y` of the arithmetic on the accumulator, and its
correction. -/
def decimalStep (s : Z80) (y : Nat) (a b : UInt8) : Z80 :=
  ({ s with a }.accumulate y b).perform daa

/-- A decimal calculation on the bytes of two numbers from the low end, and the bytes that it leaves
in the accumulator. -/
def decimalRun (y : Nat) : Z80 → List UInt8 → List UInt8 → List UInt8 × Z80
  | s, a :: as, b :: bs =>
    let o := s.decimalStep y a b
    let (vs, t) := decimalRun y o as bs
    (o.a :: vs, t)
  | s, _, _ => ([], s)

/-- The run is the chain of the corrected operation, which finds its carry in the flags. -/
theorem decimalRun_eq {y : Nat} {op : UInt8 → UInt8 → UInt8 → Bool → Outcome}
    (hop : ∀ (s : Z80) v, s.accumulate y v = s.setA (op s.f s.a v (s.flag flagC))) (s : Z80)
    (as bs : List UInt8) :
    let result := FlagLayout.chain (adjusted op) zilog.carrySet s.f (s.flag flagC) as bs
    (decimalRun y s as bs).1 = result.1 ∧ (decimalRun y s as bs).2.f = result.2 := by
  induction as generalizing s bs with
  | nil => exact ⟨rfl, rfl⟩
  | cons a as ih =>
    cases bs with
    | nil => exact ⟨rfl, rfl⟩
    | cons b bs =>
      have hstep : s.decimalStep y a b =
          { s with a }.setA (adjusted op s.f a b (s.flag flagC)) := by
        rw [decimalStep, hop]
        rfl
      obtain ⟨hbytes, hflags⟩ := ih (s.decimalStep y a b) bs
      rw [flag_carry] at hbytes hflags
      rw [hstep] at hbytes hflags
      simp only [decimalRun, FlagLayout.chain, hstep]
      exact ⟨congrArg _ hbytes, hflags⟩

/-- A decimal calculation that starts with a carry in the flags. -/
theorem decimalSums {y : Nat} {op : UInt8 → UInt8 → UInt8 → Bool → Outcome} {σ : Int}
    (hop : ∀ (s : Z80) v, s.accumulate y v = s.setA (op s.f s.a v (s.flag flagC)))
    (h : FlagLayout.DecimalDigits (adjusted op) zilog.carrySet σ) (s : Z80) (c : Bool)
    {as bs : List UInt8} (has : ∀ a ∈ as, IsPacked a) (hbs : ∀ b ∈ bs, IsPacked b)
    (hlength : bs.length = as.length) :
    let run := decimalRun y (s.setFlag flagC c) as bs
    FlagLayout.DecimalSums zilog.carrySet σ as bs c (run.1, run.2.f) := by
  intro run
  obtain ⟨hbytes, hflags⟩ := decimalRun_eq hop (s.setFlag flagC c) as bs
  have hcarry : (s.setFlag flagC c).flag flagC = c := by
    rw [flag_carry, FlagLayout.carrySet_eq (.inr rfl)]
    exact FlagLayout.bit_put _ _ _ (by decide)
  have hsums := h.chains.sums_carried (s.setFlag flagC c).f has hbs hlength
  rw [← flag_carry, hcarry] at hsums
  rw [hcarry] at hbytes hflags
  rw [hbytes, hflags]
  exact hsums

end Z80

open FlagLayout

/-- Decimal sums and differences of any number of bytes are those of the numbers that the bytes
denote, on both processors, and the last carry or borrow tells what does not fit. -/
theorem decimal_arithmetic (flags : UInt8) (s : Z80) (c : Bool) {n : Nat} {as bs : List UInt8}
    (hn : 1 ≤ n) (has : as.length = n) (hbs : bs.length = n) (hasPacked : ∀ a ∈ as, IsPacked a)
    (hbsPacked : ∀ b ∈ bs, IsPacked b) :
    let A := ofPacked as
    let B := ofPacked bs
    let sum := packed n ((A + B + c.toNat) % 100 ^ n)
    let difference := packed n (((A : Int) - B - c.toNat) % (100 ^ n : Nat)).toNat
    let mosSum := chain mos.addDecimal mos.carrySet flags c as bs
    let mosDifference := chain mos.subDecimal mos.borrowSet flags c as bs
    let zilogSum := Z80.decimalRun 1 (s.setFlag Z80.flagC c) as bs
    let zilogDifference := Z80.decimalRun 3 (s.setFlag Z80.flagC c) as bs
    (mosSum.1 = sum ∧ (mos.carrySet mosSum.2 = true ↔ 100 ^ n ≤ A + B + c.toNat)) ∧
      (zilogSum.1 = sum ∧ (zilogSum.2.flag Z80.flagC = true ↔ 100 ^ n ≤ A + B + c.toNat)) ∧
      (mosDifference.1 = difference ∧ (mos.borrowSet mosDifference.2 = true ↔ A < B + c.toNat)) ∧
      (zilogDifference.1 = difference ∧
        (zilogDifference.2.flag Z80.flagC = true ↔ A < B + c.toNat)) := by
  intro A B sum difference mosSum mosDifference zilogSum zilogDifference
  subst has
  have hne : as ≠ [] := List.length_pos_iff.mp hn
  have hmosSum := decimalDigits_addDecimal.chains.sums flags c hne hasPacked hbsPacked hbs
  have hmosDifference := decimalDigits_subDecimal.chains.sums flags c hne hasPacked hbsPacked hbs
  have hzilogSum := Z80.decimalSums (y := 1) (fun _ _ => rfl) Z80.decimalDigits_add s c hasPacked
    hbsPacked hbs
  have hzilogDifference := Z80.decimalSums (y := 3) (fun _ _ => rfl) Z80.decimalDigits_sub s c
    hasPacked hbsPacked hbs
  rw [Z80.flag_carry, Z80.flag_carry]
  exact ⟨hmosSum.sum, hzilogSum.sum, hmosDifference.difference, hzilogDifference.difference⟩

/-- A carry runs through both bytes of 5849 + 4150 and a borrow through those of 1000 - 1000. -/
theorem decimal_arithmetic_words :
    let s := Z80.powerOn (Memory.ram 0) (Memory.ram 0) {}
    let sum := Z80.decimalRun 1 (s.setFlag Z80.flagC true) [0x49, 0x58] [0x50, 0x41]
    let difference := chain mos.subDecimal mos.borrowSet 0 true [0x00, 0x10] [0x00, 0x10]
    (sum.1 = [0x00, 0x00] ∧ sum.2.flag Z80.flagC = true) ∧
      difference.1 = [0x99, 0x99] ∧ mos.borrowSet difference.2 = true := by
  intro s sum difference
  have hpair {a b : UInt8} (ha : IsPacked a) (hb : IsPacked b) : ∀ v ∈ [a, b], IsPacked v :=
    List.forall_mem_cons.mpr ⟨ha, List.forall_mem_singleton.mpr hb⟩
  obtain ⟨-, ⟨hbytes, hcarry⟩, -⟩ :=
    decimal_arithmetic 0 s true (show 1 ≤ 2 by decide) (show [0x49, 0x58].length = 2 from rfl)
      (show [0x50, 0x41].length = 2 from rfl) (hpair (by decide) (by decide))
      (hpair (by decide) (by decide))
  obtain ⟨-, -, ⟨hbytes', hborrow⟩, -⟩ :=
    decimal_arithmetic 0 s true (show 1 ≤ 2 by decide) (show [0x00, 0x10].length = 2 from rfl)
      (show [0x00, 0x10].length = 2 from rfl) (hpair (by decide) (by decide))
      (hpair (by decide) (by decide))
  exact ⟨⟨hbytes.trans (by decide), hcarry.mpr (by decide)⟩, hbytes'.trans (by decide),
    hborrow.mpr (by decide)⟩

end EightBit
