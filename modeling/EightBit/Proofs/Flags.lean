import EightBit.Flags
import Mathlib.Data.Nat.Bitwise

/-!
Flags as bits of a byte: what an operation leaves in each of them, and which of them it can change.
-/

namespace EightBit

namespace Byte

def bit (v : UInt8) (k : Nat) : Bool := v.toBitVec.getLsbD k

theorem bit_zero (k : Nat) : bit 0 k = false := BitVec.getLsbD_zero

@[simp] theorem bit_and (v w : UInt8) (k : Nat) : bit (v &&& w) k = (bit v k && bit w k) := by
  simp [bit]

@[simp] theorem bit_or (v w : UInt8) (k : Nat) : bit (v ||| w) k = (bit v k || bit w k) := by
  simp [bit]

@[simp] theorem bit_xor (v w : UInt8) (k : Nat) : bit (v ^^^ w) k = (bit v k ^^ bit w k) := by
  simp [bit]

theorem bit_not (v : UInt8) {k : Nat} (hk : k < 8) : bit (~~~v) k = !bit v k := by
  simp [bit, hk]

/-- The highest bit tells the upper half of the bytes. -/
theorem bit_seven (v : UInt8) : bit v 7 = decide (128 ≤ v.toNat) := by
  have hv := v.toNat_lt
  rw [bit, ← BitVec.testBit_toNat, UInt8.toNat_toBitVec, Nat.testBit_eq_decide_div_mod_eq,
    decide_eq_decide]
  omega

theorem toNat_and_mask (v : UInt8) {mask : UInt8} {k : Nat} (hmask : mask.toNat = 2 ^ k) :
    (v &&& mask).toNat = (bit v k).toNat * 2 ^ k := by
  rw [UInt8.toNat_and, hmask, Nat.and_two_pow]
  rfl

/-- A mask of one bit tells whether a byte has that bit. -/
theorem and_mask_ne_zero (v : UInt8) {mask : UInt8} {k : Nat} (hmask : mask.toNat = 2 ^ k) :
    (v &&& mask != 0) = bit v k := by
  have hzero : v &&& mask = 0 ↔ bit v k = false := by
    rw [← UInt8.toNat_inj, toNat_and_mask v hmask]
    cases bit v k <;> simp
  cases hbit : bit v k <;> simp [hzero, hbit]

theorem and_mask_eq_mask (v : UInt8) {mask : UInt8} {k : Nat} (hmask : mask.toNat = 2 ^ k) :
    (v &&& mask == mask) = bit v k := by
  have hpos : 0 ≠ 2 ^ k := (Nat.two_pow_pos k).ne
  have hfull : v &&& mask = mask ↔ bit v k = true := by
    rw [← UInt8.toNat_inj, toNat_and_mask v hmask, hmask]
    cases bit v k <;> simp [hpos]
  rw [Bool.eq_iff_iff, beq_iff_eq, hfull]

/-- The bits of a mask of one bit. -/
theorem bit_mask {mask : UInt8} {k : Nat} (hmask : mask.toNat = 2 ^ k) (j : Nat) :
    bit mask j = decide (k = j) := by
  rw [bit, ← BitVec.testBit_toNat, UInt8.toNat_toBitVec, hmask, Nat.testBit_two_pow]

theorem eq_of_bits {v w : UInt8} (h : ∀ k < 8, bit v k = bit w k) : v = w :=
  UInt8.toBitVec_inj.mp (BitVec.eq_of_getLsbD_eq h)

/-- Two bytes agree under a mask if they do in each of its bits. -/
theorem and_congr_of_bits {v w mask : UInt8}
    (h : ∀ k < 8, bit mask k = true → bit v k = bit w k) : v &&& mask = w &&& mask := by
  apply eq_of_bits
  intro k hk
  rw [bit_and, bit_and]
  cases hmask : bit mask k with
  | false => rw [Bool.and_false, Bool.and_false]
  | true => rw [h k hk hmask]

end Byte

open Byte

namespace FlagLayout

section Bits

variable (L : FlagLayout) (flags : UInt8)

theorem bit_put (mask : UInt8) (on : Bool) {k : Nat} (hk : k < 8) :
    bit (put flags mask on) k = if bit mask k then on else bit flags k := by
  cases on <;> cases hmask : bit mask k <;> simp [put, bit_not, hk, hmask]

theorem bit_put_mask {mask : UInt8} {k : Fin 8} (hmask : mask.toNat = 2 ^ k.val) (on : Bool)
    (j : Fin 8) : bit (put flags mask on) j = if j = k then on else bit flags j := by
  have hsame : k.val = j.val ↔ j = k := Fin.val_inj.trans eq_comm
  rw [bit_put flags mask on j.isLt, bit_mask hmask]
  simp only [decide_eq_true_eq, hsame]

theorem bit_copyFrom (v : UInt8) {k : Nat} (hk : k < 8) :
    bit (L.copyFrom flags v) k = if bit L.copy k then bit v k else bit flags k := by
  cases hcopy : bit L.copy k <;> simp [copyFrom, bit_not, hk, hcopy]

theorem bit_pass (v : UInt8) {k : Nat} (hk : k < 8) :
    bit (L.pass flags v).flags k =
      if bit L.copy k then bit v k
      else if bit L.sign k then v &&& 0x80 != 0
      else if bit L.zero k then v == 0
      else bit flags k := by
  simp only [pass, bit_copyFrom L _ v hk, bit_put _ _ _ hk]

theorem bit_add (a b : UInt8) (c : Bool) {k : Nat} (hk : k < 8) :
    bit (L.add flags a b c).flags k =
      let o := L.add flags a b c
      if bit L.copy k then bit o.value k
      else if bit L.sign k then o.value &&& 0x80 != 0
      else if bit L.zero k then o.value == 0
      else if bit L.subtract k then false
      else if bit L.half k then 16 ≤ a.toNat % 16 + b.toNat % 16 + c.toNat
      else if bit L.overflow k then addOverflows a b o.value
      else if bit L.carry k then 256 ≤ a.toNat + b.toNat + c.toNat
      else bit flags k := by
  simp only [add, bit_pass L _ _ hk, bit_put _ _ _ hk]
  rfl

theorem bit_sub (a b : UInt8) (c : Bool) {k : Nat} (hk : k < 8) :
    bit (L.sub flags a b c).flags k =
      let o := L.sub flags a b c
      if bit L.copy k then bit o.value k
      else if bit L.sign k then o.value &&& 0x80 != 0
      else if bit L.zero k then o.value == 0
      else if bit L.subtract k then true
      else if bit L.half k then a.toNat % 16 < b.toNat % 16 + c.toNat
      else if bit L.overflow k then subtractOverflows a b o.value
      else if bit L.carry k then
        match L.family with
        | .mos => !decide (a.toNat < b.toNat + c.toNat)
        | .zilog => decide (a.toNat < b.toNat + c.toNat)
      else bit flags k := by
  simp only [sub, bit_pass L _ _ hk, bit_put _ _ _ hk]
  rfl

end Bits

/-- Whether flags differ at most in the bits of a mask. -/
def ChangesWithin (mask before after : UInt8) : Prop :=
  ∀ k < 8, bit mask k = false → bit after k = bit before k

namespace ChangesWithin

variable {mask u v w : UInt8}

theorem refl (mask v : UInt8) : ChangesWithin mask v v := fun _ _ _ => rfl

theorem or {other : UInt8} (huv : ChangesWithin mask u v) (hvw : ChangesWithin other v w) :
    ChangesWithin (mask ||| other) u w := by
  intro k hk houtside
  rw [bit_or, Bool.or_eq_false_iff] at houtside
  exact (hvw k hk houtside.2).trans (huv k hk houtside.1)

theorem mono (h : ChangesWithin mask u v) {mask' : UInt8} (hmask : mask' ||| mask = mask') :
    ChangesWithin mask' u v := by
  intro k hk houtside
  rw [← hmask, bit_or, Bool.or_eq_false_iff] at houtside
  exact h k hk houtside.2

theorem all (v w : UInt8) : ChangesWithin 0xff v w := by
  intro k hk hmask
  have hset : ∀ k < 8, bit 0xff k = true := by decide
  rw [hset k hk] at hmask
  contradiction

theorem eq_of_zero (h : ChangesWithin 0 v w) : w = v :=
  eq_of_bits fun k hk => h k hk (bit_zero k)

end ChangesWithin

theorem changesWithin_put (flags mask : UInt8) (on : Bool) :
    ChangesWithin mask flags (put flags mask on) := by
  intro k hk hmask
  rw [bit_put flags mask on hk, hmask]
  rfl

theorem ChangesWithin.put {mask u v : UInt8} (h : ChangesWithin mask u v) (m : UInt8) (on : Bool) :
    ChangesWithin (mask ||| m) u (FlagLayout.put v m on) :=
  h.or (changesWithin_put v m on)

section Operations

variable (L : FlagLayout)

def valueFlags : UInt8 := L.zero ||| L.sign ||| L.copy

def sumFlags : UInt8 := L.carry ||| L.overflow ||| L.half ||| L.subtract ||| L.valueFlags

/-- The flags that a comparison sets; the 6502 leaves overflow alone. -/
def compareFlags : UInt8 :=
  match L.family with
  | .mos => L.carry ||| L.valueFlags
  | .zilog => L.sumFlags ||| L.copy

/-- The flags that a bitwise operation sets, which on the 6502 tell about its value only. -/
def logicFlags : UInt8 :=
  match L.family with
  | .mos => L.valueFlags
  | .zilog => L.carry ||| L.half ||| L.subtract ||| L.parity ||| L.valueFlags

def shiftFlags : UInt8 :=
  match L.family with
  | .mos => L.carry ||| L.valueFlags
  | .zilog => L.carry ||| L.half ||| L.subtract ||| L.parity ||| L.valueFlags

def countFlags : UInt8 :=
  match L.family with
  | .mos => L.valueFlags
  | .zilog => L.half ||| L.overflow ||| L.subtract ||| L.valueFlags

theorem changesWithin_copyFrom (flags value : UInt8) :
    ChangesWithin L.copy flags (L.copyFrom flags value) := by
  intro k hk hcopy
  rw [bit_copyFrom L flags value hk, hcopy]
  rfl

theorem changesWithin_pass (flags value : UInt8) :
    ChangesWithin L.valueFlags flags (L.pass flags value).flags :=
  ((changesWithin_put flags L.zero _).put L.sign _).or (L.changesWithin_copyFrom _ value)

theorem ChangesWithin.pass {mask u v : UInt8} (h : ChangesWithin mask u v) (value : UInt8) :
    ChangesWithin (mask ||| L.valueFlags) u (L.pass v value).flags :=
  h.or (L.changesWithin_pass v value)

-- The masks are put together in the order in which the operations set the flags.
variable (flags a b : UInt8) (c : Bool)

theorem changesWithin_add : ChangesWithin L.sumFlags flags (L.add flags a b c).flags :=
  ((((changesWithin_put flags L.carry _).put L.overflow _).put L.half _).put L.subtract _).pass L _

theorem changesWithin_sub : ChangesWithin L.sumFlags flags (L.sub flags a b c).flags :=
  ((((changesWithin_put flags L.carry _).put L.overflow _).put L.half _).put L.subtract _).pass L _

theorem changesWithin_addDecimal :
    ChangesWithin (L.zero ||| L.sign ||| L.overflow ||| L.carry) flags
      (L.addDecimal flags a b c).flags :=
  (((changesWithin_put flags L.zero _).put L.sign _).put L.overflow _).put L.carry _

theorem changesWithin_subDecimal :
    ChangesWithin L.sumFlags flags (L.subDecimal flags a b c).flags :=
  L.changesWithin_sub flags a b c

theorem changesWithin_compare : ChangesWithin L.compareFlags flags (L.compare flags a b) := by
  unfold compareFlags compare
  cases L.family with
  | mos => exact (changesWithin_put flags L.carry _).pass L _
  | zilog => exact (L.changesWithin_sub flags a b false).or (L.changesWithin_copyFrom _ b)

theorem changesWithin_logic : ChangesWithin L.logicFlags flags (L.logic flags a c).flags := by
  unfold logicFlags logic
  cases L.family with
  | mos => exact L.changesWithin_pass flags a
  | zilog =>
    exact ((((changesWithin_put flags L.carry _).put L.half _).put L.subtract _).put
      L.parity _).pass L _

theorem changesWithin_and : ChangesWithin L.logicFlags flags (L.and flags a b).flags :=
  L.changesWithin_logic _ _ _

theorem changesWithin_or : ChangesWithin L.logicFlags flags (L.or flags a b).flags :=
  L.changesWithin_logic _ _ _

theorem changesWithin_xor : ChangesWithin L.logicFlags flags (L.xor flags a b).flags :=
  L.changesWithin_logic _ _ _

theorem changesWithin_shifted : ChangesWithin L.shiftFlags flags (L.shifted flags a c).flags := by
  unfold shiftFlags shifted
  cases L.family with
  | mos => exact (changesWithin_put flags L.carry _).pass L _
  | zilog =>
    exact ((((changesWithin_put flags L.carry _).put L.half _).put L.subtract _).put
      L.parity _).pass L _

theorem changesWithin_shiftLeft :
    ChangesWithin L.shiftFlags flags (L.shiftLeft flags a c).flags :=
  L.changesWithin_shifted _ _ _

theorem changesWithin_shiftRight :
    ChangesWithin L.shiftFlags flags (L.shiftRight flags a c).flags :=
  L.changesWithin_shifted _ _ _

theorem changesWithin_increment :
    ChangesWithin L.countFlags flags (L.increment flags a).flags := by
  unfold countFlags increment
  cases L.family with
  | mos => exact L.changesWithin_pass flags _
  | zilog =>
    exact (((changesWithin_put flags L.half _).put L.overflow _).put L.subtract _).pass L _

theorem changesWithin_decrement :
    ChangesWithin L.countFlags flags (L.decrement flags a).flags := by
  unfold countFlags decrement
  cases L.family with
  | mos => exact L.changesWithin_pass flags _
  | zilog =>
    exact (((changesWithin_put flags L.half _).put L.overflow _).put L.subtract _).pass L _

end Operations

end FlagLayout

end EightBit
