import EightBit.Proofs.Z80.Arithmetic
import EightBit.Proofs.Z80.Boundary

/-!
The repeating block operations of the Z80.

A repeating block operation handles one byte in a step, and moves the program counter back onto
itself until it is done. What it counts in BC and points to with HL and DE is then one further in
its direction.
-/

namespace EightBit.Z80

open Byte

/-- The address `k` bytes further in the direction of a block operation. -/
def further (down : Bool) (w : UInt16) (k : Nat) : UInt16 :=
  if down then w - UInt16.ofNat k else w + UInt16.ofNat k

section Further

variable (down : Bool) (w : UInt16)

@[simp] theorem further_zero : further down w 0 = w := by
  cases down
  · exact UInt16.add_zero w
  · exact UInt16.sub_zero w

theorem further_add (j k : Nat) : further down w (j + k) = further down (further down w j) k := by
  unfold further
  cases down <;> simp only [UInt16.ofNat_add] <;> grind

theorem toNat_further (k : Nat) :
    (further down w k).toNat =
      (if down then w.toNat + (0x10000 - k % 0x10000) else w.toNat + k) % 0x10000 := by
  have hw := w.toNat_lt
  unfold further
  cases down
  · simp [UInt16.toNat_add, UInt16.toNat_ofNat']
  · simp only [UInt16.toNat_sub, UInt16.toNat_ofNat', if_true]
    omega

/-- A block of at most all of memory has no address twice. -/
theorem further_inj {j k : Nat} (hj : j < 0x10000) (hk : k < 0x10000)
    (h : further down w j = further down w k) : j = k := by
  have hw := w.toNat_lt
  have hnat := congrArg UInt16.toNat h
  rw [toNat_further, toNat_further] at hnat
  cases down <;> simp only [if_true, if_false, Bool.false_eq_true] at hnat <;> omega

end Further

/-- How many bytes a block operation handles at most: the count in BC, where zero stands for all of
memory. -/
def repetitions (s : Z80) : Nat := if s.bc = 0 then 0x10000 else s.bc.toNat

section Repetitions

variable (s : Z80)

theorem repetitions_pos : 0 < s.repetitions := by
  unfold repetitions
  split
  · decide
  · next h =>
    rw [← UInt16.toNat_inj] at h
    exact Nat.pos_of_ne_zero h

theorem repetitions_le : s.repetitions ≤ 0x10000 := by
  have hbc := s.bc.toNat_lt
  unfold repetitions
  split <;> omega

/-- What is left of the count after some bytes is zero only at the end. -/
theorem toNat_bc_sub {k : Nat} (hpos : 0 < k) (hk : k ≤ s.repetitions) :
    (s.bc - UInt16.ofNat k).toNat = s.repetitions - k := by
  have hbc := s.bc.toNat_lt
  rw [UInt16.toNat_sub, UInt16.toNat_ofNat']
  unfold repetitions at hk ⊢
  split at hk
  · next h => simp only [h, if_true, UInt16.toNat_zero]; omega
  · next h => simp only [h, if_false]; omega

theorem bc_sub_eq_zero_iff {k : Nat} (hpos : 0 < k) (hk : k ≤ s.repetitions) :
    s.bc - UInt16.ofNat k = 0 ↔ k = s.repetitions := by
  rw [← UInt16.toNat_inj, toNat_bc_sub s hpos hk, UInt16.toNat_zero]
  omega

theorem bc_sub_bne_zero {k : Nat} (hpos : 0 < k) (hk : k ≤ s.repetitions) :
    (s.bc - UInt16.ofNat k != 0) = decide (k < s.repetitions) := by
  rw [Bool.eq_iff_iff, bne_iff_ne, decide_eq_true_iff, ne_eq, bc_sub_eq_zero_iff s hpos hk]
  omega

end Repetitions

section Counters

variable (s : Z80)

theorem setBC_bc : s.setBC s.bc = s := by
  simp only [setBC, bc, Word.high_word, Word.low_word]

theorem setDE_de : s.setDE s.de = s := by
  simp only [setDE, de, Word.high_word, Word.low_word]

theorem setHL_hl : s.setHL s.hl = s := by
  simp only [setHL, hl, Word.high_word, Word.low_word]

theorem bc_sub_zero : s.bc - UInt16.ofNat 0 = s.bc := UInt16.sub_zero s.bc

theorem bc_sub_succ (k : Nat) :
    s.bc - UInt16.ofNat k - 1 = s.bc - UInt16.ofNat (k + 1) := by
  rw [UInt16.ofNat_add]
  grind

end Counters

theorem flag_eq_bit (s : Z80) {mask : UInt8} {k : Nat} (hmask : mask.toNat = 2 ^ k) :
    s.flag mask = bit s.f k :=
  and_mask_eq_mask s.f hmask

/-- The byte that is handled leaves traces in the undocumented flags only. -/
theorem bit_blockBits (n : UInt8) {k : Nat} (hk : bit (flag3 ||| flag5) k = false) :
    bit (blockBits n) k = false := by
  rw [bit_or, Bool.or_eq_false_iff] at hk
  rw [blockBits, bit_or, bit_and, bit_maskIf, hk.1, hk.2, Bool.and_false, Bool.and_false,
    Bool.or_false]

section Step

variable {s : Z80} {down : Bool}

def repeating (down : Bool) : Nat := if down then 7 else 6

theorem advance_repeating (w : UInt16) : advance (repeating down) w = further down w 1 := by
  cases down <;> rfl

/-- What a block operation does with one byte, and whether a repeating form goes on. -/
def blockByte (s : Z80) (y z : Nat) : Bool × Z80 :=
  match z with
  | 0 => s.blockTransfer y
  | 1 => s.blockCompare y
  | 2 => s.blockInput y
  | _ => s.blockOutput y

theorem performBlock_eq (y z : Nat) :
    s.performBlock y z =
      if 6 ≤ y && (s.blockByte y z).1 then
        { (s.blockByte y z).2 with pc := (s.blockByte y z).2.pc - 2 }
      else (s.blockByte y z).2 := rfl

/-- A repeating form stays where it is while it goes on. -/
theorem performBlock_repeating {z : Nat} {again : Bool} {t : Z80} {pc : UInt16}
    (h : s.blockByte (repeating down) z = (again, t)) (hpc : t.pc = pc + 2) :
    s.performBlock (repeating down) z = { t with pc := if again then pc else pc + 2 } := by
  have hrow : 6 ≤ repeating down := by cases down <;> decide
  have hback : t.pc - 2 = pc := by rw [hpc, UInt16.add_sub_cancel]
  rw [performBlock_eq, h, hback]
  cases again
  · simp [← hpc]
  · simp [hrow]

def blockOpcode (down : Bool) (z : Nat) : UInt8 := (if down then 0xb8 else 0xb0) + UInt8.ofNat z

theorem fields_blockOpcode (down : Bool) {z : Nat} (hz : z < 4) :
    Opcode.x (blockOpcode down z) = 2 ∧ Opcode.y (blockOpcode down z) = repeating down ∧
      Opcode.z (blockOpcode down z) = z := by
  cases down <;> decide +revert

/-- A repeating block operation that is fetched handles a byte and is left unless it goes on. -/
theorem step_of_block {z : Nat} (hz : z < 4) {again : Bool} {t : Z80} (hfirst : s.read s.pc = 0xed)
    (hsecond : s.read (s.pc + 1) = blockOpcode down z)
    (hbyte : ({ s with pc := s.pc + 2, r := refreshed s.r 2 } : Z80).blockByte (repeating down) z =
      (again, t))
    (hpc : t.pc = s.pc + 2) :
    s.step = { t with pc := if again then s.pc else s.pc + 2 } := by
  obtain ⟨hopx, hopy, hopz⟩ := fields_blockOpcode down hz
  have hbytes : Opcode.extendedBytes (blockOpcode down z) = 0 := by
    simp [Opcode.extendedBytes, hopx]
  have hrow : 4 ≤ repeating down := by cases down <;> decide
  rw [← hsecond] at hbytes
  rw [← performBlock_repeating hbyte hpc, step_of_extended hfirst hbytes, hsecond]
  simp only [performExtended, hopx, hopy, hopz]
  apply if_pos
  simp [hrow, Nat.le_of_lt_succ hz]

end Step

end EightBit.Z80
