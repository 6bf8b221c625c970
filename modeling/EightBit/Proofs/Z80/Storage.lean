import Mathlib.Logic.Function.Basic
import EightBit.Proofs.Ports
import EightBit.Proofs.Word
import EightBit.Z80.Step

/-!
A Z80 whose memory is storage throughout: what it writes and pushes, it reads and pulls again.
-/

namespace EightBit.Z80

variable {s : Z80} (hs : s.mem.InstanceOf (Memory.ram 0x10000))
include hs

theorem instanceOf_write (addr : UInt16) (v : UInt8) :
    (s.write addr v).mem.InstanceOf (Memory.ram 0x10000) :=
  hs.write s.latches _ v

theorem write_eq (addr : UInt16) (v : UInt8) :
    s.write addr v = { s with mem := (s.write addr v).mem } := by
  have hwrite := Memory.write_of_not_isPort (hs.not_isPort_ram addr.toNat) s.latches s.latches v
  simp only [write]
  rw [hwrite]

theorem read_write (addr : UInt16) (v : UInt8) :
    (s.write addr v).read = Function.update s.read addr v := by
  funext other
  have hread := hs.read_write s.latches s.latches addr.toNat_lt other.toNat_lt v
  simp only [UInt16.toNat_inj] at hread
  rw [read, write_eq hs, Function.update_apply]
  exact hread

theorem instanceOf_writeWord (addr w : UInt16) :
    (s.writeWord addr w).mem.InstanceOf (Memory.ram 0x10000) := by
  apply instanceOf_write
  apply instanceOf_write
  exact hs

theorem writeWord_eq (addr w : UInt16) :
    s.writeWord addr w = { s with mem := (s.writeWord addr w).mem } := by
  have hlow := instanceOf_write hs addr (Word.low w)
  rw [writeWord, write_eq hlow, write_eq hs]

theorem read_writeWord (addr w : UInt16) :
    (s.writeWord addr w).read =
      Function.update (Function.update s.read addr (Word.low w)) (addr + 1) (Word.high w) := by
  have hlow := instanceOf_write hs addr (Word.low w)
  rw [writeWord, read_write hlow, read_write hs]

theorem instanceOf_push (w : UInt16) : (s.push w).mem.InstanceOf (Memory.ram 0x10000) :=
  instanceOf_writeWord (s := { s with sp := s.sp - 2 }) hs (s.sp - 2) w

theorem push_eq (w : UInt16) :
    s.push w = { s with sp := s.sp - 2, mem := (s.push w).mem } :=
  writeWord_eq (s := { s with sp := s.sp - 2 }) hs (s.sp - 2) w

/-- Two bytes are pushed, the high one above the low one, also around the end of memory. -/
theorem read_push (w addr : UInt16) :
    (s.push w).read addr =
      if addr = s.sp - 1 then Word.high w else if addr = s.sp - 2 then Word.low w
      else s.read addr := by
  have habove : s.sp - 2 + 1 = s.sp - 1 := by grind
  have hwords := read_writeWord (s := { s with sp := s.sp - 2 }) hs (s.sp - 2) w
  rw [push, hwords, Function.update_apply, Function.update_apply, habove]
  rfl

/-- What was pushed is what a pop finds. -/
theorem readWord_push (w : UInt16) : (s.push w).readWord (s.sp - 2) = w := by
  have habove : s.sp - 2 + 1 = s.sp - 1 := by grind
  have hbelow : s.sp - 2 ≠ s.sp - 1 := by grind
  rw [readWord, read_push hs, read_push hs, habove, if_pos rfl, if_neg hbelow, if_pos rfl,
    Word.word_high_low]

end EightBit.Z80
