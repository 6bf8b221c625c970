import EightBit.Proofs.Layout

/-!
Memories that are storage throughout: what is written is what is read.
-/

namespace EightBit.Memory

theorem instanceOf_ram (size : Nat) : (ram size).InstanceOf (ram size) :=
  instanceOf_build size 1 [.ram 0 size]

theorem banks_ram (size : Nat) : (ram size).banks = 1 := banks_build size 1 [.ram 0 size]

theorem slot_ram {size addr : Nat} (h : addr < size) : (ram size).slot addr = .byte 0 addr := by
  simp [ram, slot, mapRam, mapData, mapBlock, remap, empty, h]

section Ram

variable {m : Memory} {size : Nat}

/-- Storage throughout has a single bank, which is selected. -/
theorem InstanceOf.bank_eq_zero (hm : m.InstanceOf (ram size)) : m.bank = 0 := by
  have hbanks : m.banks = 1 := hm.banks_eq.trans (banks_ram size)
  have hbank := hm.bank
  omega

theorem InstanceOf.slot_ram (hm : m.InstanceOf (ram size)) {addr : Nat} (h : addr < size) :
    m.slot addr = .byte 0 addr := by
  have hmaps : m.maps = (ram size).maps := congrArg Layout.maps hm.layout
  rw [← Memory.slot_ram h, slot, slot, hmaps, hm.bank_eq_zero]
  rfl

/-- Storage throughout is a single block, and it is writable. -/
theorem InstanceOf.block_ram (hm : m.InstanceOf (ram size)) :
    ∃ b : Block, m.blocks[0]? = some b ∧ b.data.size = size ∧ b.writable = true := by
  have hblocks : m.blocks.toList.map Block.outline = [(size, none)] := by
    have h : m.blocks.toList.map Block.outline = (ram size).blocks.toList.map Block.outline :=
      congrArg Layout.blocks hm.layout
    rw [h]
    simp [ram, mapRam, mapData, mapBlock, remap, empty, Block.outline]
  obtain ⟨b, hb, houtline⟩ := List.map_eq_singleton_iff.mp hblocks
  obtain ⟨hsize, hwritable⟩ := Prod.mk.inj houtline
  refine ⟨b, ?_, hsize, ?_⟩
  · rw [← Array.getElem?_toList, hb]
    rfl
  · cases hw : b.writable with
    | true => rfl
    | false => simp [hw] at hwritable

/-- Reading finds what was written last. -/
theorem InstanceOf.read_write (hm : m.InstanceOf (ram size)) (k l : Latches) {addr other : Nat}
    (haddr : addr < size) (hother : other < size) (v : UInt8) :
    (m.write k addr v).1.read l other = if other = addr then v else m.read l other := by
  obtain ⟨b, hb, hsize, hwritable⟩ := hm.block_ram
  have hslot := (hm.write k addr v).slot_ram hother
  have hwrite : (m.write k addr v).1.blocks = m.blocks.modify 0 (·.write addr v) := by
    simp [Memory.write, hm.slot_ram haddr]
  simp only [read, hslot, hm.slot_ram hother, hwrite, Array.getElem?_modify, hb, Option.map_some,
    ↓reduceIte, Block.write, hwritable]
  simp only [Array.getD_eq_getD_getElem?, Array.getElem?_setIfInBounds, hsize, haddr, ↓reduceIte,
    eq_comm (a := addr)]
  split <;> rfl

theorem InstanceOf.writeAll {base : Memory} (hm : m.InstanceOf base) (l : Latches) (addr : Nat)
    (vs : List UInt8) : (m.writeAll l addr vs).1.InstanceOf base := by
  induction vs generalizing m l addr with
  | nil => exact hm
  | cons v vs ih => exact ih (hm.write l addr v) _ _

/-- Bytes that were written one behind the other are read the same way. -/
theorem InstanceOf.read_writeAll (hm : m.InstanceOf (ram size)) (k l : Latches) {addr : Nat}
    {vs : List UInt8} (hvs : addr + vs.length ≤ size) {other : Nat} (hother : other < size) :
    (m.writeAll k addr vs).1.read l other =
      if addr ≤ other then vs.getD (other - addr) (m.read l other) else m.read l other := by
  induction vs generalizing m k addr with
  | nil => simp [Memory.writeAll]
  | cons v vs ih =>
    rw [List.length_cons] at hvs
    have hvs' : addr + 1 + vs.length ≤ size := by omega
    have hrest := ih (hm.write k addr v) (m.write k addr v).2 hvs'
    rw [Memory.writeAll, hrest, hm.read_write k l (by omega) hother]
    rcases Nat.lt_trichotomy other addr with hlt | rfl | hgt
    · rw [if_neg (by omega), if_neg (by omega), if_neg (by omega)]
    · rw [if_neg (by omega), if_pos rfl, if_pos (Nat.le_refl _), Nat.sub_self]
      rfl
    · have hindex : other - addr = other - (addr + 1) + 1 := by omega
      rw [if_pos (by omega), if_neg (by omega), if_pos (by omega), hindex]
      rfl

end Ram

/-- Storage throughout that holds these bytes from an address on. -/
def holding (size addr : Nat) (vs : List UInt8) : Memory := ((ram size).writeAll {} addr vs).1

theorem instanceOf_holding (size addr : Nat) (vs : List UInt8) :
    (holding size addr vs).InstanceOf (ram size) :=
  (instanceOf_ram size).writeAll {} addr vs

theorem read_holding {size addr : Nat} {vs : List UInt8} (hvs : addr + vs.length ≤ size)
    (l : Latches) {i : Nat} (hi : i < vs.length) :
    (holding size addr vs).read l (addr + i) = vs[i] := by
  have hother : addr + i < size := by omega
  have h := (instanceOf_ram size).read_writeAll {} l hvs hother
  rw [holding, h, if_pos (by omega), Nat.add_sub_cancel_left, List.getD_eq_getElem?_getD,
    List.getElem?_eq_getElem hi, Option.getD_some]

theorem read_ram {size addr : Nat} (h : addr < size) (l : Latches) :
    (ram size).read l addr = 0 := by
  rw [read, slot_ram h]
  simp [ram, mapRam, mapData, mapBlock, remap, empty, h]

/-- Behind the bytes that it holds the storage is zero. -/
theorem read_holding_behind {size addr : Nat} {vs : List UInt8} (hvs : addr + vs.length ≤ size)
    (l : Latches) {other : Nat} (h : addr + vs.length ≤ other) (hother : other < size) :
    (holding size addr vs).read l other = 0 := by
  rw [holding, (instanceOf_ram size).read_writeAll {} l hvs hother, if_pos (by omega),
    List.getD_eq_getElem?_getD, List.getElem?_eq_none (by omega), Option.getD_none,
    read_ram hother]

end EightBit.Memory
