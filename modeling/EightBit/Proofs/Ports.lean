import EightBit.Proofs.Ram

/-!
The addresses at which a memory depends on the registers outside it.

Elsewhere an access neither sees the registers nor changes them, whatever they hold.
-/

namespace EightBit.Memory

def IsPort (m : Memory) (addr : Nat) : Prop := ∃ i, m.slot addr = .port i

@[simp] theorem slot_write (m : Memory) (l : Latches) (addr : Nat) (v : UInt8) :
    (m.write l addr v).1.slot = m.slot := by
  have hmaps : (m.write l addr v).1.maps = m.maps :=
    congrArg Layout.maps (layout_write m l addr v)
  funext other
  simp only [slot, hmaps, bank_write]

@[simp] theorem isPort_write (m : Memory) (l : Latches) (addr other : Nat) (v : UInt8) :
    (m.write l addr v).1.IsPort other ↔ m.IsPort other := by
  simp only [IsPort, slot_write]

section Storage

variable {m : Memory} {addr : Nat}

theorem read_of_not_isPort (h : ¬ m.IsPort addr) (k l : Latches) :
    m.read k addr = m.read l addr := by
  unfold read
  split
  · rfl
  · rfl
  · next i hslot => exact absurd ⟨i, hslot⟩ h

theorem write_of_not_isPort (h : ¬ m.IsPort addr) (k l : Latches) (v : UInt8) :
    m.write k addr v = ((m.write l addr v).1, k) := by
  unfold write
  split
  · rfl
  · rfl
  · next i hslot => exact absurd ⟨i, hslot⟩ h

end Storage

/-- With a single bank the layout alone tells where an address leads. -/
theorem InstanceOf.slot_eq {m base : Memory} (hm : m.InstanceOf base) (hbanks : base.banks = 1)
    (hbase : base.bank = 0) : m.slot = base.slot := by
  have hmaps : m.maps = base.maps := congrArg Layout.maps hm.layout
  have hbank : m.bank = base.bank := by
    have hlt := hm.bank
    rw [hm.banks_eq, hbanks] at hlt
    omega
  funext addr
  simp only [slot, hmaps, hbank]

theorem not_isPort_ram (size addr : Nat) : ¬ (ram size).IsPort addr := by
  rintro ⟨i, hslot⟩
  by_cases haddr : addr < size
  · rw [slot_ram haddr] at hslot
    contradiction
  · simp [ram, slot, mapRam, mapData, mapBlock, remap, empty, haddr] at hslot

theorem InstanceOf.not_isPort_ram {m : Memory} {size : Nat} (hm : m.InstanceOf (ram size))
    (addr : Nat) : ¬ m.IsPort addr := by
  rw [IsPort, hm.slot_eq (banks_ram size) rfl]
  exact Memory.not_isPort_ram size addr

theorem slot_mapPort_of_ne (m : Memory) {port latch addr : Nat} (h : addr ≠ port) :
    (m.mapPort port latch).slot addr = m.slot addr := by
  simp only [slot, mapPort, remap, Array.getElem?_modify, ↓reduceIte]
  cases m.maps[m.bank]? with
  | none => rfl
  | some map =>
    simp only [Option.map_some, Array.getD_eq_getD_getElem?, Array.getElem?_mapIdx]
    cases map[addr]? with
    | none => rfl
    | some slot => simp [h]

/-- Storage throughout but for one port has no other. -/
theorem InstanceOf.isPort_mapPort {m : Memory} {size latch port addr : Nat}
    (hm : m.InstanceOf ((ram size).mapPort port latch)) (h : m.IsPort addr) : addr = port := by
  have hbanks : ((ram size).mapPort port latch).banks = 1 :=
    banks_build size 1 [.ram 0 size, .port port latch]
  rw [IsPort, hm.slot_eq hbanks rfl] at h
  by_cases haddr : addr = port
  · exact haddr
  · rw [slot_mapPort_of_ne _ haddr] at h
    exact absurd h (Memory.not_isPort_ram size addr)

theorem read_mapPort_ram {size port latch addr : Nat} (hsize : addr < size) (h : addr ≠ port)
    (l : Latches) : ((ram size).mapPort port latch).read l addr = 0 := by
  rw [read, slot_mapPort_of_ne _ h, slot_ram hsize]
  simp [ram, mapRam, mapData, mapBlock, remap, empty, mapPort, hsize]

end EightBit.Memory
