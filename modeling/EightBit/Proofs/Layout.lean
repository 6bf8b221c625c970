import EightBit.Memory
import EightBit.Proofs.Stream

/-!
The layout of a memory: what mapping operations build and neither writes nor bank switches change.

A snapshot of a memory holds no layout. It can be restored into every memory of the same layout,
whatever that memory holds and whichever bank it has selected.
-/

namespace EightBit

@[simp] theorem Latches.size_set (l : Latches) (i : Nat) (v : UInt8) :
    (l.set i v).values.size = l.values.size := Array.size_setIfInBounds

/-- What writes never change of a block: its size and, if it is not writable, its content. -/
def Block.outline (b : Block) : Nat × Option (Array UInt8) :=
  (b.data.size, if b.writable then none else some b.data)

@[simp] theorem Block.outline_write (b : Block) (index : Nat) (v : UInt8) :
    (b.write index v).outline = b.outline := by
  cases hb : b.writable <;> simp [Block.write, Block.outline, hb]

namespace Memory

/-- What writes and bank switches never change of a memory. -/
structure Layout where
  size : Nat
  maps : Array (Array Slot)
  blocks : List (Nat × Option (Array UInt8))
  ports : Array Nat

def layout (m : Memory) : Layout where
  size := m.size
  maps := m.maps
  blocks := m.blocks.toList.map Block.outline
  ports := m.ports

@[simp] theorem layout_setBank (m : Memory) (n : Nat) : (m.setBank n).layout = m.layout := rfl

@[simp] theorem layout_write (m : Memory) (l : Latches) (addr : Nat) (v : UInt8) :
    (m.write l addr v).1.layout = m.layout := by
  unfold write
  split
  · rfl
  · next block index _ =>
    simp only [layout, Layout.mk.injEq, true_and, and_true]
    apply List.ext_getElem?
    intro i
    simp only [List.getElem?_map, Array.getElem?_toList, Array.getElem?_modify]
    split
    · cases m.blocks[i]? <;> simp
    · rfl
  · split <;> rfl

@[simp] theorem bank_write (m : Memory) (l : Latches) (addr : Nat) (v : UInt8) :
    (m.write l addr v).1.bank = m.bank := by
  unfold write
  split
  · rfl
  · rfl
  · split <;> rfl

@[simp] theorem size_latches_write (m : Memory) (l : Latches) (addr : Nat) (v : UInt8) :
    (m.write l addr v).2.values.size = l.values.size := by
  unfold write
  split
  · rfl
  · rfl
  · split <;> simp

theorem outlines_loadBlocks (bs : List Block) (r : Reader) :
    (loadBlocks bs r).1.map Block.outline = bs.map Block.outline := by
  induction bs generalizing r with
  | nil => rfl
  | cons b bs ih =>
    cases hb : b.writable <;> simp [loadBlocks, hb, ih, Block.outline]

/-- Loading keeps the layout even when the stream fails. -/
@[simp] theorem layout_load (m : Memory) (r : Reader) : (m.load r).1.layout = m.layout := by
  simp [load, layout, outlines_loadBlocks, setBank]

inductive Mapping where
  | ram (addr length : Nat)
  | rom (addr : Nat) (bytes : List UInt8)
  | shared (addr block : Nat)
  | port (addr latch : Nat)
  | unmap (addr length : Nat)
  /-- Later operations apply to this bank. -/
  | bank (n : Nat)

def lay (m : Memory) : Mapping → Memory
  | .ram addr length => m.mapRam addr length
  | .rom addr bytes => m.mapRom addr bytes
  | .shared addr block => m.mapShared addr block
  | .port addr latch => m.mapPort addr latch
  | .unmap addr length => m.unmap addr length
  | .bank n => m.setBank n

def build (size banks : Nat) (ops : List Mapping) : Memory := ops.foldl lay (empty size banks)

@[simp] theorem banks_lay (m : Memory) (op : Mapping) : (m.lay op).banks = m.banks := by
  cases op <;>
    simp [lay, banks, mapRam, mapRom, mapShared, mapPort, mapData, mapBlock, unmap, remap, setBank]

theorem bank_lay_lt (m : Memory) (op : Mapping) (h : m.bank < m.banks) :
    (m.lay op).bank < m.banks := by
  cases op with
  | bank n => exact Nat.mod_lt _ (by unfold banks at h; omega)
  | _ => exact h

theorem foldl_lay (m : Memory) (ops : List Mapping) (h : m.bank < m.banks) :
    (ops.foldl lay m).banks = m.banks ∧ (ops.foldl lay m).bank < m.banks := by
  induction ops generalizing m with
  | nil => exact ⟨rfl, h⟩
  | cons op ops ih =>
    have hop : (m.lay op).bank < (m.lay op).banks := by
      rw [banks_lay]
      exact bank_lay_lt m op h
    simpa using ih (m.lay op) hop

@[simp] theorem banks_empty (size banks : Nat) : (empty size banks).banks = max banks 1 := by
  simp [Memory.banks, empty]

theorem bank_empty_lt (size banks : Nat) :
    (empty size banks).bank < (empty size banks).banks := by
  have hbank : (empty size banks).bank = 0 := rfl
  rw [hbank, banks_empty]
  omega

theorem banks_build (size banks : Nat) (ops : List Mapping) :
    (build size banks ops).banks = max banks 1 := by
  have h := (foldl_lay _ ops (bank_empty_lt size banks)).1
  rwa [banks_empty] at h

/-- A memory that has the layout of another, with any content and any bank selected. -/
structure InstanceOf (m base : Memory) : Prop where
  layout : m.layout = base.layout
  bank : m.bank < m.banks

theorem InstanceOf.banks_eq {m base : Memory} (h : m.InstanceOf base) : m.banks = base.banks :=
  congrArg (fun l : Layout => l.maps.size) h.layout

/-- A built memory is one of the memories that have its layout. -/
theorem instanceOf_build (size banks : Nat) (ops : List Mapping) :
    (build size banks ops).InstanceOf (build size banks ops) := by
  obtain ⟨hbanks, hbank⟩ := foldl_lay _ ops (bank_empty_lt size banks)
  exact ⟨rfl, by rwa [← hbanks] at hbank⟩

theorem InstanceOf.of_layout {m n base : Memory} (h : m.InstanceOf base)
    (hlayout : n.layout = m.layout) (hbank : n.bank = m.bank) : n.InstanceOf base where
  layout := hlayout.trans h.layout
  bank := by
    have hbanks : n.banks = m.banks := congrArg (fun l : Layout => l.maps.size) hlayout
    rw [hbank, hbanks]
    exact h.bank

theorem InstanceOf.write {m base : Memory} (h : m.InstanceOf base) (l : Latches) (addr : Nat)
    (v : UInt8) : (m.write l addr v).1.InstanceOf base :=
  h.of_layout (layout_write m l addr v) (bank_write m l addr v)

theorem InstanceOf.setBank {m base : Memory} (h : m.InstanceOf base) (n : Nat) :
    (m.setBank n).InstanceOf base :=
  ⟨h.layout, Nat.mod_lt _ (Nat.zero_lt_of_lt h.bank)⟩

/-- Blocks of equal outlines are told apart by the content of the writable ones alone. -/
theorem loadBlocks_ofBytes {bs cs : List Block}
    (h : cs.map Block.outline = bs.map Block.outline) (rest : List UInt8) :
    loadBlocks cs (Reader.ofBytes
      (Field.encodeAll ((bs.filter (·.writable)).map fun b => .bytes b.data.toList) ++ rest)) =
        (bs, Reader.ofBytes rest) := by
  induction bs generalizing cs with
  | nil => simp_all [loadBlocks]
  | cons b bs ih =>
    obtain ⟨c, cs, rfl⟩ : ∃ c cs', cs = c :: cs' := by
      cases cs with
      | nil => simp at h
      | cons c cs => exact ⟨c, cs, rfl⟩
    obtain ⟨hhead, htail⟩ := List.cons.inj h
    obtain ⟨hsize, hcontent⟩ := Prod.mk.inj hhead
    have hrest := ih htail
    obtain ⟨data, writable⟩ := b
    obtain ⟨data', writable'⟩ := c
    cases writable <;> cases writable' <;> simp only [reduceCtorEq, ↓reduceIte] at hcontent
    · simp_all [loadBlocks]
    · have htake := Reader.take_ofBytes data.toList
        (Field.encodeAll ((bs.filter (·.writable)).map fun b => .bytes b.data.toList) ++ rest)
      simp_all [loadBlocks]

/-- What a memory saves restores it into any memory of the same layout. -/
theorem load_fields {m n base : Memory} (hm : m.InstanceOf base) (hn : n.InstanceOf base)
    (hbanks : base.banks ≤ UInt32.size) (rest : List UInt8) :
    n.load (Reader.ofBytes (Field.encodeAll m.fields ++ rest)) = (m, Reader.ofBytes rest) := by
  have hbank : m.bank < UInt32.size := by
    have := hm.bank
    rw [hm.banks_eq] at this
    omega
  have hlayout : n.layout = m.layout := hn.layout.trans hm.layout.symm
  obtain ⟨hsize, hmaps, hblocks, hports⟩ := Layout.mk.inj hlayout
  have hselect : m.bank % m.maps.size = m.bank := Nat.mod_eq_of_lt hm.bank
  have hnumber : (UInt32.ofNat m.bank).toNat = m.bank := by
    rw [UInt32.toNat_ofNat']
    exact Nat.mod_eq_of_lt hbank
  simp only [load, fields, if_pos hbank, Field.encodeAll_cons, List.append_assoc,
    Reader.u32_ofBytes, setBank, loadBlocks_ofBytes hblocks, hnumber, hselect, hsize, hmaps, hports,
    Array.toArray_toList]

end Memory

end EightBit
