import Mathlib.Algebra.Group.Nat.Defs
import EightBit.Proofs.Visibility

/-!
Every number by which a memory finds something is in range.

Banks, blocks, the bytes of a block and ports are found by number, and the numbers were stored by
whatever was done to the memory before. Here everything that can be done to a memory is also told
with its numbers checked: there is no result where one of them is out of range, or where an address
does not fit into a machine word. Nothing that is done makes a slot lead where there is nothing, so
no check ever fails.
-/

namespace EightBit

namespace Memory

/-- A slot leads to a byte that a block has, or to a port that exists, if it leads anywhere. -/
def Backs (m : Memory) : Slot → Prop
  | .unmapped => True
  | .byte block index => ∃ b, m.blocks[block]? = some b ∧ index < b.data.size
  | .port p => p < m.ports.size

/-- The selected bank exists, every bank has a slot for each address, and all slots lead
somewhere. -/
structure InBounds (m : Memory) : Prop where
  bank : m.bank < m.banks
  size_maps : ∀ map ∈ m.maps, map.size = m.size
  backs : ∀ map ∈ m.maps, ∀ slot ∈ map, m.Backs slot

section InBounds

variable {m n : Memory} {slot : Slot}

/-- More blocks and more ports leave the slots that there are where they lead. -/
theorem Backs.mono (h : m.Backs slot)
    (hblocks : ∀ (i : Nat) (b : Block), m.blocks[i]? = some b → n.blocks[i]? = some b)
    (hports : m.ports.size ≤ n.ports.size) : n.Backs slot := by
  cases slot with
  | unmapped => trivial
  | byte block index =>
    obtain ⟨b, hb, hindex⟩ := h
    exact ⟨b, hblocks block b hb, hindex⟩
  | port p => exact Nat.lt_of_lt_of_le h hports

/-- Where slots lead is a matter of the layout, not of the content. -/
theorem Backs.of_layout (h : m.Backs slot) (hlayout : n.layout = m.layout) : n.Backs slot := by
  have hports : n.ports = m.ports := congrArg Layout.ports hlayout
  have hblocks : n.blocks.toList.map Block.outline = m.blocks.toList.map Block.outline :=
    congrArg Layout.blocks hlayout
  cases slot with
  | unmapped => trivial
  | byte block index =>
    obtain ⟨b, hb, hindex⟩ := h
    have houtline := congrArg (·[block]?) hblocks
    simp only [List.getElem?_map, Array.getElem?_toList, hb, Option.map_some] at houtline
    obtain ⟨b', hb', heq⟩ := Option.map_eq_some_iff.mp houtline
    have hsize : b'.data.size = b.data.size := congrArg Prod.fst heq
    exact ⟨b', hb', by rwa [hsize]⟩
  | port p =>
    rw [Backs, hports]
    exact h

theorem InBounds.of_layout (h : m.InBounds) (hlayout : n.layout = m.layout)
    (hbank : n.bank < n.banks) : n.InBounds := by
  have hmaps : n.maps = m.maps := congrArg Layout.maps hlayout
  have hsize : n.size = m.size := congrArg Layout.size hlayout
  refine ⟨hbank, ?_, ?_⟩
  · rw [hmaps, hsize]
    exact h.size_maps
  · intro map hmap slot hslot
    exact (h.backs map (hmaps ▸ hmap) slot hslot).of_layout hlayout

/-- New blocks and ports alone put nothing out of range. -/
theorem InBounds.extend (h : m.InBounds) (blocks : Array Block) (ports : Array Nat)
    (hblocks : ∀ (i : Nat) (b : Block), m.blocks[i]? = some b → blocks[i]? = some b)
    (hports : m.ports.size ≤ ports.size) : { m with blocks, ports }.InBounds :=
  ⟨h.bank, h.size_maps, fun map hmap slot hslot =>
    (h.backs map hmap slot hslot).mono hblocks hports⟩

/-- The selected bank may be given any slots that lead somewhere. -/
theorem InBounds.remap (h : m.InBounds) {f : Nat → Slot → Slot}
    (hf : ∀ a slot, m.Backs slot → m.Backs (f a slot)) : (m.remap f).InBounds := by
  refine ⟨by simpa [banks, Memory.remap] using h.bank, size_maps_remap f h.size_maps, ?_⟩
  intro map hmap slot hslot
  rcases mem_maps_remap hmap with hold | ⟨old, hold, rfl⟩
  · exact h.backs map hold slot hslot
  · obtain ⟨a, ha, rfl⟩ := Array.mem_mapIdx.mp hslot
    exact hf a _ (h.backs old hold _ (Array.getElem_mem ha))

theorem InBounds.mapBlock (h : m.InBounds) {addr block length : Nat}
    (hblock : ∀ index < length, m.Backs (.byte block index)) :
    (m.mapBlock addr block length).InBounds := by
  refine h.remap fun a slot hslot => ?_
  split
  · exact hblock _ (by omega)
  · exact hslot

theorem InBounds.pushBlock (h : m.InBounds) (b : Block) :
    { m with blocks := m.blocks.push b }.InBounds := by
  refine h.extend _ m.ports (fun i c hc => ?_) (Nat.le_refl _)
  rw [Array.getElem?_push_lt (Array.getElem?_eq_some_iff.mp hc).1]
  exact congrArg some (Array.getElem?_eq_some_iff.mp hc).2

theorem InBounds.mapData (h : m.InBounds) (addr : Nat) (data : Array UInt8) (writable : Bool) :
    (m.mapData addr data writable).InBounds :=
  (h.pushBlock ⟨data, writable⟩).mapBlock fun _ hindex => ⟨_, Array.getElem?_push_size, hindex⟩

/-- A block that exists nowhere here has no bytes to be mapped. -/
theorem InBounds.mapShared (h : m.InBounds) (addr block : Nat) :
    (m.mapShared addr block).InBounds := by
  refine h.mapBlock fun index hindex => ?_
  split at hindex
  · next b hb => exact ⟨b, hb, hindex⟩
  · exact absurd hindex (Nat.not_lt_zero index)

theorem InBounds.mapPort (h : m.InBounds) (addr latch : Nat) : (m.mapPort addr latch).InBounds := by
  have hports : m.ports.size < (m.ports.push latch).size := by simp
  refine (h.extend m.blocks _ (fun _ _ hb => hb) (Nat.le_of_lt hports)).remap fun a slot hslot => ?_
  split
  · exact hports
  · exact hslot

theorem InBounds.lay (h : m.InBounds) (op : Mapping) : (m.lay op).InBounds := by
  cases op with
  | ram addr length => exact h.mapData addr _ true
  | rom addr bytes => exact h.mapData addr _ false
  | shared addr block => exact h.mapShared addr block
  | port addr latch => exact h.mapPort addr latch
  | unmap addr length =>
    refine h.remap fun a slot hslot => ?_
    split
    · trivial
    · exact hslot
  | bank k => exact h.of_layout rfl (bank_lay_lt m (.bank k) h.bank)

theorem inBounds_empty (size banks : Nat) : (empty size banks).InBounds where
  bank := bank_empty_lt size banks
  size_maps := by simp [empty]
  backs := by
    intro map hmap slot hslot
    simp only [empty, Array.mem_replicate] at hmap
    rw [hmap.2] at hslot
    rw [(Array.mem_replicate.mp hslot).2]
    trivial

end InBounds

end Memory

/-- Where a block cannot be written, the index is not looked at. -/
def Block.write? (b : Block) (index : Nat) (v : UInt8) : Option Block :=
  if b.writable then
    if index < b.data.size then some { b with data := b.data.setIfInBounds index v } else none
  else some b

namespace Memory

/-- An address as it is computed, in a machine word of sixty-four bits. -/
def address? (n : Nat) : Option Nat := if n < 2 ^ 64 then some n else none

/-- The slot of an address in the selected bank. An address behind the end has none and is as good
as unmapped. -/
def slot? (m : Memory) (addr : Nat) : Option Slot :=
  m.maps[m.bank]?.map fun map => map.getD addr .unmapped

def read? (m : Memory) (l : Latches) (addr : Nat) : Option UInt8 := do
  match ← m.slot? addr with
  | .unmapped => some 0
  | .byte block index =>
    let b ← m.blocks[block]?
    b.data[index]?
  | .port p =>
    let latch ← m.ports[p]?
    some (l.get latch)

def write? (m : Memory) (l : Latches) (addr : Nat) (v : UInt8) : Option (Memory × Latches) := do
  match ← m.slot? addr with
  | .unmapped => some (m, l)
  | .byte block index =>
    let b ← m.blocks[block]?
    let b ← b.write? index v
    some ({ m with blocks := m.blocks.setIfInBounds block b }, l)
  | .port p =>
    let latch ← m.ports[p]?
    some (m, l.set latch v)

def setBank? (m : Memory) (n : Nat) : Option Memory :=
  if m.maps.size = 0 then none else some (m.setBank n)

def setMap (m : Memory) (map : Array Slot) : Memory :=
  { m with maps := m.maps.setIfInBounds m.bank map }

/-- Gives one address a byte of a block that is mapped at `addr`. An address behind the end is
passed over. -/
def place? (addr block : Nat) (map : Array Slot) (index : Nat) : Option (Array Slot) := do
  let a ← address? (addr + index)
  some (map.setIfInBounds a (.byte block index))

def mapBlock? (m : Memory) (addr block length : Nat) : Option Memory := do
  let map ← m.maps[m.bank]?
  let map ← (List.range length).foldlM (place? addr block) map
  some (m.setMap map)

def mapData? (m : Memory) (addr : Nat) (data : Array UInt8) (writable : Bool) : Option Memory :=
  { m with blocks := m.blocks.push ⟨data, writable⟩ }.mapBlock? addr m.blocks.size data.size

def lay? (m : Memory) : Mapping → Option Memory
  | .ram addr length => m.mapData? addr (Array.replicate length 0) true
  | .rom addr bytes => m.mapData? addr bytes.toArray false
  | .shared addr block =>
    m.mapBlock? addr block (match m.blocks[block]? with | some b => b.data.size | none => 0)
  | .port addr latch => do
    let map ← m.maps[m.bank]?
    let map := map.setIfInBounds addr (.port m.ports.size)
    some ({ m with ports := m.ports.push latch }.setMap map)
  | .unmap addr length => do
    let map ← m.maps[m.bank]?
    some <| m.setMap <| map.mapIdx fun a slot =>
      if addr ≤ a ∧ a < addr + length then .unmapped else slot
  | .bank n => m.setBank? n

def store? (addr : Nat) (s : Memory × Latches) (v : UInt8 × Nat) : Option (Memory × Latches) := do
  let a ← address? (addr + v.2)
  s.1.write? s.2 a v.1

def operate? (s : Memory × Latches) : Operation → Option (Memory × Latches)
  | .lay op => do
    let m ← s.1.lay? op
    some (m, s.2)
  | .write addr v => s.1.write? s.2 addr v
  | .writeAll addr vs => vs.zipIdx.foldlM (store? addr) s
  | .writeWord addr w => do
    let s ← s.1.write? s.2 addr (Word.low w)
    store? addr s (Word.high w, 1)
  | .latch i v => some (s.1, s.2.set i v)

def load? (m : Memory) (r : Reader) : Option Memory := do
  let m ← m.setBank? r.u32.1.toNat
  some { m with blocks := (loadBlocks m.blocks.toList r.u32.2).1.toArray }

inductive Origin where
  | empty (size banks : Nat)
  | ram (size : Nat)

/-- What can be done to a memory. A stream may break off or have failed before. -/
inductive Use where
  | operation (op : Operation)
  | load (r : Reader)

def Origin.memory : Origin → Memory
  | .empty size banks => Memory.empty size banks
  | .ram size => Memory.ram size

def Origin.memory? : Origin → Option Memory
  | .empty size banks => some (Memory.empty size banks)
  | .ram size => (Memory.empty size 1).lay? (.ram 0 size)

def use (s : Memory × Latches) : Use → Memory × Latches
  | .operation op => operate s op
  | .load r => ((s.1.load r).1, s.2)

def use? (s : Memory × Latches) : Use → Option (Memory × Latches)
  | .operation op => operate? s op
  | .load r => do
    let m ← s.1.load? r
    some (m, s.2)

/-- The addresses and lengths that a mapping operation is about. -/
def Mapping.extents : Mapping → List Nat
  | .ram addr length => [addr, length]
  | .rom addr bytes => [addr, bytes.length]
  | .shared addr _ => [addr]
  | .port addr _ => [addr]
  | .unmap addr length => [addr, length]
  | .bank _ => []

def Operation.extents : Operation → List Nat
  | .lay op => op.extents
  | .write addr _ => [addr]
  | .writeAll addr vs => [addr, vs.length]
  | .writeWord addr _ => [addr]
  | .latch _ _ => []

def Use.extents : Use → List Nat
  | .operation op => op.extents
  | .load _ => []

def Origin.extents : Origin → List Nat
  | .empty _ _ => []
  | .ram size => [size]

/-- A memory all of whose numbers are in range, with blocks short enough to be mapped anywhere. -/
structure Fits (m : Memory) : Prop extends InBounds m where
  blocks : ∀ b ∈ m.blocks, b.data.size < 2 ^ 33

section Checks

variable {m : Memory}

theorem address?_of_lt {n : Nat} (h : n < 2 ^ 34) : address? n = some n :=
  if_pos (Nat.lt_trans h (by decide))

theorem lt_of_extents {a b limit : Nat} (h : ∀ n ∈ [a, b], n < limit) : a < limit ∧ b < limit :=
  ⟨h a List.mem_cons_self, h b (List.mem_cons_of_mem a List.mem_cons_self)⟩

theorem modify_of_getElem? {α : Type} {xs : Array α} {i : Nat} {a : α} (h : xs[i]? = some a)
    (f : α → α) : xs.modify i f = xs.setIfInBounds i (f a) := by
  apply Array.ext_getElem?
  intro k
  rw [Array.getElem?_modify, Array.getElem?_setIfInBounds]
  split
  · next hik =>
    subst hik
    rw [h, if_pos (Array.getElem?_eq_some_iff.mp h).1]
    rfl
  · rfl

theorem setIfInBounds_eq_mapIdx {α : Type} (xs : Array α) (i : Nat) (v : α) :
    xs.setIfInBounds i v = xs.mapIdx fun k x => if k = i then v else x := by
  apply Array.ext_getElem?
  intro k
  rw [Array.getElem?_setIfInBounds, Array.getElem?_mapIdx]
  by_cases hk : i = k
  · subst hk
    by_cases hi : i < xs.size
    · simp [hi]
    · simp [hi]
  · simp [hk, Ne.symm hk]

theorem InBounds.map (h : m.InBounds) : ∃ map ∈ m.maps, m.maps[m.bank]? = some map := by
  have hbank : m.bank < m.maps.size := h.bank
  exact ⟨m.maps[m.bank], Array.getElem_mem hbank, Array.getElem?_eq_getElem hbank⟩

theorem setMap_mapIdx {map : Array Slot} (h : m.maps[m.bank]? = some map) (f : Nat → Slot → Slot) :
    m.setMap (map.mapIdx f) = m.remap f := by
  rw [setMap, remap, modify_of_getElem? h]

theorem InBounds.slot?_eq (h : m.InBounds) (addr : Nat) : m.slot? addr = some (m.slot addr) := by
  obtain ⟨map, -, hmap⟩ := h.map
  simp only [slot?, slot, hmap, Option.map_some]

/-- An address leads somewhere if it leads anywhere. -/
theorem InBounds.backs_slot (h : m.InBounds) (addr : Nat) : m.Backs (m.slot addr) := by
  obtain ⟨map, hmem, hmap⟩ := h.map
  simp only [slot, hmap, Array.getD_eq_getD_getElem?]
  cases hslot : map[addr]? with
  | none => trivial
  | some slot => exact h.backs map hmem slot (Array.mem_of_getElem? hslot)

theorem InBounds.read?_eq (h : m.InBounds) (l : Latches) (addr : Nat) :
    m.read? l addr = some (m.read l addr) := by
  have hbacks := h.backs_slot addr
  rw [read?, h.slot?_eq, Option.bind_eq_bind, Option.bind_some, read]
  generalize m.slot addr = slot at hbacks
  cases slot with
  | unmapped => rfl
  | byte block index =>
    obtain ⟨b, hb, hindex⟩ := hbacks
    simp [hb, hindex]
  | port p => simp [Array.getElem?_eq_getElem (show p < m.ports.size from hbacks)]

theorem InBounds.write?_eq (h : m.InBounds) (l : Latches) (addr : Nat) (v : UInt8) :
    m.write? l addr v = some (m.write l addr v) := by
  have hbacks := h.backs_slot addr
  rw [write?, h.slot?_eq, Option.bind_eq_bind, Option.bind_some, Memory.write]
  generalize m.slot addr = slot at hbacks
  cases slot with
  | unmapped => rfl
  | byte block index =>
    obtain ⟨b, hb, hindex⟩ := hbacks
    have hwrite : b.write? index v = some (b.write index v) := by
      simp only [Block.write?, Block.write, if_pos hindex]
      split <;> rfl
    simp [hb, hwrite, modify_of_getElem? hb]
  | port p => simp [Array.getElem?_eq_getElem (show p < m.ports.size from hbacks)]

theorem place?_eq {map : Array Slot} {addr index : Nat} (block : Nat)
    (h : addr + index < 2 ^ 34) :
    place? addr block map index = some (map.setIfInBounds (addr + index) (.byte block index)) := by
  rw [place?, address?_of_lt h]
  rfl

/-- Mapped one by one, the bytes of a block take the addresses that it covers. -/
theorem foldlM_place? (map : Array Slot) {addr length : Nat} (block : Nat)
    (h : addr + length ≤ 2 ^ 34) :
    (List.range length).foldlM (place? addr block) map =
      some (map.mapIdx fun a slot =>
        if addr ≤ a ∧ a < addr + length then .byte block (a - addr) else slot) := by
  induction length with
  | zero =>
    have hsame (a : Nat) : ¬ (addr ≤ a ∧ a < addr + 0) := by omega
    simp only [hsame, ↓reduceIte, List.range_zero, List.foldlM_nil, Option.pure_def]
    exact congrArg some (Array.ext_getElem? fun a => by simp)
  | succ length ih =>
    rw [List.range_succ, List.foldlM_append, ih (by omega), Option.bind_eq_bind, Option.bind_some,
      List.foldlM_cons, place?_eq block (by omega), setIfInBounds_eq_mapIdx, Array.mapIdx_mapIdx,
      Option.bind_eq_bind, Option.bind_some, List.foldlM_nil, Option.pure_def]
    congr 2
    funext a slot
    rw [Function.comp_apply]
    by_cases ha : a = addr + length
    · simp [ha]
    · have hcovers : a < addr + (length + 1) ↔ a < addr + length := by omega
      simp [ha, hcovers]

theorem InBounds.mapBlock?_eq (h : m.InBounds) {addr length : Nat} (block : Nat)
    (hlength : addr + length ≤ 2 ^ 34) :
    m.mapBlock? addr block length = some (m.mapBlock addr block length) := by
  obtain ⟨map, -, hmap⟩ := h.map
  simp only [mapBlock?, hmap, Option.bind_eq_bind, Option.bind_some,
    foldlM_place? map block hlength, setMap_mapIdx hmap]
  rfl

theorem InBounds.mapData?_eq (h : m.InBounds) {addr : Nat} (data : Array UInt8) (writable : Bool)
    (hlength : addr + data.size ≤ 2 ^ 34) :
    m.mapData? addr data writable = some (m.mapData addr data writable) :=
  (h.pushBlock ⟨data, writable⟩).mapBlock?_eq m.blocks.size hlength

theorem setBank?_eq (h : m.bank < m.banks) (n : Nat) : m.setBank? n = some (m.setBank n) :=
  if_neg (Nat.ne_of_gt (Nat.zero_lt_of_lt h))

/-- A mapping operation finds everything that it asks for, and its addresses are machine words. -/
theorem Fits.lay?_eq (h : m.Fits) {op : Mapping} (hop : ∀ n ∈ op.extents, n < 2 ^ 33) :
    m.lay? op = some (m.lay op) := by
  cases op with
  | ram addr length =>
    obtain ⟨haddr, hlength⟩ := lt_of_extents hop
    refine h.mapData?_eq _ true ?_
    rw [Array.size_replicate]
    omega
  | rom addr bytes =>
    obtain ⟨haddr, hlength⟩ := lt_of_extents hop
    refine h.mapData?_eq _ false ?_
    rw [List.size_toArray]
    omega
  | shared addr block =>
    have haddr : addr < 2 ^ 33 := hop addr List.mem_cons_self
    refine h.mapBlock?_eq block ?_
    split
    · next b hb =>
      have hsize := h.blocks b (Array.mem_of_getElem? hb)
      omega
    · omega
  | port addr latch =>
    obtain ⟨map, -, hmap⟩ := h.map
    simp only [lay?, hmap, Option.bind_eq_bind, Option.bind_some, setIfInBounds_eq_mapIdx]
    exact congrArg some (setMap_mapIdx (m := { m with ports := m.ports.push latch }) hmap _)
  | unmap addr length =>
    obtain ⟨map, -, hmap⟩ := h.map
    simp only [lay?, hmap, Option.bind_eq_bind, Option.bind_some]
    exact congrArg some (setMap_mapIdx hmap _)
  | bank n => exact setBank?_eq h.bank n

end Checks

section Runs

variable {m n : Memory} {s : Memory × Latches}

theorem Fits.of_layout (h : m.Fits) (hlayout : n.layout = m.layout) (hbank : n.bank < n.banks) :
    n.Fits := by
  refine ⟨h.toInBounds.of_layout hlayout hbank, fun b hb => ?_⟩
  have hblocks : n.blocks.toList.map Block.outline = m.blocks.toList.map Block.outline :=
    congrArg Layout.blocks hlayout
  have houtline : b.outline ∈ n.blocks.toList.map Block.outline :=
    List.mem_map_of_mem (Array.mem_toList_iff.mpr hb)
  rw [hblocks] at houtline
  obtain ⟨b', hb', heq⟩ := List.mem_map.mp houtline
  have hsize : b'.data.size = b.data.size := congrArg Prod.fst heq
  rw [← hsize]
  exact h.blocks b' (Array.mem_toList_iff.mp hb')

/-- The length of a block that an operation asks for is among its extents. -/
theorem Mapping.length_mem_extents {op : Mapping} {storage : Storage}
    (h : op.storage? = some storage) : storage.length ∈ op.extents := by
  cases op with
  | ram addr length =>
    cases h
    exact List.mem_cons_of_mem _ List.mem_cons_self
  | rom addr bytes =>
    cases h
    exact List.mem_cons_of_mem _ List.mem_cons_self
  | _ => cases h

theorem Fits.lay (h : m.Fits) {op : Mapping} (hop : ∀ n ∈ op.extents, n < 2 ^ 33) :
    (m.lay op).Fits := by
  refine ⟨h.toInBounds.lay op, fun b hb => ?_⟩
  have hshape : (b.data.size, b.writable) ∈
      (m.lay op).blocks.toList.map fun b => (b.data.size, b.writable) :=
    List.mem_map_of_mem (Array.mem_toList_iff.mpr hb)
  rw [outlines_lay, List.mem_append, List.mem_map, List.mem_map] at hshape
  rcases hshape with ⟨b', hb', heq⟩ | ⟨storage, hstorage, heq⟩
  · rw [← (Prod.mk.inj heq).1]
    exact h.blocks b' (Array.mem_toList_iff.mp hb')
  · rw [← (Prod.mk.inj heq).1]
    exact hop _ (Mapping.length_mem_extents (Option.mem_toList.mp hstorage))

theorem Fits.write (h : m.Fits) (l : Latches) (addr : Nat) (v : UInt8) :
    (m.write l addr v).1.Fits := by
  have hlayout := layout_write m l addr v
  have hbanks : (m.write l addr v).1.banks = m.banks :=
    congrArg (fun g : Layout => g.maps.size) hlayout
  refine h.of_layout hlayout ?_
  rw [bank_write, hbanks]
  exact h.bank

/-- Whatever a stream holds and wherever it breaks off, the bank that is selected exists. -/
theorem Fits.load (h : m.Fits) (r : Reader) : (m.load r).1.Fits :=
  h.of_layout (layout_load m r) (Nat.mod_lt _ (Nat.zero_lt_of_lt h.bank))

theorem Fits.store?_eq (h : s.1.Fits) {addr k : Nat} (haddr : addr + k < 2 ^ 34) (v : UInt8) :
    store? addr s (v, k) = some (s.1.write s.2 (addr + k) v) := by
  rw [store?, address?_of_lt haddr]
  exact h.write?_eq s.2 (addr + k) v

/-- Several bytes are written one after the other, and every one of them fits. -/
theorem Fits.foldlM_store? (h : s.1.Fits) (vs : List UInt8) {addr k : Nat}
    (haddr : addr + k + vs.length ≤ 2 ^ 34) :
    (vs.zipIdx k).foldlM (store? addr) s = some (s.1.writeAll s.2 (addr + k) vs) ∧
      (s.1.writeAll s.2 (addr + k) vs).1.Fits := by
  induction vs generalizing s k with
  | nil => exact ⟨rfl, h⟩
  | cons v vs ih =>
    rw [List.length_cons] at haddr
    have hnext := h.write s.2 (addr + k) v
    rw [List.zipIdx_cons, List.foldlM_cons, h.store?_eq (by omega), Option.bind_eq_bind,
      Option.bind_some]
    exact ih (s := s.1.write s.2 (addr + k) v) (k := k + 1) hnext (by omega)

theorem fits_operate (h : s.1.Fits) {op : Operation} (hop : ∀ n ∈ op.extents, n < 2 ^ 33) :
    operate? s op = some (operate s op) ∧ (operate s op).1.Fits := by
  cases op with
  | lay op =>
    rw [operate?, h.lay?_eq hop]
    exact ⟨rfl, h.lay hop⟩
  | write addr v => exact ⟨h.write?_eq s.2 addr v, h.write s.2 addr v⟩
  | writeAll addr vs =>
    obtain ⟨haddr, hlength⟩ := lt_of_extents hop
    exact h.foldlM_store? vs (by omega)
  | writeWord addr w =>
    have haddr : addr < 2 ^ 33 := hop addr List.mem_cons_self
    have hlow := h.write s.2 addr (Word.low w)
    rw [operate?, h.write?_eq, Option.bind_eq_bind, Option.bind_some,
      Fits.store?_eq hlow (by omega)]
    exact ⟨rfl, hlow.write _ (addr + 1) (Word.high w)⟩
  | latch i v => exact ⟨rfl, h⟩

theorem fits_use (h : s.1.Fits) {u : Use} (hu : ∀ n ∈ u.extents, n < 2 ^ 33) :
    use? s u = some (use s u) ∧ (use s u).1.Fits := by
  cases u with
  | operation op => exact fits_operate h hu
  | load r =>
    rw [use?, load?, setBank?_eq h.bank]
    exact ⟨rfl, h.load r⟩

theorem fits_uses (h : s.1.Fits) {uses : List Use}
    (huses : ∀ u ∈ uses, ∀ n ∈ u.extents, n < 2 ^ 33) :
    uses.foldlM use? s = some (uses.foldl use s) ∧ (uses.foldl use s).1.Fits := by
  induction uses generalizing s with
  | nil => exact ⟨rfl, h⟩
  | cons u uses ih =>
    obtain ⟨hfirst, hrest⟩ := List.forall_mem_cons.mp huses
    obtain ⟨hstep, hfits⟩ := fits_use h hfirst
    rw [List.foldlM_cons, hstep]
    exact ih hfits hrest

theorem fits_empty (size banks : Nat) : (empty size banks).Fits :=
  ⟨inBounds_empty size banks, by simp [empty]⟩

theorem Fits.of_origin {origin : Origin} (h : ∀ n ∈ origin.extents, n < 2 ^ 33) :
    origin.memory? = some origin.memory ∧ origin.memory.Fits := by
  cases origin with
  | empty size banks => exact ⟨rfl, fits_empty size banks⟩
  | ram size =>
    have hop : ∀ n ∈ (Mapping.ram 0 size).extents, n < 2 ^ 33 :=
      List.forall_mem_cons.mpr ⟨by decide, h⟩
    exact ⟨(fits_empty size 1).lay?_eq hop, (fits_empty size 1).lay hop⟩

end Runs

/-- However a memory comes about and whatever is done to it, with blocks that exist or not, any bank
number and any stream, whole or broken: the selected bank exists, every bank has a slot for each
address, and every slot leads to a byte of a block or to a port that exists. So nothing that is done
asks for anything that does not exist, and neither does reading any address thereafter. -/
theorem uses_stay_in_bounds (origin : Origin) (l : Latches) (uses : List Use)
    (horigin : ∀ n ∈ origin.extents, n < 2 ^ 33)
    (huses : ∀ u ∈ uses, ∀ n ∈ u.extents, n < 2 ^ 33) :
    let s := uses.foldl use (origin.memory, l)
    s.1.InBounds ∧
      (do
        let m ← origin.memory?
        uses.foldlM use? (m, l)) = some s ∧
      ∀ addr, s.1.read? s.2 addr = some (s.1.read s.2 addr) := by
  intro s
  obtain ⟨hstart, hfits⟩ := Fits.of_origin horigin
  obtain ⟨hrun, hend⟩ := fits_uses (s := (origin.memory, l)) hfits huses
  refine ⟨hend.toInBounds, ?_, fun addr => hend.read?_eq s.2 addr⟩
  rw [hstart]
  exact hrun

/-- Without a bank asked for: a block that reaches out of the memory, one that does not exist, a
stream that breaks off behind a bank number, and a write up to the end and further. -/
def straying : List Use :=
  [.operation (.lay (.ram 6 4)), .operation (.lay (.shared 0 7)), .operation (.lay (.port 5 0)),
    .operation (.lay (.port 9 0)), .load (.ofBytes [0xff, 0xff, 0xff, 0xff, 1]),
    .operation (.lay (.bank 1000)), .operation (.writeAll 6 [1, 2, 3])]

theorem uses_stay_in_bounds_straying :
    (∀ u ∈ straying, ∀ n ∈ u.extents, n < 2 ^ 33) ∧
      let s := straying.foldl use ((Origin.empty 8 0).memory, ⟨#[9]⟩)
      s.1.InBounds ∧ straying.foldlM use? (empty 8 0, ⟨#[9]⟩) = some s ∧
        (List.range' 4 6).map (s.1.read? s.2) = [0, 9, 1, 2, 0, 0].map some := by
  have huses : ∀ u ∈ straying, ∀ n ∈ u.extents, n < 2 ^ 33 := by decide
  obtain ⟨hbounds, hrun, hread⟩ :=
    uses_stay_in_bounds (.empty 8 0) ⟨#[9]⟩ straying (List.forall_mem_nil _) huses
  refine ⟨huses, hbounds, hrun, ?_⟩
  rw [List.map_congr_left fun addr _ => hread addr]
  decide

end Memory

end EightBit
