import EightBit.Proofs.Cells

/-!
A memory shows what its past tells.

Slots, blocks and ports are one way to keep the cells and their contents. Whatever is done to a
memory, every address of every bank leads to the cell that the past gives it, and every cell holds
what the past says it holds.
-/

namespace EightBit.Memory

namespace Past

variable {size banks : Nat} {past : Past}

/-- What happens later only asks for further blocks. -/
theorem storages_append {b : Nat} {s : Storage} (later : Past) (h : past.storages[b]? = some s) :
    (storages (later ++ past))[b]? = some s := by
  induction later with
  | nil => exact h
  | cons change later ih =>
    cases change with
    | lay op =>
      rw [List.cons_append, storages, List.getElem?_append_left (List.getElem?_eq_some_iff.mp ih).1,
        ih]
    | store addr v => exact ih
    | latch i v => exact ih

/-- Where an address leads has been laid down by an operation that covered it. -/
theorem cell?_laid {bank addr : Nat} {c : Cell}
    (h : past.cell? size banks bank addr = some c) :
    ∃ (later : Past) (op : Mapping) (earlier : Past),
      past = later ++ .lay op :: earlier ∧ earlier.target? op addr = some (some c) := by
  induction past with
  | nil => simp [cell?] at h
  | cons change past ih =>
    have hearlier (h : cell? size banks past bank addr = some c) :
        ∃ (later : Past) (op : Mapping) (earlier : Past),
          change :: past = later ++ .lay op :: earlier ∧
            earlier.target? op addr = some (some c) := by
      obtain ⟨later, op, earlier, rfl, htarget⟩ := ih h
      exact ⟨change :: later, op, earlier, rfl, htarget⟩
    cases change with
    | store addr v => exact hearlier h
    | latch j v => exact hearlier h
    | lay op =>
      simp only [cell?] at h
      split at h
      · cases htarget : target? past op addr with
        | none => exact hearlier (by simpa [htarget] using h)
        | some c' => exact ⟨[], op, past, rfl, by simpa [htarget] using h⟩
      · exact hearlier h

theorem cover_eq_some {start length addr : Nat} {target : Nat → Option Cell} {c : Option Cell}
    (h : cover start length target addr = some c) :
    ∃ i, i < length ∧ target i = c := by
  simp only [cover] at h
  split at h
  · next hcover => exact ⟨addr - start, by omega, Option.some.inj h⟩
  · contradiction

/-- An operation that makes an address lead to storage makes it lead into a block that exists. -/
theorem target?_byte {op : Mapping} {addr b i : Nat}
    (h : past.target? op addr = some (some (.byte b i))) :
    ∃ s, (storages (.lay op :: past))[b]? = some s ∧ i < s.length := by
  cases op with
  | ram start length =>
    simp only [target?] at h
    obtain ⟨k, hk, heq⟩ := cover_eq_some h
    simp only [Option.some.injEq, Cell.byte.injEq] at heq
    obtain ⟨rfl, rfl⟩ := heq
    exact ⟨.ram length, by simp [storages, Mapping.storage?], hk⟩
  | rom start bytes =>
    simp only [target?] at h
    obtain ⟨k, hk, heq⟩ := cover_eq_some h
    simp only [Option.some.injEq, Cell.byte.injEq] at heq
    obtain ⟨rfl, rfl⟩ := heq
    exact ⟨.rom bytes, by simp [storages, Mapping.storage?], hk⟩
  | shared start block =>
    simp only [target?] at h
    obtain ⟨k, hk, heq⟩ := cover_eq_some h
    simp only [Option.some.injEq, Cell.byte.injEq] at heq
    obtain ⟨rfl, rfl⟩ := heq
    cases hs : past.storages[block]? with
    | none => simp [hs] at hk
    | some s => exact ⟨s, storages_append [_] hs, by simpa [hs] using hk⟩
  | port start j => simp [target?, cover] at h
  | unmap start length => simp [target?, cover] at h
  | bank n => simp [target?] at h

/-- No address leads out of a block. -/
theorem cell?_byte {bank addr b i : Nat} (h : past.cell? size banks bank addr = some (.byte b i)) :
    ∃ s, past.storages[b]? = some s ∧ i < s.length := by
  obtain ⟨later, op, earlier, rfl, htarget⟩ := cell?_laid h
  obtain ⟨s, hs, hi⟩ := target?_byte htarget
  exact ⟨s, storages_append later hs, hi⟩

/-- An address leads to a register only through a port. -/
theorem cell?_register {bank addr i : Nat}
    (h : past.cell? size banks bank addr = some (.register i)) :
    ∃ start, Change.lay (.port start i) ∈ past := by
  obtain ⟨later, op, earlier, rfl, htarget⟩ := cell?_laid h
  cases op with
  | port start j =>
    simp only [target?] at htarget
    obtain ⟨k, -, heq⟩ := cover_eq_some htarget
    simp only [Option.some.injEq, Cell.register.injEq] at heq
    exact ⟨start, by simp [heq]⟩
  | _ => simp [target?, cover] at htarget

/-- Nothing has been stored in a block before it was asked for. -/
theorem lastStored_fresh {b i : Nat} (h : past.storages.length ≤ b) :
    past.lastStored size banks (.byte b i) = none := by
  induction past with
  | nil => rfl
  | cons change past ih =>
    cases change with
    | lay op =>
      refine ih ?_
      simp only [storages, List.length_append] at h
      omega
    | latch j v => simpa [lastStored] using ih h
    | store addr v =>
      simp only [lastStored]
      split
      · next hcell =>
        -- The address would have led into a block that did not exist.
        obtain ⟨s, hs, -⟩ := cell?_byte hcell
        have hlt := (List.getElem?_eq_some_iff.mp hs).1
        simp only [storages] at h
        omega
      · exact ih h

end Past

def slotAt (m : Memory) (bank addr : Nat) : Slot :=
  match m.maps[bank]? with
  | some map => map.getD addr .unmapped
  | none => .unmapped

/-- The cell behind a slot. -/
def cellOf (ports : Array Nat) : Slot → Option Cell
  | .unmapped => none
  | .byte block index => some (.byte block index)
  | .port p => ports[p]?.map .register

def leadsTo (m : Memory) (bank addr : Nat) : Option Cell := cellOf m.ports (m.slotAt bank addr)

def holds (m : Memory) (l : Latches) : Cell → UInt8
  | .byte block index =>
    match m.blocks[block]? with
    | some b => b.data.getD index 0
    | none => 0
  | .register i => l.get i

theorem read_eq_holds (m : Memory) (l : Latches) (addr : Nat) :
    m.read l addr = ((m.leadsTo m.bank addr).map (m.holds l)).getD 0 := by
  have hslot : m.slot addr = m.slotAt m.bank addr := rfl
  simp only [read, leadsTo, hslot]
  cases m.slotAt m.bank addr with
  | unmapped => rfl
  | byte block index => rfl
  | port p =>
    simp only [cellOf]
    cases m.ports[p]? <;> rfl

section Remap

variable {m : Memory} {size : Nat}

/-- The maps of other banks stay what they are. -/
theorem mem_maps_remap {f : Nat → Slot → Slot} {map : Array Slot}
    (h : map ∈ (m.remap f).maps) : map ∈ m.maps ∨ ∃ old ∈ m.maps, map = old.mapIdx f := by
  obtain ⟨i, hi, rfl⟩ := Array.mem_iff_getElem.mp h
  have hi' : i < m.maps.size := by simpa [remap] using hi
  simp only [remap, Array.getElem_modify]
  split
  · exact .inr ⟨_, Array.getElem_mem hi', rfl⟩
  · exact .inl (Array.getElem_mem hi')

theorem size_maps_remap (f : Nat → Slot → Slot) (h : ∀ map ∈ m.maps, map.size = size) :
    ∀ map ∈ (m.remap f).maps, map.size = size := by
  intro map hmap
  rcases mem_maps_remap hmap with hold | ⟨old, hold, rfl⟩
  · exact h map hold
  · rw [Array.size_mapIdx]
    exact h old hold

/-- Changing the map of the selected bank changes what its addresses lead to. -/
theorem slotAt_remap (hmaps : ∀ map ∈ m.maps, map.size = size) (hbank : m.bank < m.maps.size)
    (f : Nat → Slot → Slot) (bank addr : Nat) :
    (m.remap f).slotAt bank addr =
      if addr < size ∧ bank = m.bank then f addr (m.slotAt bank addr)
      else m.slotAt bank addr := by
  simp only [slotAt, remap, Array.getElem?_modify]
  by_cases hselected : m.bank = bank
  · subst hselected
    have hmap : m.maps[m.bank]? = some m.maps[m.bank] := Array.getElem?_eq_getElem hbank
    have hsize : m.maps[m.bank].size = size := hmaps _ (Array.getElem_mem hbank)
    simp only [hmap, ↓reduceIte, Option.map_some, Array.getD_eq_getD_getElem?,
      Array.getElem?_mapIdx, and_true]
    by_cases haddr : addr < size
    · have hslot : m.maps[m.bank][addr]? = some m.maps[m.bank][addr] :=
        Array.getElem?_eq_getElem (hsize ▸ haddr)
      simp [haddr, hslot]
    · have hslot : m.maps[m.bank][addr]? = none := Array.getElem?_eq_none (by omega)
      simp [haddr, hslot]
  · simp [hselected, Ne.symm hselected]

/-- Giving new slots to a range of addresses covers it with their cells. -/
theorem leadsTo_cover (hmaps : ∀ map ∈ m.maps, map.size = size) (hbank : m.bank < m.maps.size)
    (start length : Nat) (slot : Nat → Slot) (bank addr : Nat) :
    (m.remap fun a old =>
        if start ≤ a ∧ a < start + length then slot (a - start) else old).leadsTo bank addr =
      if addr < size ∧ bank = m.bank then
        (Past.cover start length (fun i => cellOf m.ports (slot i)) addr).getD
          (m.leadsTo bank addr)
      else m.leadsTo bank addr := by
  have hports (f : Nat → Slot → Slot) : (m.remap f).ports = m.ports := rfl
  simp only [leadsTo, slotAt_remap hmaps hbank, hports, Past.cover]
  split
  · split <;> rfl
  · rfl

theorem leadsTo_mapBlock (hmaps : ∀ map ∈ m.maps, map.size = size)
    (hbank : m.bank < m.maps.size) (start block length bank addr : Nat) :
    (m.mapBlock start block length).leadsTo bank addr =
      if addr < size ∧ bank = m.bank then
        (Past.cover start length (fun i => some (.byte block i)) addr).getD (m.leadsTo bank addr)
      else m.leadsTo bank addr :=
  leadsTo_cover hmaps hbank start length (.byte block) bank addr

theorem leadsTo_mapData (hmaps : ∀ map ∈ m.maps, map.size = size)
    (hbank : m.bank < m.maps.size) (start : Nat) (data : Array UInt8) (writable : Bool)
    (bank addr : Nat) :
    (m.mapData start data writable).leadsTo bank addr =
      if addr < size ∧ bank = m.bank then
        (Past.cover start data.size (fun i => some (.byte m.blocks.size i)) addr).getD
          (m.leadsTo bank addr)
      else m.leadsTo bank addr :=
  leadsTo_mapBlock (m := { m with blocks := m.blocks.push ⟨data, writable⟩ }) hmaps hbank start
    m.blocks.size data.size bank addr

end Remap

/-- The state of a memory and of the registers is the one that the past tells. -/
structure Reflects (size banks : Nat) (l₀ : Latches) (past : Past) (m : Memory) (l : Latches) :
    Prop where
  banks_eq : m.maps.size = max banks 1
  bank_eq : m.bank = past.selected banks
  size_maps : ∀ map ∈ m.maps, map.size = size
  port_lt : ∀ bank addr p, m.slotAt bank addr = .port p → p < m.ports.size
  leadsTo_eq : ∀ bank addr, m.leadsTo bank addr = past.cell? size banks bank addr
  outlines : m.blocks.toList.map (fun b => (b.data.size, b.writable)) =
    past.storages.map fun s => (s.length, s.writable)
  bytes : ∀ b i, m.holds l (.byte b i) = past.content size banks l₀ (.byte b i)
  latches : l.values.size = l₀.values.size
  registers : ∀ i, i < l₀.values.size →
    m.holds l (.register i) = past.content size banks l₀ (.register i)

section Reflects

variable {size banks : Nat} {l₀ l : Latches} {past : Past} {m : Memory}

theorem Reflects.bank_lt (h : Reflects size banks l₀ past m l) : m.bank < m.maps.size := by
  have hselected (past : Past) : past.selected banks < max banks 1 := by
    induction past with
    | nil => simp only [Past.selected]; omega
    | cons change past ih =>
      unfold Past.selected
      split
      · omega
      · exact Nat.mod_lt _ (by omega)
      · simp_all
  rw [h.bank_eq, h.banks_eq]
  exact hselected past

theorem slotAt_empty (size banks bank addr : Nat) :
    (empty size banks).slotAt bank addr = .unmapped := by
  simp only [slotAt, empty, Array.getElem?_replicate]
  split
  · next map hmap =>
    split at hmap
    · simp only [Option.some.injEq] at hmap
      subst hmap
      simp only [Array.getD_eq_getD_getElem?, Array.getElem?_replicate]
      split <;> rfl
    · contradiction
  · rfl

theorem reflects_empty (size banks : Nat) (l : Latches) :
    Reflects size banks l [] (empty size banks) l where
  banks_eq := banks_empty size banks
  bank_eq := rfl
  size_maps := by simp [empty]
  port_lt := by simp [slotAt_empty]
  leadsTo_eq := by simp [leadsTo, slotAt_empty, cellOf, Past.cell?]
  outlines := rfl
  bytes := by simp [holds, empty, Past.content, Past.storages]
  latches := rfl
  registers := by simp [holds, Past.content, Past.lastStored]

theorem cellOf_push {ports : Array Nat} {slot : Slot}
    (h : ∀ p, slot = .port p → p < ports.size) (latch : Nat) :
    cellOf (ports.push latch) slot = cellOf ports slot := by
  cases slot with
  | unmapped => rfl
  | byte block index => rfl
  | port p =>
    simp only [cellOf, Array.getElem?_push_lt (h p rfl), Array.getElem?_eq_getElem (h p rfl)]

/-- A mapping operation makes the addresses it covers lead to the cells it gives them. -/
theorem Reflects.leadsTo_lay (h : Reflects size banks l₀ past m l) (op : Mapping)
    (bank addr : Nat) :
    (m.lay op).leadsTo bank addr =
      if addr < size ∧ bank = m.bank then
        (past.target? op addr).getD (m.leadsTo bank addr)
      else m.leadsTo bank addr := by
  have hblocks : past.storages.length = m.blocks.size := by
    simpa using (congrArg List.length h.outlines).symm
  cases op with
  | ram start length =>
    rw [lay, mapRam, leadsTo_mapData h.size_maps h.bank_lt, Array.size_replicate, ← hblocks]
    rfl
  | rom start bytes =>
    rw [lay, mapRom, leadsTo_mapData h.size_maps h.bank_lt, List.size_toArray, ← hblocks]
    rfl
  | shared start block =>
    have hlength : m.lay (.shared start block) =
        m.mapBlock start block (((past.storages[block]?).map (·.length)).getD 0) := by
      have houtline := congrArg (·[block]?) h.outlines
      simp only [List.getElem?_map, Array.getElem?_toList] at houtline
      simp only [lay, mapShared]
      cases hb : m.blocks[block]? <;> cases hs : past.storages[block]? <;> simp_all
    rw [hlength, leadsTo_mapBlock h.size_maps h.bank_lt]
    rfl
  | port start latch =>
    have hcover := leadsTo_cover (m := { m with ports := m.ports.push latch })
      h.size_maps h.bank_lt start 1 (fun _ => .port m.ports.size) bank addr
    -- The ports that there are keep their registers.
    have hold : ({ m with ports := m.ports.push latch } : Memory).leadsTo bank addr =
        m.leadsTo bank addr := cellOf_push (h.port_lt bank addr) latch
    have hnew : cellOf (m.ports.push latch) (.port m.ports.size) = some (.register latch) := by
      simp [cellOf]
    have hone (a : Nat) : (start ≤ a ∧ a < start + 1) = (a = start) := by
      simp only [eq_iff_iff]
      omega
    simpa only [Past.target?, lay, mapPort, hold, hnew, hone] using hcover
  | unmap start length =>
    exact leadsTo_cover h.size_maps h.bank_lt start length (fun _ => .unmapped) bank addr
  | bank n =>
    have hsame : (m.lay (.bank n)).leadsTo bank addr = m.leadsTo bank addr := rfl
    simp [hsame, Past.target?]

/-- A new block holds what it was asked to hold. -/
theorem Past.content_lay (op : Mapping) (b i : Nat) :
    Past.content size banks l (.lay op :: past) (.byte b i) =
      if b = past.storages.length then (op.storage?.map (·.initial i)).getD 0
      else past.content size banks l (.byte b i) := by
  have hlast (c : Cell) :
      Past.lastStored size banks c (.lay op :: past) = past.lastStored size banks c := rfl
  simp only [Past.content, Past.storages, hlast, List.getElem?_append]
  rcases Nat.lt_trichotomy b past.storages.length with hlt | rfl | hgt
  · simp [hlt, Nat.ne_of_lt hlt]
  · simp only [Nat.lt_irrefl, ↓reduceIte, Nat.sub_self, Past.lastStored_fresh (Nat.le_refl _)]
    cases op.storage? <;> simp
  · obtain ⟨k, rfl⟩ := Nat.exists_eq_add_of_lt hgt
    have hnone : past.storages[past.storages.length + k + 1]? = none :=
      List.getElem?_eq_none (by omega)
    have hshift : past.storages.length + k + 1 - past.storages.length = k + 1 := by omega
    have hne : past.storages.length + k + 1 ≠ past.storages.length := by omega
    cases op.storage? <;> simp [hnone, hshift, hne]

theorem holds_mapData (m : Memory) (l : Latches) (start : Nat) (data : Array UInt8)
    (writable : Bool) (b i : Nat) :
    (m.mapData start data writable).holds l (.byte b i) =
      if b = m.blocks.size then data.getD i 0 else m.holds l (.byte b i) := by
  simp only [holds, mapData, mapBlock, remap, Array.getElem?_push]
  by_cases hb : b = m.blocks.size <;> simp [hb]

theorem holds_lay (m : Memory) (l : Latches) (op : Mapping) (b i : Nat) :
    (m.lay op).holds l (.byte b i) =
      if b = m.blocks.size then (op.storage?.map (·.initial i)).getD 0
      else m.holds l (.byte b i) := by
  have hnone (h : op.storage? = none) : (m.lay op).holds l (.byte b i) = m.holds l (.byte b i) →
      (m.lay op).holds l (.byte b i) = if b = m.blocks.size then
        (op.storage?.map (·.initial i)).getD 0 else m.holds l (.byte b i) := by
    intro hsame
    rw [hsame, h]
    split
    · next hb => simp [holds, hb]
    · rfl
  cases op with
  | ram start length =>
    rw [lay, mapRam, holds_mapData]
    split
    · simp [Mapping.storage?, Storage.initial, Array.getD_eq_getD_getElem?,
        Array.getElem?_replicate]
      split <;> rfl
    · rfl
  | rom start bytes =>
    rw [lay, mapRom, holds_mapData]
    simp [Mapping.storage?, Storage.initial]
  | shared start block => exact hnone rfl rfl
  | port start latch => exact hnone rfl rfl
  | unmap start length => exact hnone rfl rfl
  | bank n => exact hnone rfl rfl

theorem Reflects.size_blocks (h : Reflects size banks l₀ past m l) :
    m.blocks.size = past.storages.length := by
  simpa using congrArg List.length h.outlines

/-- Slots that lead to ports lead to ports that exist, if the new ones do. -/
theorem Reflects.port_lt_remap (h : Reflects size banks l₀ past m l) {n : Memory}
    {f : Nat → Slot → Slot} (hmaps : n.maps = m.maps) (hbank : n.bank = m.bank)
    (hports : m.ports.size ≤ n.ports.size) {p : Nat}
    (hf : ∀ a slot, f a slot = .port p → slot = .port p ∨ p < n.ports.size) {bank addr : Nat}
    (hp : (n.remap f).slotAt bank addr = .port p) : p < (n.remap f).ports.size := by
  have hslots : n.slotAt = m.slotAt := by
    funext bank addr
    simp only [slotAt, hmaps]
  have hold (hslot : m.slotAt bank addr = .port p) : p < n.ports.size :=
    Nat.lt_of_lt_of_le (h.port_lt bank addr p hslot) hports
  rw [slotAt_remap (hmaps ▸ h.size_maps) (hmaps ▸ hbank ▸ h.bank_lt), hslots] at hp
  split at hp
  · exact (hf _ _ hp).elim hold id
  · exact hold hp

theorem Reflects.port_lt_mapBlock (h : Reflects size banks l₀ past m l) {n : Memory}
    (hmaps : n.maps = m.maps) (hbank : n.bank = m.bank) (hports : n.ports = m.ports)
    {start block length bank addr p : Nat}
    (hp : (n.mapBlock start block length).slotAt bank addr = .port p) : p < m.ports.size := by
  rw [← hports]
  refine h.port_lt_remap hmaps hbank (Nat.le_of_eq (by rw [hports])) ?_ hp
  intro a slot hslot
  split at hslot
  · contradiction
  · exact .inl hslot

theorem Reflects.port_lt_lay (h : Reflects size banks l₀ past m l) (op : Mapping)
    {bank addr p : Nat} (hp : (m.lay op).slotAt bank addr = .port p) :
    p < (m.lay op).ports.size := by
  cases op with
  | ram start length => exact h.port_lt_mapBlock rfl rfl rfl hp
  | rom start bytes => exact h.port_lt_mapBlock rfl rfl rfl hp
  | shared start block => exact h.port_lt_mapBlock rfl rfl rfl hp
  | port start latch =>
    have hports : m.ports.size ≤ (m.ports.push latch).size := by simp
    refine h.port_lt_remap (n := { m with ports := m.ports.push latch }) rfl rfl hports ?_ hp
    intro a slot hslot
    split at hslot
    · obtain rfl := Slot.port.inj hslot
      exact .inr (by simp)
    · exact .inl hslot
  | unmap start length =>
    refine h.port_lt_remap rfl rfl (Nat.le_refl _) ?_ hp
    intro a slot hslot
    split at hslot
    · contradiction
    · exact .inl hslot
  | bank n => exact h.port_lt bank addr p hp

theorem outlines_lay (m : Memory) (op : Mapping) :
    (m.lay op).blocks.toList.map (fun b => (b.data.size, b.writable)) =
      m.blocks.toList.map (fun b => (b.data.size, b.writable)) ++
        op.storage?.toList.map fun s => (s.length, s.writable) := by
  cases op <;>
    simp [lay, mapRam, mapRom, mapShared, mapPort, mapData, mapBlock, unmap, remap, setBank,
      Mapping.storage?, Storage.length, Storage.writable]

theorem Reflects.lay (h : Reflects size banks l₀ past m l) (op : Mapping) :
    Reflects size banks l₀ (.lay op :: past) (m.lay op) l where
  banks_eq := (banks_lay m op).trans h.banks_eq
  bank_eq := by
    cases op with
    | bank n =>
      have hbank : (m.lay (.bank n)).bank = n % m.maps.size := rfl
      rw [hbank, h.banks_eq]
      rfl
    | _ => exact h.bank_eq
  size_maps := by
    cases op with
    | bank n => exact h.size_maps
    | _ => exact size_maps_remap _ h.size_maps
  port_lt := fun bank addr p hp => h.port_lt_lay op hp
  leadsTo_eq := by
    intro bank addr
    rw [h.leadsTo_lay, h.leadsTo_eq, h.bank_eq]
    rfl
  outlines := by rw [outlines_lay, h.outlines, Past.storages, List.map_append]
  bytes := by
    intro b i
    rw [holds_lay, Past.content_lay, h.size_blocks, h.bytes]
  latches := h.latches
  registers := h.registers

theorem Latches.get_set (l : Latches) (i : Nat) (v : UInt8) (k : Nat) :
    (l.set i v).get k = if k = i ∧ k < l.values.size then v else l.get k := by
  simp only [Latches.get, Latches.set, Array.getD_eq_getD_getElem?, Array.getElem?_setIfInBounds]
  by_cases hik : i = k
  · subst hik
    by_cases hi : i < l.values.size
    · simp [hi]
    · simp [hi]
  · simp [hik, Ne.symm hik]

theorem Reflects.latch (h : Reflects size banks l₀ past m l) (i : Nat) (v : UInt8) :
    Reflects size banks l₀ (.latch i v :: past) m (l.set i v) where
  banks_eq := h.banks_eq
  bank_eq := h.bank_eq
  size_maps := h.size_maps
  port_lt := h.port_lt
  leadsTo_eq := h.leadsTo_eq
  outlines := h.outlines
  bytes := by
    intro b k
    have hcell : (Cell.byte b k : Cell) ≠ .register i := by simp
    have hbytes := h.bytes b k
    simp only [Past.content, Past.storages, Past.lastStored, hcell, ↓reduceIte] at hbytes ⊢
    exact hbytes
  latches := (Latches.size_set l i v).trans h.latches
  registers := by
    intro k hk
    have hregister := h.registers k hk
    simp only [holds, Past.content, Past.lastStored, Cell.register.injEq] at hregister ⊢
    rw [Latches.get_set, h.latches, hregister]
    simp only [hk, and_true]
    split <;> rfl

theorem Block.getD_write {b : Block} {i : Nat} (hi : i < b.data.size) (v : UInt8) (k : Nat) :
    (b.write i v).data.getD k 0 = if k = i ∧ b.writable then v else b.data.getD k 0 := by
  cases hb : b.writable with
  | true =>
    simp only [Block.write, hb, ↓reduceIte, Array.getD_eq_getD_getElem?,
      Array.getElem?_setIfInBounds, hi, eq_comm (a := i), and_true]
    split <;> rfl
  | false => simp [Block.write, hb]

/-- Storing a byte changes the cell that the address leads to and no other. -/
theorem Past.content_store (addr : Nat) (v : UInt8) (c : Cell) :
    Past.content size banks l (.store addr v :: past) c =
      if past.cell? size banks (past.selected banks) addr = some c ∧ past.writable c then v
      else past.content size banks l c := by
  cases c with
  | byte b i =>
    simp only [Past.content, Past.storages, Past.lastStored, Past.writable]
    rcases Option.eq_none_or_eq_some past.storages[b]? with hs | ⟨s, hs⟩
    · simp [hs]
    · cases hwritable : s.writable <;> simp only [hs, hwritable, Option.any_some, ↓reduceIte,
        Bool.false_eq_true, and_false, and_true]
      split <;> rfl
  | register i =>
    simp only [Past.content, Past.lastStored, Past.writable, and_true]
    split <;> rfl

/-- A block that was asked for exists as it was asked for. -/
theorem Reflects.block (h : Reflects size banks l₀ past m l) {b : Nat} {s : Storage}
    (hs : past.storages[b]? = some s) :
    ∃ block, m.blocks[b]? = some block ∧ block.data.size = s.length ∧
      block.writable = s.writable := by
  have houtline := congrArg (·[b]?) h.outlines
  simp only [List.getElem?_map, Array.getElem?_toList, hs, Option.map_some] at houtline
  obtain ⟨block, hblock, heq⟩ := Option.map_eq_some_iff.mp houtline
  exact ⟨block, hblock, (Prod.mk.inj heq).1, (Prod.mk.inj heq).2⟩

/-- A write changes the cell that its address leads to, if that can be written, and no other. -/
theorem Reflects.holds_write (h : Reflects size banks l₀ past m l)
    (hports : ∀ addr i, Change.lay (.port addr i) ∈ past → i < l₀.values.size) (addr : Nat)
    (v : UInt8) (c : Cell) :
    (m.write l addr v).1.holds (m.write l addr v).2 c =
      if m.leadsTo m.bank addr = some c ∧ past.writable c then v else m.holds l c := by
  have hcell := h.leadsTo_eq m.bank addr
  cases hslot : m.slotAt m.bank addr with
  | unmapped =>
    have hleads : m.leadsTo m.bank addr = none := by rw [leadsTo, hslot, cellOf]
    have hwrite : m.write l addr v = (m, l) := by
      have hsame : m.slot addr = .unmapped := hslot
      simp [write, hsame]
    simp [hwrite, hleads]
  | byte b i =>
    have hleads : m.leadsTo m.bank addr = some (.byte b i) := by rw [leadsTo, hslot, cellOf]
    have hwrite : m.write l addr v =
        ({ m with blocks := m.blocks.modify b (·.write i v) }, l) := by
      have hsame : m.slot addr = .byte b i := hslot
      simp [write, hsame]
    -- The byte is inside its block, so the write is not lost.
    obtain ⟨s, hs, hi⟩ := Past.cell?_byte (hcell.symm.trans hleads)
    obtain ⟨block, hblock, hlength, hwritable⟩ := h.block hs
    cases c with
    | register k => simp [hwrite, hleads, holds]
    | byte b' k =>
      by_cases hb : b = b'
      · subst hb
        simp only [hwrite, hleads, holds, Array.getElem?_modify, ↓reduceIte, hblock,
          Option.map_some, Block.getD_write (hlength ▸ hi), Past.writable, hs, Option.any_some,
          hwritable, Option.some.injEq, Cell.byte.injEq, true_and, eq_comm (a := i)]
      · simp [hwrite, hleads, holds, Array.getElem?_modify, hb]
  | port p =>
    obtain ⟨latch, hlatch⟩ : ∃ latch, m.ports[p]? = some latch :=
      ⟨_, Array.getElem?_eq_getElem (h.port_lt m.bank addr p hslot)⟩
    have hleads : m.leadsTo m.bank addr = some (.register latch) := by
      rw [leadsTo, hslot, cellOf, hlatch, Option.map_some]
    have hwrite : m.write l addr v = (m, l.set latch v) := by
      have hsame : m.slot addr = .port p := hslot
      simp [write, hsame, hlatch]
    obtain ⟨start, hstart⟩ := Past.cell?_register (hcell.symm.trans hleads)
    have hregister : latch < l.values.size := h.latches ▸ hports start _ hstart
    cases c with
    | byte b k => simp [hwrite, hleads, holds]
    | register k =>
      have hrange : (k = latch ∧ k < l.values.size) ↔ latch = k := by omega
      simp [hwrite, hleads, holds, Latches.get_set, Past.writable, hrange]

theorem Reflects.store (h : Reflects size banks l₀ past m l)
    (hports : ∀ addr i, Change.lay (.port addr i) ∈ past → i < l₀.values.size) (addr : Nat)
    (v : UInt8) :
    Reflects size banks l₀ (.store addr v :: past) (m.write l addr v).1 (m.write l addr v).2 := by
  have hlayout := layout_write m l addr v
  have hmaps : (m.write l addr v).1.maps = m.maps := congrArg Layout.maps hlayout
  have hindices : (m.write l addr v).1.ports = m.ports := congrArg Layout.ports hlayout
  have hslots : (m.write l addr v).1.slotAt = m.slotAt := by
    funext bank addr
    simp only [slotAt, hmaps]
  have hshape (blocks : List Block) : blocks.map (fun b => (b.data.size, b.writable)) =
      (blocks.map Block.outline).map fun o => (o.1, o.2.isNone) := by
    simp only [List.map_map, List.map_inj_left, Function.comp_apply, Block.outline]
    intro b _
    cases b.writable <;> rfl
  have hblocks : (m.write l addr v).1.blocks.toList.map Block.outline =
      m.blocks.toList.map Block.outline := congrArg Layout.blocks hlayout
  have hcontent (c : Cell) (hc : m.holds l c = past.content size banks l₀ c) :
      (m.write l addr v).1.holds (m.write l addr v).2 c =
        Past.content size banks l₀ (.store addr v :: past) c := by
    rw [h.holds_write hports, h.leadsTo_eq, h.bank_eq, Past.content_store, hc]
  exact {
    banks_eq := by rw [hmaps, h.banks_eq]
    bank_eq := (bank_write m l addr v).trans h.bank_eq
    size_maps := by rw [hmaps]; exact h.size_maps
    port_lt := by rw [hslots, hindices]; exact h.port_lt
    leadsTo_eq := by
      intro bank addr'
      rw [leadsTo, hslots, hindices]
      exact h.leadsTo_eq bank addr'
    outlines := by rw [hshape, hblocks, ← hshape]; exact h.outlines
    bytes := fun b i => hcontent _ (h.bytes b i)
    latches := (size_latches_write m l addr v).trans h.latches
    registers := fun i hi => hcontent _ (h.registers i hi) }

/-- What an address shows is what the past tells. -/
theorem Reflects.read_eq (h : Reflects size banks l₀ past m l)
    (hports : ∀ addr i, Change.lay (.port addr i) ∈ past → i < l₀.values.size) (addr : Nat) :
    m.read l addr = past.visible size banks l₀ addr := by
  rw [read_eq_holds, h.leadsTo_eq, h.bank_eq, Past.visible]
  cases hcell : past.cell? size banks (past.selected banks) addr with
  | none => rfl
  | some c =>
    cases c with
    | byte b i => exact h.bytes b i
    | register i =>
      obtain ⟨start, hstart⟩ := Past.cell?_register hcell
      exact h.registers i (hports start i hstart)

end Reflects

def change (s : Memory × Latches) : Change → Memory × Latches
  | .lay op => (s.1.lay op, s.2)
  | .store addr v => s.1.write s.2 addr v
  | .latch i v => (s.1, s.2.set i v)

theorem writeAll_eq (s : Memory × Latches) (addr : Nat) (vs : List UInt8) :
    s.1.writeAll s.2 addr vs =
      (vs.mapIdx fun i v => Change.store (addr + i) v).foldl change s := by
  induction vs generalizing s addr with
  | nil => rfl
  | cons v vs ih =>
    have hshift : (fun i v => Change.store (addr + (i + 1)) v) =
        fun i v => Change.store (addr + 1 + i) v := by
      funext i v
      rw [Nat.add_right_comm, Nat.add_assoc]
    rw [List.mapIdx_cons, List.foldl_cons, hshift]
    exact ih (s.1.write s.2 addr v) (addr + 1)

/-- An operation is the changes that it amounts to. -/
theorem operate_eq (s : Memory × Latches) (op : Operation) :
    operate s op = op.changes.foldl change s := by
  cases op with
  | writeAll addr vs => exact writeAll_eq s addr vs
  | _ => rfl

theorem foldl_operate (s : Memory × Latches) (ops : List Operation) :
    ops.foldl operate s = (ops.flatMap Operation.changes).foldl change s := by
  induction ops generalizing s with
  | nil => rfl
  | cons op ops ih => rw [List.foldl_cons, ih, operate_eq, List.flatMap_cons, List.foldl_append]

/-- Only an operation that maps a port maps a port. -/
theorem port_mem_of_change {ops : List Operation} {addr i : Nat}
    (h : Change.lay (.port addr i) ∈ Past.ofOperations ops) : .lay (.port addr i) ∈ ops := by
  simp only [Past.ofOperations, List.mem_reverse, List.mem_flatMap] at h
  obtain ⟨op, hop, hchange⟩ := h
  cases op <;> simp_all [Operation.changes]

/-- Whatever changes come, the memory goes on to reflect its past. -/
theorem Reflects.changes {size banks : Nat} {l₀ : Latches} {past : Past} {s : Memory × Latches}
    (h : Reflects size banks l₀ past s.1 s.2) (changes : List Change)
    (hports : ∀ addr i, Change.lay (.port addr i) ∈ changes.reverse ++ past →
      i < l₀.values.size) :
    Reflects size banks l₀ (changes.reverse ++ past) (changes.foldl change s).1
      (changes.foldl change s).2 := by
  induction changes generalizing past s with
  | nil => exact h
  | cons c changes ih =>
    simp only [List.reverse_cons, List.append_assoc, List.singleton_append, List.foldl_cons]
      at hports ⊢
    refine ih ?_ hports
    cases c with
    | lay op => exact h.lay op
    | store addr v =>
      refine h.store ?_ addr v
      intro addr i hmem
      exact hports addr i (List.mem_append_right _ (List.mem_cons_of_mem _ hmem))
    | latch i v => exact h.latch i v

/-- Selecting a bank shows what its addresses lead to, and changes nothing else. -/
theorem Past.visible_bank {size banks : Nat} {past : Past} (l : Latches) (n addr : Nat) :
    Past.visible size banks l (.lay (.bank n) :: past) addr =
      ((past.cell? size banks (n % max banks 1) addr).map (past.content size banks l)).getD 0 := by
  have hcell : Past.cell? size banks (.lay (.bank n) :: past) (n % max banks 1) addr =
      past.cell? size banks (n % max banks 1) addr := by
    simp [Past.cell?, Past.target?]
  have hcontent : Past.content size banks l (.lay (.bank n) :: past) =
      past.content size banks l := by
    have hstorages : Past.storages (.lay (.bank n) :: past) = past.storages := by
      simp [Past.storages, Mapping.storage?]
    funext c
    cases c <;> simp only [Past.content, hstorages, Past.lastStored]
  simp only [Past.visible, Past.selected, hcell, hcontent]

/-- Whatever a memory is told, in whichever order, every address shows what the past tells: what
was stored last in the cell that the address leads to, by whichever bank and address, or what that
cell held at first, or zero where it leads to none. A write shows wherever an address of any bank
leads to the cell that it changed, and nowhere else. -/
theorem read_eq_visible (size banks : Nat) (l : Latches) (ops : List Operation)
    (hports : ∀ addr i, .lay (.port addr i) ∈ ops → i < l.values.size) :
    let s := ops.foldl operate (empty size banks, l)
    let past := Past.ofOperations ops
    (∀ addr, s.1.read s.2 addr = past.visible size banks l addr) ∧
    (∀ i, i < l.values.size → s.2.get i = past.content size banks l (.register i)) ∧
    ∀ addr v bank other,
      let written := s.1.write s.2 addr v
      let reached := past.cell? size banks (past.selected banks) addr
      (written.1.setBank bank).read written.2 other =
        if reached = past.cell? size banks (bank % max banks 1) other ∧
            reached.any past.writable then v
        else (s.1.setBank bank).read s.2 other := by
  intro s past
  have hpast (addr i : Nat) (h : Change.lay (.port addr i) ∈ past) : i < l.values.size :=
    hports addr i (port_mem_of_change h)
  have hreflects : Reflects size banks l past s.1 s.2 := by
    have h := (reflects_empty size banks l).changes (s := (empty size banks, l))
      (ops.flatMap Operation.changes) (by rw [List.append_nil]; exact hpast)
    rw [List.append_nil, ← foldl_operate] at h
    exact h
  refine ⟨hreflects.read_eq hpast, hreflects.registers, ?_⟩
  intro addr v bank other written reached
  have hbank {past : Past} (h : ∀ addr i, Change.lay (.port addr i) ∈ past → i < l.values.size) :
      ∀ addr i, Change.lay (.port addr i) ∈ .lay (.bank bank) :: past → i < l.values.size := by
    simpa using h
  have hold := (hreflects.lay (.bank bank)).read_eq (hbank hpast) other
  have hnew := ((hreflects.store hpast addr v).lay (.bank bank)).read_eq
    (hbank (by simpa using hpast)) other
  have hsame : Past.cell? size banks (.store addr v :: past) = past.cell? size banks := rfl
  rw [Past.visible_bank] at hold hnew
  rw [hsame] at hnew
  have hselect (m : Memory) : m.setBank bank = m.lay (.bank bank) := rfl
  rw [hselect, hselect, hold, hnew]
  cases past.cell? size banks (bank % max banks 1) other with
  | none => cases reached <;> simp
  | some c =>
    simp only [Option.map_some, Option.getD_some, Past.content_store]
    by_cases hreached : reached = some c
    · simp [reached, hreached]
    · simp [reached, hreached]

/-- A block seen twice by the second bank, overlapping itself, in front of a port; and a block that
cannot be written and reaches out of the memory. -/
def interleaved : List Operation :=
  [.lay (.ram 0 4), .lay (.rom 6 [1, 2, 3]), .lay (.bank 1), .lay (.shared 2 0),
    .lay (.shared 3 0), .lay (.port 4 0), .write 2 5, .writeAll 3 [7, 8, 9, 10], .lay (.bank 2),
    .writeWord 6 0xffff, .lay (.unmap 3 1)]

theorem read_eq_visible_interleaved :
    (∀ addr i, .lay (.port addr i) ∈ interleaved → i < (⟨#[0]⟩ : Latches).values.size) ∧
    let s := interleaved.foldl operate (empty 8 2, ⟨#[0]⟩)
    (List.range 9).map (s.1.read s.2) = [7, 0, 9, 0, 0, 0, 1, 2, 0] ∧ s.2.get 0 = 8 := by
  have hports : ∀ addr i, .lay (.port addr i) ∈ interleaved →
      i < (⟨#[0]⟩ : Latches).values.size := by
    simp [interleaved]
  obtain ⟨hread, hregister, -⟩ := read_eq_visible 8 2 ⟨#[0]⟩ interleaved hports
  refine ⟨hports, ?_, ?_⟩
  · rw [List.map_congr_left fun addr _ => hread addr]
    decide
  · rw [hregister 0 (by decide)]
    decide

end EightBit.Memory
