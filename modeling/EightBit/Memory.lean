import EightBit.Stream.Field
import EightBit.Word

/-!
Addressable memory with switchable banks.

Each bank maps every address to nothing, to a byte of a storage block, or to a port that leads to
a latch. Blocks may be mapped more than once and in more than one bank. Reading what is not mapped
gives zero; writing to it, or to a block that is not writable, does nothing.
-/

namespace EightBit

/-- Single-byte registers outside memory. Memories that name the same register share it. -/
structure Latches where
  values : Array UInt8 := #[]
  deriving DecidableEq

namespace Latches

def get (l : Latches) (i : Nat) : UInt8 := l.values.getD i 0

def set (l : Latches) (i : Nat) (v : UInt8) : Latches :=
  ⟨l.values.setIfInBounds i v⟩

def increment (l : Latches) (i : Nat) : Latches := l.set i (l.get i + 1)

def grow (l : Latches) : Latches := ⟨l.values.push 0⟩

end Latches

inductive Slot where
  | unmapped
  | byte (block index : Nat)
  | port (index : Nat)
  deriving DecidableEq

structure Block where
  data : Array UInt8
  writable : Bool

def Block.write (b : Block) (index : Nat) (v : UInt8) : Block :=
  if b.writable then { b with data := b.data.setIfInBounds index v } else b

/-- An address space of `size` bytes with one map for each bank. -/
structure Memory where
  size : Nat
  bank : Nat
  maps : Array (Array Slot)
  blocks : Array Block
  /-- The register behind each port. -/
  ports : Array Nat

namespace Memory

/-- An unmapped memory; there is always at least one bank. -/
def empty (size banks : Nat) : Memory where
  size
  bank := 0
  maps := Array.replicate (max banks 1) (Array.replicate size .unmapped)
  blocks := #[]
  ports := #[]

def banks (m : Memory) : Nat := m.maps.size

/-- Selects the bank that later accesses see; a number too large wraps around. -/
def setBank (m : Memory) (n : Nat) : Memory := { m with bank := n % m.maps.size }

/-- Where the selected bank starts in a row of all banks. -/
def offset (m : Memory) : Nat := m.bank * m.size

def remap (m : Memory) (f : Nat → Slot → Slot) : Memory :=
  { m with maps := m.maps.modify m.bank fun map => map.mapIdx f }

/-- Maps the first `length` bytes of a block at `addr` in the selected bank. -/
def mapBlock (m : Memory) (addr block length : Nat) : Memory :=
  m.remap fun a slot => if addr ≤ a ∧ a < addr + length then .byte block (a - addr) else slot

def mapData (m : Memory) (addr : Nat) (data : Array UInt8) (writable : Bool) : Memory :=
  { m with blocks := m.blocks.push ⟨data, writable⟩ }.mapBlock addr m.blocks.size data.size

def mapRam (m : Memory) (addr length : Nat) : Memory :=
  m.mapData addr (Array.replicate length 0) true

def mapRom (m : Memory) (addr : Nat) (bytes : List UInt8) : Memory :=
  m.mapData addr bytes.toArray false

def mapShared (m : Memory) (addr block : Nat) : Memory :=
  m.mapBlock addr block (match m.blocks[block]? with | some b => b.data.size | none => 0)

/-- Adds a port that leads to a register and maps it at `addr`. -/
def mapPort (m : Memory) (addr latch : Nat) : Memory :=
  { m with ports := m.ports.push latch }.remap fun a slot =>
    if a = addr then .port m.ports.size else slot

def unmap (m : Memory) (addr length : Nat) : Memory :=
  m.remap fun a slot => if addr ≤ a ∧ a < addr + length then .unmapped else slot

def ram (size : Nat) : Memory := (empty size 1).mapRam 0 size

def slot (m : Memory) (addr : Nat) : Slot :=
  match m.maps[m.bank]? with
  | some map => map.getD addr .unmapped
  | none => .unmapped

def read (m : Memory) (l : Latches) (addr : Nat) : UInt8 :=
  match m.slot addr with
  | .unmapped => 0
  | .byte block index =>
    match m.blocks[block]? with
    | some b => b.data.getD index 0
    | none => 0
  | .port index =>
    match m.ports[index]? with
    | some latch => l.get latch
    | none => 0

/-- Writes a byte to `addr`, which may change the memory or a register. -/
def write (m : Memory) (l : Latches) (addr : Nat) (v : UInt8) : Memory × Latches :=
  match m.slot addr with
  | .unmapped => (m, l)
  | .byte block index =>
    ({ m with blocks := m.blocks.modify block (·.write index v) }, l)
  | .port index =>
    match m.ports[index]? with
    | some latch => (m, l.set latch v)
    | none => (m, l)

def writeAll (m : Memory) (l : Latches) (addr : Nat) : List UInt8 → Memory × Latches
  | [] => (m, l)
  | v :: vs =>
    let (m, l) := m.write l addr v
    m.writeAll l (addr + 1) vs

def readAll (m : Memory) (l : Latches) (addr count : Nat) : List UInt8 :=
  (List.range' addr count).map (m.read l)

/-- The word whose low byte is at `addr` and whose high byte follows. -/
def readWord (m : Memory) (l : Latches) (addr : Nat) : UInt16 :=
  word (m.read l (addr + 1)) (m.read l addr)

def writeWord (m : Memory) (l : Latches) (addr : Nat) (w : UInt16) : Memory × Latches :=
  m.writeAll l addr [Word.low w, Word.high w]

/-- The fields of a snapshot: the selected bank and the content of every writable block. -/
def fields (m : Memory) : List Field :=
  .u32 (if m.bank < UInt32.size then UInt32.ofNat m.bank else 0) ::
    (m.blocks.toList.filter (·.writable)).map fun b => .bytes b.data.toList

def loadBlocks : List Block → Reader → List Block × Reader
  | [], r => ([], r)
  | b :: bs, r =>
    if b.writable then
      let (data, r) := r.take b.data.size
      let (bs, r) := loadBlocks bs r
      ({ b with data := data.toArray } :: bs, r)
    else
      let (bs, r) := loadBlocks bs r
      (b :: bs, r)

/-- Restores what `fields` lists. What cannot be read any more becomes zero. -/
def load (m : Memory) (r : Reader) : Memory × Reader :=
  let (bank, r) := r.u32
  let m := m.setBank bank.toNat
  let (blocks, r) := loadBlocks m.blocks.toList r
  ({ m with blocks := blocks.toArray }, r)

end Memory

end EightBit
