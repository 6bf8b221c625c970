import EightBit.Proofs.Layout

/-!
What a memory shows, told from what has happened to it.

The past of a memory is a list of changes, the latest first. It says which cell, if any, an address
of a bank leads to: the one that the last mapping operation gave it that covered the address while
the bank was selected. It also says what a cell holds: what was last stored in it, whichever bank
and address led there.
-/

namespace EightBit.Memory

inductive Cell where
  | byte (block index : Nat)
  | register (i : Nat)
  deriving DecidableEq

inductive Change where
  | lay (op : Mapping)
  | store (addr : Nat) (v : UInt8)
  /-- A device sets a register, with no address involved. -/
  | latch (i : Nat) (v : UInt8)

/-- The latest change comes first. -/
abbrev Past := List Change

inductive Storage where
  | ram (length : Nat)
  | rom (bytes : List UInt8)

namespace Storage

def length : Storage → Nat
  | ram length => length
  | rom bytes => bytes.length

def writable : Storage → Bool
  | ram _ => true
  | rom _ => false

def initial : Storage → Nat → UInt8
  | ram _, _ => 0
  | rom bytes, i => bytes.getD i 0

end Storage

def Mapping.storage? : Mapping → Option Storage
  | .ram _ length => some (.ram length)
  | .rom _ bytes => some (.rom bytes)
  | _ => none

namespace Past

def storages : Past → List Storage
  | [] => []
  | .lay op :: past => storages past ++ op.storage?.toList
  | _ :: past => storages past

def selected (banks : Nat) : Past → Nat
  | [] => 0
  | .lay (.bank n) :: _ => n % max banks 1
  | _ :: past => selected banks past

/-- `length` addresses from `start` on are covered, the first with the first of some targets. -/
def cover (start length : Nat) (target : Nat → Option Cell) (addr : Nat) : Option (Option Cell) :=
  if start ≤ addr ∧ addr < start + length then some (target (addr - start)) else none

/-- What a mapping operation makes an address lead to, if it covers the address. -/
def target? (past : Past) : Mapping → Nat → Option (Option Cell)
  | .ram start length => cover start length fun i => some (.byte (storages past).length i)
  | .rom start bytes => cover start bytes.length fun i => some (.byte (storages past).length i)
  | .shared start block =>
    cover start (((storages past)[block]?.map (·.length)).getD 0) fun i => some (.byte block i)
  | .port start i => cover start 1 fun _ => some (.register i)
  | .unmap start length => cover start length fun _ => none
  | .bank _ => fun _ => none

section Reference

variable (size banks : Nat)

/-- The cell that an address of a bank leads to. -/
def cell? : Past → Nat → Nat → Option Cell
  | [], _, _ => none
  | .lay op :: past, bank, addr =>
    if addr < size ∧ bank = selected banks past then
      (target? past op addr).getD (cell? past bank addr)
    else cell? past bank addr
  | _ :: past, bank, addr => cell? past bank addr

/-- The byte that was stored last through an address that led to the cell, or by a device. -/
def lastStored (c : Cell) : Past → Option UInt8
  | [] => none
  | .store addr v :: past =>
    if cell? size banks past (selected banks past) addr = some c then some v
    else lastStored c past
  | .latch i v :: past => if c = .register i then some v else lastStored c past
  | .lay _ :: past => lastStored c past

def writable (past : Past) : Cell → Bool
  | .byte block _ => (storages past)[block]?.any (·.writable)
  | .register _ => true

/-- What a cell holds, given what the registers held at the beginning: the byte that was stored
last, if stores change the cell and there was one, or else what it held when it was new. -/
def content (l : Latches) (past : Past) : Cell → UInt8
  | .byte block index =>
    match (storages past)[block]? with
    | some s =>
      if s.writable then
        (lastStored size banks (.byte block index) past).getD (s.initial index)
      else s.initial index
    | none => 0
  | .register i => (lastStored size banks (.register i) past).getD (l.get i)

def visible (l : Latches) (past : Past) (addr : Nat) : UInt8 :=
  ((cell? size banks past (selected banks past) addr).map (content size banks l past)).getD 0

end Reference

end Past

/-- What a memory can be told, beside what devices do to the registers behind its ports. -/
inductive Operation where
  | lay (op : Mapping)
  | write (addr : Nat) (v : UInt8)
  | writeAll (addr : Nat) (vs : List UInt8)
  | writeWord (addr : Nat) (w : UInt16)
  | latch (i : Nat) (v : UInt8)

def Operation.changes : Operation → List Change
  | lay op => [.lay op]
  | write addr v => [.store addr v]
  | writeAll addr vs => vs.mapIdx fun i v => .store (addr + i) v
  | writeWord addr w => [.store addr (Word.low w), .store (addr + 1) (Word.high w)]
  | latch i v => [.latch i v]

def operate (s : Memory × Latches) : Operation → Memory × Latches
  | .lay op => (s.1.lay op, s.2)
  | .write addr v => s.1.write s.2 addr v
  | .writeAll addr vs => s.1.writeAll s.2 addr vs
  | .writeWord addr w => s.1.writeWord s.2 addr w
  | .latch i v => (s.1, s.2.set i v)

/-- The past of a memory that carried out operations from the beginning. -/
def Past.ofOperations (ops : List Operation) : Past := (ops.flatMap Operation.changes).reverse

end EightBit.Memory
