import EightBit.Word

/-!
Z80 instructions as they stand in memory: prefixes, opcode, displacement and immediate operand.

An opcode byte has the fields `x` (bits 6 and 7), `y` (bits 3 to 5) and `z` (bits 0 to 2); `y` in
turn is `p` (its two upper bits) and `q` (its lowest).
-/

namespace EightBit.Z80

/-- The register that an index prefix puts in the place of HL. -/
inductive Index where
  | hl
  | ix
  | iy
  deriving DecidableEq

inductive Page where
  /-- Opcodes without a table prefix. -/
  | base
  /-- Rotations and single bits, behind `$cb`. -/
  | bits
  /-- Block operations, port access and the rest, behind `$ed`. -/
  | extended
  /-- An index prefix that another prefix follows, which does nothing. -/
  | lone
  deriving DecidableEq

namespace Opcode

def x (op : UInt8) : Nat := op.toNat / 64

def y (op : UInt8) : Nat := op.toNat / 8 % 8

def z (op : UInt8) : Nat := op.toNat % 8

def p (op : UInt8) : Nat := op.toNat / 16 % 4

def q (op : UInt8) : Nat := op.toNat / 8 % 2

/-- Whether a base opcode works on the byte that HL points to. -/
def pointsToByte (op : UInt8) : Bool :=
  match x op with
  | 0 => y op == 6 && 4 ≤ z op && z op ≤ 6
  | 1 => (y op == 6) != (z op == 6)
  | 2 => z op == 6
  | _ => false

def immediateBytes (op : UInt8) : Nat :=
  match x op, z op with
  | 0, 0 => if 2 ≤ y op then 1 else 0
  | 0, 1 => if q op == 0 then 2 else 0
  | 0, 2 => if 2 ≤ p op then 2 else 0
  | 0, 6 => 1
  | 3, 2 => 2
  | 3, 3 => if y op == 0 then 2 else if y op == 2 || y op == 3 then 1 else 0
  | 3, 4 => 2
  | 3, 5 => if q op == 1 then 2 else 0
  | 3, 6 => 1
  | _, _ => 0

def extendedBytes (op : UInt8) : Nat :=
  if x op == 1 && z op == 3 then 2 else 0

end Opcode

/-- An instruction with everything that belongs to it in memory. -/
structure Instruction where
  page : Page
  index : Index
  opcode : UInt8
  /-- The distance of the operand from an index register, in two's complement. -/
  displacement : UInt8
  /-- The immediate byte or word, zero when there is none. -/
  operand : UInt16
  /-- How many bytes were fetched. -/
  length : Nat
  /-- How many of them were fetched as opcodes, each of which refreshes memory once. -/
  refreshes : Nat
  deriving DecidableEq

/-- Bytes that are fetched one behind the other. -/
structure Fetch where
  /-- Where the next byte is. -/
  next : UInt16
  /-- How many bytes were fetched. -/
  length : Nat := 0
  /-- How many of them were fetched as opcodes. -/
  refreshes : Nat := 0

namespace Fetch

variable (code : UInt16 → UInt8) (t : Fetch)

def byte : UInt8 × Fetch := (code t.next, { t with next := t.next + 1, length := t.length + 1 })

def opcode : UInt8 × Fetch := { t with refreshes := t.refreshes + 1 }.byte code

def word : UInt16 × Fetch :=
  let (low, t) := t.byte code
  let (high, t) := t.byte code
  (EightBit.word high low, t)

def immediate : Nat → UInt16 × Fetch
  | 0 => (0, t)
  | 1 =>
    let (b, t) := t.byte code
    (b.toUInt16, t)
  | _ => t.word code

/-- The displacement, which only an operand at an index register has. -/
def displacement (present : Bool) : UInt8 × Fetch := if present then t.byte code else (0, t)

def instruction (page : Page) (index : Index) (opcode displacement : UInt8) (operand : UInt16) :
    Instruction :=
  { page, index, opcode, displacement, operand, length := t.length, refreshes := t.refreshes }

end Fetch

namespace Instruction

def byte (i : Instruction) : UInt8 := Word.low i.operand

def fetchBase (code : UInt16 → UInt8) (t : Fetch) (index : Index) : Instruction :=
  let (opcode, t) := t.opcode code
  let (displacement, t) := t.displacement code (index != .hl && Opcode.pointsToByte opcode)
  let (operand, t) := t.immediate code (Opcode.immediateBytes opcode)
  t.instruction .base index opcode displacement operand

/-- Fetches an instruction of the bit table, from its `$cb` on. Behind an index prefix the
displacement comes before the opcode, which is then fetched like an operand. -/
def fetchBits (code : UInt16 → UInt8) (t : Fetch) (index : Index) : Instruction :=
  let (_, t) := t.opcode code
  match index with
  | .hl =>
    let (opcode, t) := t.opcode code
    t.instruction .bits index opcode 0 0
  | _ =>
    let (displacement, t) := t.displacement code true
    let (opcode, t) := t.byte code
    t.instruction .bits index opcode displacement 0

def fetchExtended (code : UInt16 → UInt8) (t : Fetch) : Instruction :=
  let (_, t) := t.opcode code
  let (opcode, t) := t.opcode code
  let (operand, t) := t.immediate code (Opcode.extendedBytes opcode)
  t.instruction .extended .hl opcode 0 operand

/-- Whether a byte is a prefix that makes an index prefix before it void. -/
def voids (b : UInt8) : Bool := b == 0xdd || b == 0xed || b == 0xfd

/-- Fetches an index prefix and what follows it. A prefix that voids it is not fetched yet. -/
def fetchIndexed (code : UInt16 → UInt8) (t : Fetch) (index : Index) : Instruction :=
  let (lead, t) := t.opcode code
  if voids (code t.next) then t.instruction .lone index lead 0 0
  else if code t.next == 0xcb then fetchBits code t index
  else fetchBase code t index

def fetch (code : UInt16 → UInt8) (pc : UInt16) : Instruction :=
  let t : Fetch := { next := pc }
  let first := code pc
  if first == 0xcb then fetchBits code t .hl
  else if first == 0xed then fetchExtended code t
  else if first == 0xdd then fetchIndexed code t .ix
  else if first == 0xfd then fetchIndexed code t .iy
  else fetchBase code t .hl

end Instruction

end EightBit.Z80
