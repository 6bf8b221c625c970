import EightBit.Listing
import EightBit.Z80.Instruction

/-!
Disassembly of Z80 instructions.
-/

namespace EightBit.Z80

/-- The text of an instruction and how many bytes it takes. -/
structure Reading where
  mnemonic : String
  operands : String
  length : Nat
  deriving DecidableEq

namespace Lister

def name (table : List String) (n : Nat) : String := table.getD n ""

def bytes : List String := ["b", "c", "d", "e", "h", "l", "(hl)", "a"]

def pairs : List String := ["bc", "de", "hl", "sp"]

def stackPairs : List String := ["bc", "de", "hl", "af"]

def conditions : List String := ["nz", "z", "nc", "c", "po", "pe", "p", "m"]

def operations : List String := ["add", "adc", "sub", "sbc", "and", "xor", "or", "cp"]

def rotations : List String := ["rlc", "rrc", "rl", "rr", "sla", "sra", "sll", "srl"]

def accumulatorOperations : List String :=
  ["rlca", "rrca", "rla", "rra", "daa", "cpl", "scf", "ccf"]

def modes : List String := ["0", "0", "1", "2", "0", "0", "1", "2"]

/-- The block operations, four for each direction and repetition. -/
def blocks : List String := [
  "ldi", "cpi", "ini", "outi", "ldd", "cpd", "ind", "outd",
  "ldir", "cpir", "inir", "otir", "lddr", "cpdr", "indr", "otdr"]

def specials : List (String × String) :=
  [("ld", "i,a"), ("ld", "r,a"), ("ld", "a,i"), ("ld", "a,r"), ("rrd", ""), ("rld", "")]

def indexName : Index → String
  | .hl => "hl"
  | .ix => "ix"
  | .iy => "iy"

/-- The byte operand in memory, with its displacement under an index prefix. -/
def pointer (i : Index) (displacement : UInt8) : String :=
  match i with
  | .hl => "(hl)"
  | _ =>
    let distance :=
      if displacement < 0x80 then "+" ++ Numeral.hexByte displacement
      else "-" ++ Numeral.hexByte (0 - displacement)
    "(" ++ indexName i ++ distance ++ ")"

/-- An eight-bit register; under an index prefix H and L are the halves of the index register. -/
def byteName (n : Nat) (half : Index) : String :=
  match half, n with
  | .hl, _ => name bytes n
  | _, 4 => indexName half ++ "h"
  | _, 5 => indexName half ++ "l"
  | _, _ => name bytes n

def pairName (table : List String) (p : Nat) (i : Index) : String :=
  if p = 2 then indexName i else name table p

/-- An accumulator operation; only some are written with the accumulator. -/
def arithmetic (y : Nat) (operand : String) (length : Nat) : Reading :=
  ⟨name operations y, if y = 0 ∨ y = 1 ∨ y = 3 then "a," ++ operand else operand, length⟩

def wordAt (code : Code) (addr : Nat) : String :=
  Numeral.hexWord (word (code (addr + 1)) (code addr))

def byteAt (code : Code) (addr : Nat) : String := Numeral.hexByte (code addr)

def targetAt (code : Code) (addr : Nat) : String :=
  Numeral.hexWord (UInt16.ofNat (addr + 1) + Word.distance (code addr))

def usesIndex (op : UInt8) : Bool :=
  let y := Opcode.y op
  let z := Opcode.z op
  let p := Opcode.p op
  match Opcode.x op with
  | 0 =>
    match z with
    | 1 => p == 2 || Opcode.q op == 1
    | 2 | 3 => p == 2
    | 4 | 5 | 6 => 4 ≤ y && y ≤ 6
    | _ => false
  | 1 => op != 0x76 && ((4 ≤ y && y ≤ 6) || (4 ≤ z && z ≤ 6))
  | 2 => 4 ≤ z && z ≤ 6
  | _ => op == 0xe1 || op == 0xe3 || op == 0xe5 || op == 0xe9 || op == 0xf9

/-- A three-bit register operand of the opcode at `addr`, and the address behind the opcode and,
where the operand has one, its displacement. -/
def operandAt (code : Code) (addr : Nat) (n : Nat) (half i : Index) : String × Nat :=
  if n = 6 then
    match i with
    | .hl => (pointer .hl 0, addr + 1)
    | _ => (pointer i (code (addr + 1)), addr + 2)
  else (byteName n half, addr + 1)

/-- The base instruction of the first quarter whose opcode is at `addr`, behind `skipped` bytes. -/
def readMixed (code : Code) (addr skipped : Nat) (i : Index) : Reading :=
  let op := code addr
  let y := Opcode.y op
  let p := Opcode.p op
  let q := Opcode.q op
  let hl := indexName i
  match Opcode.z op with
  | 0 =>
    match y with
    | 0 => ⟨"nop", "", skipped + 1⟩
    | 1 => ⟨"ex", "af,af'", skipped + 1⟩
    | 2 => ⟨"djnz", targetAt code (addr + 1), skipped + 2⟩
    | 3 => ⟨"jr", targetAt code (addr + 1), skipped + 2⟩
    | _ => ⟨"jr", name conditions (y - 4) ++ "," ++ targetAt code (addr + 1), skipped + 2⟩
  | 1 =>
    if q = 0 then ⟨"ld", pairName pairs p i ++ "," ++ wordAt code (addr + 1), skipped + 3⟩
    else ⟨"add", hl ++ "," ++ pairName pairs p i, skipped + 1⟩
  | 2 =>
    match q, p with
    | 0, 0 => ⟨"ld", "(bc),a", skipped + 1⟩
    | 0, 1 => ⟨"ld", "(de),a", skipped + 1⟩
    | 0, 2 => ⟨"ld", "(" ++ wordAt code (addr + 1) ++ ")," ++ hl, skipped + 3⟩
    | 0, _ => ⟨"ld", "(" ++ wordAt code (addr + 1) ++ "),a", skipped + 3⟩
    | _, 0 => ⟨"ld", "a,(bc)", skipped + 1⟩
    | _, 1 => ⟨"ld", "a,(de)", skipped + 1⟩
    | _, 2 => ⟨"ld", hl ++ ",(" ++ wordAt code (addr + 1) ++ ")", skipped + 3⟩
    | _, _ => ⟨"ld", "a,(" ++ wordAt code (addr + 1) ++ ")", skipped + 3⟩
  | 3 => ⟨if q = 0 then "inc" else "dec", pairName pairs p i, skipped + 1⟩
  | 4 =>
    let (target, behind) := operandAt code addr y i i
    ⟨"inc", target, skipped + (behind - addr)⟩
  | 5 =>
    let (target, behind) := operandAt code addr y i i
    ⟨"dec", target, skipped + (behind - addr)⟩
  | 6 =>
    let (target, behind) := operandAt code addr y i i
    ⟨"ld", target ++ "," ++ byteAt code behind, skipped + (behind + 1 - addr)⟩
  | _ => ⟨name accumulatorOperations y, "", skipped + 1⟩

def readLoad (code : Code) (addr skipped : Nat) (i : Index) : Reading :=
  let y := Opcode.y (code addr)
  let z := Opcode.z (code addr)
  if y = 6 ∧ z = 6 then ⟨"halt", "", skipped + 1⟩
  else
    let half := if y = 6 ∨ z = 6 then .hl else i
    let (target, behind) := operandAt code addr y half i
    let (source, behind') := operandAt code addr z half i
    ⟨"ld", target ++ "," ++ source, skipped + (max behind behind' - addr)⟩

def readBranch (code : Code) (addr skipped : Nat) (i : Index) : Reading :=
  let op := code addr
  let y := Opcode.y op
  let p := Opcode.p op
  let q := Opcode.q op
  let hl := indexName i
  let undefined : Reading := ⟨"?" ++ Numeral.hexPair op, "", skipped + 1⟩
  match Opcode.z op with
  | 0 => ⟨"ret", name conditions y, skipped + 1⟩
  | 1 =>
    match q, p with
    | 0, _ => ⟨"pop", pairName stackPairs p i, skipped + 1⟩
    | _, 0 => ⟨"ret", "", skipped + 1⟩
    | _, 1 => ⟨"exx", "", skipped + 1⟩
    | _, 2 => ⟨"jp", "(" ++ hl ++ ")", skipped + 1⟩
    | _, _ => ⟨"ld", "sp," ++ hl, skipped + 1⟩
  | 2 => ⟨"jp", name conditions y ++ "," ++ wordAt code (addr + 1), skipped + 3⟩
  | 3 =>
    match y with
    | 0 => ⟨"jp", wordAt code (addr + 1), skipped + 3⟩
    | 2 => ⟨"out", "(" ++ byteAt code (addr + 1) ++ "),a", skipped + 2⟩
    | 3 => ⟨"in", "a,(" ++ byteAt code (addr + 1) ++ ")", skipped + 2⟩
    | 4 => ⟨"ex", "(sp)," ++ hl, skipped + 1⟩
    | 5 => ⟨"ex", "de,hl", skipped + 1⟩
    | 6 => ⟨"di", "", skipped + 1⟩
    | 7 => ⟨"ei", "", skipped + 1⟩
    | _ => undefined
  | 4 => ⟨"call", name conditions y ++ "," ++ wordAt code (addr + 1), skipped + 3⟩
  | 5 =>
    match q, p with
    | 0, _ => ⟨"push", pairName stackPairs p i, skipped + 1⟩
    | _, 0 => ⟨"call", wordAt code (addr + 1), skipped + 3⟩
    | _, _ => undefined
  | 6 => arithmetic y (byteAt code (addr + 1)) (skipped + 2)
  | _ => ⟨"rst", Numeral.hexByte (UInt8.ofNat (y * 8)), skipped + 1⟩

def readBase (code : Code) (addr skipped : Nat) (i : Index) : Reading :=
  match Opcode.x (code addr) with
  | 0 => readMixed code addr skipped i
  | 1 => readLoad code addr skipped i
  | 2 =>
    let (source, behind) := operandAt code addr (Opcode.z (code addr)) i i
    arithmetic (Opcode.y (code addr)) source (skipped + (behind - addr))
  | _ => readBranch code addr skipped i

/-- The bit instruction with this opcode and operand. Indexed forms other than a bit test name
the register that the result goes to as well. -/
def readBits (op : UInt8) (target : String) (indexed : Bool) (length : Nat) : Reading :=
  let y := Opcode.y op
  let z := Opcode.z op
  let copy := if indexed && z != 6 then "," ++ name bytes z else ""
  let digit := toString y
  match Opcode.x op with
  | 0 => ⟨name rotations y, target ++ copy, length⟩
  | 1 => ⟨"bit", digit ++ "," ++ target, length⟩
  | 2 => ⟨"res", digit ++ "," ++ target ++ copy, length⟩
  | _ => ⟨"set", digit ++ "," ++ target ++ copy, length⟩

def readExtended (code : Code) (addr : Nat) : Reading :=
  let op := code (addr + 1)
  let y := Opcode.y op
  let z := Opcode.z op
  let r := name bytes y
  let rp := name pairs (Opcode.p op)
  let q := Opcode.q op
  let undefined : Reading := ⟨"?ed" ++ Numeral.hexPair op, "", 2⟩
  match Opcode.x op, z with
  | 1, 0 => ⟨"in", if y = 6 then "(c)" else r ++ ",(c)", 2⟩
  | 1, 1 => ⟨"out", if y = 6 then "(c),0" else "(c)," ++ r, 2⟩
  | 1, 2 => ⟨if q = 0 then "sbc" else "adc", "hl," ++ rp, 2⟩
  | 1, 3 =>
    let nn := wordAt code (addr + 2)
    ⟨"ld", if q = 0 then "(" ++ nn ++ ")," ++ rp else rp ++ ",(" ++ nn ++ ")", 4⟩
  | 1, 4 => ⟨"neg", "", 2⟩
  | 1, 5 => ⟨if y = 1 then "reti" else "retn", "", 2⟩
  | 1, 6 => ⟨"im", name modes y, 2⟩
  | 1, _ =>
    match specials[y]? with
    | some (mnemonic, operands) => ⟨mnemonic, operands, 2⟩
    | none => undefined
  | 2, _ => if 4 ≤ y ∧ z ≤ 3 then ⟨name blocks ((y - 4) * 4 + z), "", 2⟩ else undefined
  | _, _ => undefined

def readIndexed (code : Code) (addr : Nat) (i : Index) : Reading :=
  let op := code addr
  let next := code (addr + 1)
  if next == 0xdd || next == 0xed || next == 0xfd then ⟨"?" ++ Numeral.hexPair op, "", 1⟩
  else if next == 0xcb then
    readBits (code (addr + 3)) (pointer i (code (addr + 2))) true 4
  else if usesIndex next then readBase code (addr + 1) 1 i
  else ⟨"?" ++ Numeral.hexPair op ++ Numeral.hexPair next, "", 2⟩

def read (code : Code) (addr : Nat) : Reading :=
  let op := code addr
  if op == 0xcb then
    let next := code (addr + 1)
    readBits next (name bytes (Opcode.z next)) false 2
  else if op == 0xed then readExtended code addr
  else if op == 0xdd then readIndexed code addr .ix
  else if op == 0xfd then readIndexed code addr .iy
  else readBase code addr 0 .hl

end Lister

def lister : EightBit.Lister := fun code addr =>
  let r := Lister.read code addr
  ⟨addr, (List.range' addr r.length).map code, r.mnemonic, r.operands⟩

end EightBit.Z80
