import EightBit.Numeral
import EightBit.Word

/-!
Disassembly of a stretch of code into statements.

A `Lister` reads one instruction at an address. Listings start anywhere and go on from the end of
each statement to the next.
-/

namespace EightBit

structure Statement where
  addr : Nat
  bytes : List UInt8
  /-- The mnemonic, or `?` and the opcode where it is undefined. -/
  mnemonic : String
  /-- The operands, empty when there are none. -/
  operands : String
  deriving DecidableEq

abbrev Lister := Code → Nat → Statement

namespace Statement

def next (s : Statement) : Nat := s.addr + s.bytes.length

def instruction (s : Statement) : String :=
  if s.operands.isEmpty then s.mnemonic else s.mnemonic ++ " " ++ s.operands

def byteColumn (bytes : List UInt8) : String :=
  let text := " ".intercalate (bytes.map Numeral.hexPair)
  text ++ String.ofList (List.replicate (11 - text.length) ' ')

/-- A line of a listing, which shows the low sixteen bits of the address. -/
def line (s : Statement) : String :=
  Numeral.hexWord (UInt16.ofNat s.addr) ++ ":  " ++ byteColumn s.bytes ++ "  " ++ s.instruction

end Statement

namespace Listing

/-- The statement at `pc` and the address where the next one starts, which is never `pc` itself. -/
def step (lister : Lister) (code : Code) (pc : Nat) : Statement × Nat :=
  let s := lister code pc
  (s, max s.next (pc + 1))

theorem lt_step (lister : Lister) (code : Code) (pc : Nat) :
    pc < (step lister code pc).2 := by
  simp only [step]
  omega

/-- So many statements from `pc` on, and the address behind them. -/
def lines (lister : Lister) (code : Code) : Nat → Nat → List Statement × Nat
  | 0, pc => ([], pc)
  | n + 1, pc =>
    let (s, pc) := step lister code pc
    let (rest, pc) := lines lister code n pc
    (s :: rest, pc)

def range (lister : Lister) (code : Code) (last pc : Nat) : List Statement × Nat :=
  if pc ≤ last then
    let first := step lister code pc
    let (rest, pc') := range lister code last first.2
    (first.1 :: rest, pc')
  else ([], pc)
termination_by last + 1 - pc
decreasing_by
  have := lt_step lister code pc
  omega

end Listing

end EightBit
