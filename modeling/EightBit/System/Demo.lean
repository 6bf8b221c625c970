import EightBit.System

/-!
The systems that can be built by name.
-/

namespace EightBit.System

abbrev addressSpace : Nat := 0x10000

/-- Where the timer register of the single 6502 appears. -/
abbrev timerAddress : Nat := 0xdc04

abbrev mailboxAddress : Nat := 0xc000

/-- The port at which the mailbox appears to the Z80. -/
abbrev mailboxPort : Nat := 0x01

def oneLatch : Latches := Latches.grow {}

/-- A 6502 with a timer register that counts rounds and a text screen. -/
def mos6502 : System where
  name := "mos6502"
  processors :=
    #[⟨"cpu", .mos6502 (Mos6502.powerOn ((Memory.ram addressSpace).mapPort timerAddress 0) {})⟩]
  latches := oneLatch
  tickers := [⟨"timer", 0⟩]
  catalog := Catalog.commodore
  saved := some [0]
  screen := some CharacterSet.screen

def z80 : System where
  name := "z80"
  processors :=
    #[⟨"cpu", .z80 (Z80.powerOn (Memory.ram addressSpace) (Memory.ram Z80.portSpace) {})⟩]
  latches := {}
  tickers := []
  catalog := Catalog.basic
  saved := some []
  screen := none

/-- A 6502 and a Z80 that share a mailbox register, and the screen of the 6502. -/
def dual : System where
  name := "dual"
  processors := #[
    ⟨"cpu", .mos6502
      (Mos6502.powerOn ((Memory.ram addressSpace).mapPort mailboxAddress 0) {})⟩,
    ⟨"z80", .z80 (Z80.powerOn (Memory.ram addressSpace)
      ((Memory.ram Z80.portSpace).mapPort mailboxPort 0) {})⟩]
  latches := oneLatch
  tickers := []
  catalog := Catalog.commodore
  saved := some [0]
  screen := some CharacterSet.screen

def named? (name : String) : Option System :=
  match name with
  | "dual" => some dual
  | "mos6502" => some mos6502
  | "z80" => some z80
  | _ => none

end EightBit.System
