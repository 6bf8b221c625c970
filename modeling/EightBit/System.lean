import EightBit.Glyph.Catalog
import EightBit.Processor
import EightBit.Screen

/-!
A system: processors that step in turn, tickers that step after them, and the single-byte
registers that processors, ports and tickers share.

The registers belong to the system. A processor has them only while it runs or is looked at, and
is kept without them.
-/

namespace EightBit

structure Ticker where
  name : String
  latch : Nat
  deriving DecidableEq

/-- What there is of a computer beside the outside world. -/
structure System (C : Type := Core) where
  name : String
  /-- In stepping order. -/
  processors : Array (Processor C)
  latches : Latches
  tickers : List Ticker
  /-- The character sets for memory dumps. -/
  catalog : Catalog
  /-- The registers that a snapshot holds behind the processors; none if the system cannot be
  saved. -/
  saved : Option (List Nat)
  /-- The character set of the text screen, if there is a screen. -/
  screen : Option CharacterSet

namespace System

variable {C : Type}

def names (sys : System C) : List String := sys.processors.toList.map (·.name)

def tick (sys : System C) : System C :=
  { sys with latches := sys.tickers.foldl (fun l t => l.increment t.latch) sys.latches }

variable [Cpu C]

/-- A processor connected to the registers. -/
def core? (sys : System C) (i : Nat) : Option C :=
  sys.processors[i]?.map fun p => Cpu.connect sys.latches p.core

/-- Changes a processor while it is connected to the registers. -/
def update (sys : System C) (i : Nat) (f : C → C) : System C :=
  let { name, processors, latches, tickers, catalog, saved, screen } := sys
  let processors := processors.modify i fun p => { p with core := f (Cpu.connect latches p.core) }
  let latches := match processors[i]? with
    | some p => Cpu.latches p.core
    | none => latches
  let processors := processors.modify i fun p => { p with core := Cpu.connect {} p.core }
  { name, processors, latches, tickers, catalog, saved, screen }

/-- The fields of a snapshot, if the system can be saved. -/
def fields? (sys : System C) : Option (List Field) :=
  sys.saved.map fun latches =>
    sys.processors.toList.flatMap (fun p => Cpu.fields p.core) ++
      latches.map fun i => .u8 (sys.latches.get i)

def loadProcessors : List (Processor C) → Reader → List (Processor C) × Reader
  | [], r => ([], r)
  | p :: ps, r =>
    let (core, r) := Cpu.load r p.core
    let (ps, r) := loadProcessors ps r
    ({ p with core } :: ps, r)

def loadLatches (l : Latches) : List Nat → Reader → Latches × Reader
  | [], r => (l, r)
  | i :: is, r =>
    let (v, r) := r.u8
    loadLatches (l.set i v) is r

def load? (sys : System C) (r : Reader) : Option (System C × Reader) :=
  sys.saved.map fun saved =>
    let (processors, r) := loadProcessors sys.processors.toList r
    let (latches, r) := loadLatches sys.latches saved r
    ({ sys with processors := processors.toArray, latches }, r)

def picture? (sys : System C) : Option Picture :=
  sys.screen.bind fun set => (sys.core? 0).map fun c => Screen.render (Cpu.code c) set

end System

end EightBit
