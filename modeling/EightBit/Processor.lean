import EightBit.Cpu
import EightBit.Mos6502.Lister
import EightBit.Mos6502.Step
import EightBit.Z80.Lister
import EightBit.Z80.Step

/-!
Processors of any kind, as the machine and the operator deal with them.
-/

namespace EightBit

/-- A processor that only counts through its addresses. Its registers cannot be edited, its code
cannot be listed, and it breaks down at the address `fault`. -/
structure Counter where
  pc : UInt16
  fault : Option Nat
  mem : Memory
  latches : Latches

inductive Core where
  | mos6502 (s : Mos6502)
  | z80 (s : Z80)
  | counter (s : Counter)

/-- Registers proper and flags, which have names of their own. -/
inductive RegisterClass where
  | register
  | flag
  deriving DecidableEq

def RegisterClass.missing : RegisterClass → String → EditError
  | .register => .noSuchRegister
  | .flag => .noSuchFlag

def Mos6502.table : RegisterClass → RegisterTable Mos6502
  | .register => registers
  | .flag => flags

def Z80.table : RegisterClass → RegisterTable Z80
  | .register => registers
  | .flag => flags

namespace Core

def pc : Core → Nat
  | mos6502 s => s.pc.toNat
  | z80 s => s.pc.toNat
  | counter s => s.pc.toNat

/-- Moves execution to the low sixteen bits of an address. -/
def setPc (addr : Nat) : Core → Core
  | mos6502 s => mos6502 { s with pc := UInt16.ofNat addr }
  | z80 s => z80 (s.jumpTo (UInt16.ofNat addr))
  | counter s => counter { s with pc := UInt16.ofNat addr }

def mem : Core → Memory
  | mos6502 s => s.mem
  | z80 s => s.mem
  | counter s => s.mem

def latches : Core → Latches
  | mos6502 s => s.latches
  | z80 s => s.latches
  | counter s => s.latches

def connect (l : Latches) : Core → Core
  | mos6502 s => mos6502 { s with latches := l }
  | z80 s => z80 { s with latches := l }
  | counter s => counter { s with latches := l }

def mapMemory (f : Memory → Latches → Memory × Latches) : Core → Core
  | mos6502 s =>
    let (mem, latches) := f s.mem s.latches
    mos6502 { s with mem, latches }
  | z80 s =>
    let (mem, latches) := f s.mem s.latches
    z80 { s with mem, latches }
  | counter s =>
    let (mem, latches) := f s.mem s.latches
    counter { s with mem, latches }

def offset : Core → Nat
  | mos6502 s => s.mem.offset
  | z80 s => s.mem.offset
  | counter _ => 0

def location (c : Core) : Nat := c.pc + c.offset

def breaksDown : Core → Bool
  | counter s => s.fault == some s.pc.toNat
  | _ => false

def step : Core → Core
  | mos6502 s => mos6502 s.step
  | z80 s => z80 s.step
  | counter s => counter { s with pc := s.pc + 1 }

def display : Core → String
  | mos6502 s => s.display
  | z80 s => s.display
  | counter s => "blind pc=" ++ Numeral.hexQuad s.pc

def code (c : Core) : Code := c.mem.read c.latches

/-- How code is listed, where that is known. -/
def lister? : Core → Option Lister
  | mos6502 _ => some Mos6502.lister
  | z80 _ => some Z80.lister
  | counter _ => none

def values (k : RegisterClass) : Core → Except EditError (List (String × Value))
  | mos6502 s => .ok ((Mos6502.table k).values s)
  | z80 s => .ok ((Z80.table k).values s)
  | counter _ => .error .noRegisters

def value (k : RegisterClass) (name : String) (c : Core) : Except EditError Value :=
  let found (v : Option Value) : Except EditError Value :=
    match v with
    | some v => .ok v
    | none => .error (k.missing name)
  match c with
  | mos6502 s => found ((Mos6502.table k).value? s name)
  | z80 s => found ((Z80.table k).value? s name)
  | counter _ => .error .noRegisters

def put (k : RegisterClass) (name : String) (v : Value) : Core → Except EditError Core
  | mos6502 s => ((Mos6502.table k).put k.missing s name v).map mos6502
  | z80 s => ((Z80.table k).put k.missing s name v).map z80
  | counter _ => .error .noRegisters

def fields : Core → List Field
  | mos6502 s => s.fields
  | z80 s => s.fields
  | counter s => .u16 s.pc :: s.mem.fields

def load (r : Reader) : Core → Core × Reader
  | mos6502 s => let (s, r) := s.load r; (mos6502 s, r)
  | z80 s => let (s, r) := s.load r; (z80 s, r)
  | counter s =>
    let (pc, r) := r.u16
    let (mem, r) := s.mem.load r
    (counter { s with pc, mem }, r)

end Core

instance : Cpu Core where
  pc := Core.pc
  offset := Core.offset
  step := Core.step
  breaksDown := Core.breaksDown
  mem := Core.mem
  latches := Core.latches
  connect := Core.connect
  display := Core.display
  fields := Core.fields
  load := Core.load
  latches_connect c _ := by cases c <;> rfl
  connect_latches c := by cases c <;> rfl
  connect_connect c _ _ := by cases c <;> rfl

/-- A processor under the name that commands use. -/
structure Processor (C : Type := Core) where
  name : String
  core : C

end EightBit
