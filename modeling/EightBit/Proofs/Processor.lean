import EightBit.Processor
import EightBit.Proofs.Mos6502.Control
import EightBit.Proofs.Z80.Control

/-!
The processors that there are, as a machine deals with them.
-/

namespace EightBit

namespace Core

section Cpu

variable (c : Core)

@[simp] theorem cpu_step : Cpu.step c = c.step := rfl

@[simp] theorem cpu_latches : Cpu.latches c = c.latches := rfl

@[simp] theorem cpu_connect (l : Latches) : Cpu.connect l c = c.connect l := rfl

@[simp] theorem cpu_fields : Cpu.fields c = c.fields := rfl

@[simp] theorem cpu_load (r : Reader) : Cpu.load r c = c.load r := rfl

end Cpu

def memories : Core → List Memory
  | mos6502 s => [s.mem]
  | z80 s => [s.mem, s.ports]
  | counter s => [s.mem]

@[simp] theorem latches_connect (c : Core) (l : Latches) : (c.connect l).latches = l :=
  Cpu.latches_connect c l

theorem connect_of_latches {c : Core} {l : Latches} (h : c.latches = l) : c.connect l = c :=
  h ▸ Cpu.connect_latches c

/-- A step neither adds nor removes registers behind the ports. -/
@[simp] theorem size_latches_step (c : Core) :
    c.step.latches.values.size = c.latches.values.size := by
  cases c with
  | mos6502 s => simpa only [step, latches] using Mos6502.size_latches_step s
  | z80 s => simpa only [step, latches] using Z80.size_latches_step s
  | counter s => rfl

end Core

end EightBit
