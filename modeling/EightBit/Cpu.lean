import EightBit.Memory

/-!
What a machine asks of a processor, whatever its instruction set.

The single-byte registers behind a processor's ports belong to the system that it is part of. They
are connected while the processor runs or is looked at.
-/

namespace EightBit

class Cpu (C : Type) where
  /-- The address of the next instruction. -/
  pc : C → Nat
  /-- What the selected bank adds to the program counter. -/
  offset : C → Nat
  step : C → C
  /-- Whether the next step would break down instead of ending. -/
  breaksDown : C → Bool
  /-- The memory that instructions come from. -/
  mem : C → Memory
  latches : C → Latches
  connect : Latches → C → C
  display : C → String
  fields : C → List Field
  load : Reader → C → C × Reader
  latches_connect (c : C) (l : Latches) : latches (connect l c) = l
  connect_latches (c : C) : connect (latches c) c = c
  connect_connect (c : C) (k l : Latches) : connect l (connect k c) = connect l c

namespace Cpu

variable {C : Type} [Cpu C]

attribute [simp] latches_connect connect_latches connect_connect

/-- The program counter told apart by bank, as breakpoints and trace events give it. -/
def location (c : C) : Nat := pc c + offset c

def code (c : C) : Code := (mem c).read (latches c)

end Cpu

end EightBit
