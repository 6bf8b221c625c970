import EightBit.Machine
import EightBit.Picture.Png

/-!
Machines as the program puts them together and hands them out: their pictures become PNG files.
-/

namespace EightBit.Machine

def ofSystem (system : System) (rounds : Nat) : Machine := assemble Png.encode system rounds

/-- Queues a command with a machine that may be gone. -/
def deliver : Option Machine → Command → Except MachineError Machine
  | some m, c => .ok (m.send c)
  | none, _ => .error .disconnected

end EightBit.Machine
