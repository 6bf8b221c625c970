import EightBit.Machine.Command
import EightBit.System

/-!
The machine that drives a system.

Time passes in quanta. A quantum first carries out every queued command; then, while the machine
runs, it performs a fixed number of rounds. In a round every processor steps once, in order, and
then every ticker steps once. A quantum ends early when a processor arrives at one of its
breakpoints. A processor whose location did not change in its last step is stuck: it is not
traced, and it arrives nowhere until it moves.
-/

namespace EightBit

/-- What the machine remembers of a processor beside its state. -/
structure Watch where
  tracing : Bool := false
  /-- The last step ended where it began. -/
  stuck : Bool := false
  /-- In ascending order and without repetition. -/
  breakpoints : List Nat := []
  deriving DecidableEq

namespace Watch

def trace (on : Bool) (w : Watch) : Watch := { w with tracing := on }

def release (w : Watch) : Watch := { w with stuck := false }

/-- Puts a number in its place in an ascending list, unless it is there. -/
def insert (n : Nat) : List Nat → List Nat
  | [] => [n]
  | k :: ks => if n < k then n :: k :: ks else if n = k then k :: ks else k :: insert n ks

end Watch

structure Machine (C : Type := Core) where
  system : System C
  /-- How many rounds a quantum has. -/
  rounds : Nat
  /-- The bytes of the file that a picture is captured to. -/
  encode : Picture → Except PictureError (List UInt8)
  status : Status := .pause
  /-- One for each processor. -/
  watches : Array Watch
  /-- The commands not yet carried out, the oldest first. -/
  queue : List Command := []
  /-- What an observer sends when a breakpoint stops the machine. -/
  onStop : List Command := []
  /-- Everything made known so far. -/
  events : Array Event := #[]
  log : Array LogRecord := #[]
  /-- The processor that is stepping and where its step began. -/
  executing : Option (Nat × Nat) := none
  /-- A quit command has been carried out. -/
  quitting : Bool := false
  /-- A processor broke down in the middle of a quantum. -/
  poisoned : Bool := false
  directory : Directory := {}

inductive Flow where
  | goOn
  | quit
  deriving DecidableEq

inductive Progress where
  /-- Everything stepped that was to step. -/
  | completed
  | arrived
  | brokeDown
  deriving DecidableEq

namespace Machine

variable {C : Type}

def assemble (encode : Picture → Except PictureError (List UInt8)) (system : System C)
    (rounds : Nat) : Machine C where
  system
  rounds
  encode
  watches := Array.replicate system.processors.size {}

/-- The part of the program that the machine's log records come from. -/
def logPart : String := "retro_core::mach"

def record (m : Machine C) (level : LogLevel) (text : String) : Machine C :=
  { m with log := m.log.push ⟨level, logPart, text⟩ }

def publish (m : Machine C) (e : Event) : Machine C := { m with events := m.events.push e }

def send (m : Machine C) (c : Command) : Machine C := { m with queue := m.queue ++ [c] }

/-- The machine, unless it was left in the middle of a step. -/
def sound (m : Machine C) : Except MachineError (Machine C) :=
  if m.poisoned then .error .poisoned else .ok m

def indexOf (m : Machine C) (name : String) : Except MachineError Nat :=
  match m.system.names.findIdx? (· == name) with
  | some i => .ok i
  | none => .error (.noSuchProcessor name)

def watch (m : Machine C) (i : Nat) : Watch := m.watches.getD i {}

def updateWatch (m : Machine C) (i : Nat) (f : Watch → Watch) : Machine C :=
  { m with watches := m.watches.modify i f }

def setBreakpoint (m : Machine C) (name : String) (location : Nat) :
    Except MachineError (Machine C) :=
  (m.indexOf name).map fun i =>
    m.updateWatch i fun w => { w with breakpoints := Watch.insert location w.breakpoints }

/-- Removes a breakpoint of a processor and tells whether it was set. -/
def clearBreakpoint (m : Machine C) (name : String) (location : Nat) :
    Except MachineError (Bool × Machine C) :=
  (m.indexOf name).map fun i =>
    ((m.watch i).breakpoints.contains location,
      m.updateWatch i fun w => { w with breakpoints := w.breakpoints.erase location })

def breakpoints (m : Machine C) (name : String) : Except MachineError (List Nat) :=
  (m.indexOf name).map fun i => (m.watch i).breakpoints

def tracing (m : Machine C) (name : String) : Except MachineError Bool :=
  (m.indexOf name).map fun i => (m.watch i).tracing

/-- Sets tracing of a processor, or turns it over when nothing is said. -/
def trace (m : Machine C) (name : String) (on : Option Bool) : Except MachineError (Machine C) :=
  (m.indexOf name).map fun i =>
    let on := on.getD (!(m.watch i).tracing)
    (m.updateWatch i (Watch.trace on)).record .debug
      ("trace " ++ name ++ ": " ++ Command.word on)

def traceAll (m : Machine C) (on : Bool) : Machine C :=
  let m := { m with watches := m.watches.map (Watch.trace on) }
  m.record .debug ("trace all: " ++ Command.word on)

def setStatus (m : Machine C) (s : Status) : Machine C :=
  ({ m with status := s }.record .info ("status: " ++ s.name)).publish (.status s)

/-- Makes another character set the default, if there is one of that name. -/
def selectSet (m : Machine C) (name : String) : Bool × Machine C :=
  match m.system.catalog.select? name with
  | some catalog => (true, { m with system := { m.system with catalog } })
  | none => (false, m)

def writeFile (m : Machine C) (action : FileAction) (path : String) (bytes : List UInt8) :
    Except MachineError (Machine C) :=
  match m.directory.writeFile path bytes with
  | .ok directory => .ok { m with directory }
  | .error failure => .error (.file action path failure)

variable [Cpu C]

def save (m : Machine C) (path : String) : Except MachineError (Machine C) :=
  match m.system.fields? with
  | none => .error .saveUnsupported
  | some fields =>
    m.writeFile .save path (({} : Writer).putAll fields).sink.bytes.toList

def readerOf : Source → Reader
  | .content bytes => ⟨bytes, none⟩
  | .unreadable failure => ⟨[], some (.io failure)⟩

/-- Restores the state of the system from a file. A file that cannot be read to its end leaves
zeros for what is missing; only a complete one makes the processors forget that they were stuck. -/
def restore (m : Machine C) (path : String) : Machine C × Except MachineError Unit :=
  match m.system.saved with
  | none => (m, .error .restoreUnsupported)
  | some _ =>
    match m.directory.openFile path with
    | .error failure => (m, .error (.file .restore path failure))
    | .ok source =>
      match m.system.load? (readerOf source) with
      | none => (m, .error .restoreUnsupported)
      | some (system, r) =>
        match r.error with
        | some e => ({ m with system }, .error (.stream e))
        | none =>
          ({ m with system, watches := m.watches.map Watch.release }, .ok ())

def capture (m : Machine C) (path : String) : Machine C × Except MachineError Unit :=
  match m.system.picture? with
  | none => (m, .error .noScreen)
  | some picture =>
    match m.writeFile .capture path [] with
    | .error e => (m, .error e)
    | .ok created =>
      match m.encode picture with
      | .error e => (created, .error (.picture e))
      | .ok bytes =>
        match created.writeFile .capture path bytes with
        | .error e => (created, .error e)
        | .ok written => (written, .ok ())

def orElse (m : Machine C) : Except MachineError (Machine C) → Machine C × Except MachineError Unit
  | .ok m => (m, .ok ())
  | .error e => (m, .error e)

def perform (m : Machine C) : Command → Machine C × Except MachineError Unit
  | .save path => m.orElse (m.save path)
  | .restore path => m.restore path
  | .capture path => m.capture path
  | .start => (m.setStatus .run, .ok ())
  | .pause => (m.setStatus .pause, .ok ())
  | .trace name on => m.orElse (m.trace name on)
  | .traceAll on => (m.traceAll on, .ok ())
  | .quit => ({ m with quitting := true }, .ok ())

def handle (m : Machine C) (c : Command) : Machine C :=
  match (m.record .debug ("command: " ++ c.describe)).perform c with
  | (m, .ok ()) => m
  | (m, .error e) => (m.record .warn e.message).publish (.error e.message)

def drain (m : Machine C) : Machine C := m.queue.foldl handle { m with queue := [] }

def location (m : Machine C) (i : Nat) : Nat :=
  match m.system.processors[i]? with
  | some p => Cpu.location p.core
  | none => 0

def processorName (m : Machine C) (i : Nat) : String :=
  match m.system.processors[i]? with
  | some p => p.name
  | none => ""

def breaksDown (m : Machine C) (i : Nat) : Bool :=
  match m.system.processors[i]? with
  | some p => Cpu.breaksDown p.core
  | none => false

/-- Makes known that a traced processor is about to step, unless it is stuck. -/
def announce (m : Machine C) (i : Nat) : Machine C :=
  let w := m.watch i
  if w.tracing && !w.stuck then m.publish (.trace (m.processorName i) (m.location i)) else m

def stepProcessor (m : Machine C) (i : Nat) : Progress × Machine C :=
  let start := m.location i
  let m := { m.announce i with executing := some (i, start) }
  if m.breaksDown i then (.brokeDown, m)
  else
    let m := { m with system := m.system.update i Cpu.step }
    let location := m.location i
    let stuck := location == start
    let m := m.updateWatch i fun w => { w with stuck }
    (if !stuck && (m.watch i).breakpoints.contains location then .arrived else .completed, m)

def stepProcessors (m : Machine C) (i : Nat) : Nat → Progress × Machine C
  | 0 => (.completed, m)
  | k + 1 =>
    match m.stepProcessor i with
    | (.completed, m) => m.stepProcessors (i + 1) k
    | stopped => stopped

/-- One round: every processor steps, then every ticker. -/
def round (m : Machine C) : Progress × Machine C :=
  match m.stepProcessors 0 m.system.processors.size with
  | (.completed, m) => (.completed, { m with executing := none, system := m.system.tick })
  | stopped => stopped

def runRounds (m : Machine C) : Nat → Progress × Machine C
  | 0 => (.completed, m)
  | n + 1 =>
    match m.round with
    | (.completed, m) => m.runRounds n
    | stopped => stopped

def execute (m : Machine C) : Machine C :=
  match m.runRounds m.rounds with
  | (.completed, m) => { m with executing := none }
  | (.arrived, m) =>
    let m := { m with executing := none }.setStatus .stopped
    { m with queue := m.queue ++ m.onStop }
  | (.brokeDown, m) => { m with poisoned := true }

def quantum (m : Machine C) : Flow × Machine C :=
  let m := m.drain
  if m.quitting then (.quit, m)
  else if m.status = .run then (.goOn, m.execute)
  else (.goOn, m)

/-- Logs the processor that broke down, if one did, and the state of every processor. -/
def reportCrash (m : Machine C) : Machine C :=
  let m := match m.executing with
    | some (i, start) =>
      m.record .error
        ("[panic while executing " ++ m.processorName i ++ " at " ++ Numeral.hex 4 start ++ "]")
    | none => m
  (List.range m.system.processors.size).foldl (fun m i =>
    match m.system.core? i with
    | some c =>
      (m.record .error ("[panic: " ++ m.processorName i ++ "]\n" ++ Cpu.display c)).record .error
        ("bank: " ++ String.ofList (Numeral.digits 16 2 (Cpu.mem c).bank))
    | none => m) m

inductive Ending where
  | quit
  | failed (e : MachineError)
  /-- A processor broke down, which has been logged. -/
  | crashed
  /-- Still running after all the quanta that were allowed. -/
  | unfinished
  deriving DecidableEq

/-- Runs at most so many quanta, until a quit command or a breakdown. -/
def run (m : Machine C) : Nat → Ending × Machine C
  | 0 => (.unfinished, m)
  | n + 1 =>
    if m.poisoned then (.failed .poisoned, m)
    else
      match m.quantum with
      | (.quit, m) => (.quit, m)
      | (.goOn, m) => if m.poisoned then (.crashed, m.reportCrash) else m.run n

end Machine

end EightBit
