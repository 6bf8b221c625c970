import EightBit.Machine.Assembly
import EightBit.Monitor
import EightBit.Options
import EightBit.System.Demo

/-!
A session from the command line: a machine, a monitor on it, and what the outside world sees of
them.
-/

namespace EightBit

inductive SessionError where
  | noSuchSystem (name : String)
  | noProcessors
  | machine (error : MachineError)
  | monitor (error : MonitorError)
  deriving DecidableEq

def SessionError.message : SessionError → String
  | .noSuchSystem name => "no such system: " ++ name
  | .noProcessors => "system has no processors"
  | .machine error => error.message
  | .monitor error => error.message

structure Session where
  machine : Machine
  monitor : Monitor

structure Conclusion where
  code : UInt32
  output : List UInt8
  errors : String
  directory : Directory

namespace Session

def roundsPerQuantum : Nat := 20000

/-- Puts a program into the memory of the first processor and makes it start there. -/
def load (m : Machine) (p : Program) : Except SessionError Machine :=
  match m.directory.readFile p.path with
  | .error failure => .error (.machine (.file .load p.path failure))
  | .ok bytes =>
    match m.system.core? 0 with
    | none => .error .noProcessors
    | some _ =>
      .ok { m with
        system := m.system.update 0 fun c =>
          (c.mapMemory fun mem l => mem.writeAll l p.addr bytes).setPc p.addr }

/-- The commands that options queue before the machine runs for the first time. -/
def firstCommands (o : Options) : List Command :=
  (o.restore.map Command.restore).toList ++
    (if o.trace then [.traceAll true] else []) ++ (if o.wait then [] else [.start])

def begin? (o : Options) (d : Directory) : Except SessionError Session := do
  match System.named? o.system with
  | none => .error (.noSuchSystem o.system)
  | some system =>
    let m := { Machine.ofSystem system roundsPerQuantum with directory := d }
    let m ← match o.program with
      | some p => load m p
      | none => .ok m
    let m := (firstCommands o).foldl Machine.send m
    let mon ← (Monitor.ofMachine m {}).mapError .monitor
    .ok ⟨m, mon⟩

def feed (s : Session) (lines : List (Except IoFailure String)) :
    Session × Except SessionError Unit :=
  let (mon, m, result) := s.monitor.evalAll s.machine lines
  (⟨m, mon⟩, result.mapError .monitor)

def scriptLines (d : Directory) (path : String) :
    Except SessionError (List (Except IoFailure String)) :=
  match d.openFile path with
  | .error failure => .error (.machine (.file .read path failure))
  | .ok (.unreadable failure) => .ok [.error failure]
  | .ok (.content bytes) => .ok (Text.lines bytes)

def runScript (s : Session) (o : Options) : Session × Except SessionError Unit :=
  match o.script with
  | none => (s, .ok ())
  | some path =>
    match scriptLines s.machine.directory path with
    | .error e => (s, .error e)
    | .ok lines => s.feed lines

def runInput (s : Session) (o : Options) (input : List UInt8) :
    Session × Except SessionError Unit :=
  if o.monitor && !s.monitor.quitting then
    match s.feed (Text.lines input) with
    | (s, .ok ()) =>
      (if s.monitor.quitting then s else { s with machine := s.machine.send .quit }, .ok ())
    | failed => failed
  else (s, .ok ())

def logLines (s : Session) (o : Options) : String :=
  let shown := s.machine.log.toList.filter fun r => o.verbose || r.level.urgent
  String.join (shown.map fun r => r.line ++ "\n")

def eventLines (s : Session) : String :=
  String.join (s.machine.events.toList.map fun e => e.line ++ "\n")

def textBytes (text : String) : List UInt8 := text.toByteArray.data.toList

/-- How a session ends that met an error: with what was printed so far and the error. -/
def abort (s : Session) (o : Options) (e : SessionError) : Conclusion where
  code := 1
  output := s.monitor.out.bytes.toList
  errors := s.logLines o ++ "error: " ++ e.message ++ "\n"
  directory := s.machine.directory

/-- How a session ends whose input has ended: the machine carries out what is queued, which is
made known behind what the monitor printed. -/
def conclude (s : Session) (o : Options) : Conclusion :=
  let s := { s with machine := (s.machine.run 1).2 }
  { code := 0
    output := s.monitor.out.bytes.toList ++ textBytes s.eventLines
    errors := s.logLines o
    directory := s.machine.directory }

/-- A whole session whose commands all arrive before the machine's first quantum. -/
def run (o : Options) (input : List UInt8) (d : Directory) : Conclusion :=
  match begin? o d with
  | .error e => ⟨1, [], "error: " ++ e.message ++ "\n", d⟩
  | .ok s =>
    match s.runScript o with
    | (s, .error e) => s.abort o e
    | (s, .ok ()) =>
      match s.runInput o input with
      | (s, .error e) => s.abort o e
      | (s, .ok ()) => s.conclude o

def invoke (args : List String) (input : List UInt8) (d : Directory) : Conclusion :=
  match Options.parse args with
  | .error e => ⟨1, [], "error: " ++ e.message ++ "\n" ++ Options.usage ++ "\n", d⟩
  | .ok .help => ⟨0, textBytes (Options.usage ++ "\n"), "", d⟩
  | .ok (.run o) => run o input d

end Session

end EightBit
