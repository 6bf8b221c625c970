import EightBit.Session

/-!
The command line: a session connected to the terminal, the clock and the file system.

The machine and the monitor see a directory that holds what stood at the paths they name. It is
filled before every quantum, and what a quantum changes in it is written to the file system.
-/

namespace EightBit.Terminal

/-- How long a quantum takes, in milliseconds. -/
def quantumTime : Nat := 17

def pathOf : Command → Option String
  | .save path => some path
  | .restore path => some path
  | .capture path => some path
  | _ => none

def isFolder (path : String) : IO Bool := do
  try
    (← IO.FS.realPath path).isDir
  catch _ =>
    return false

/-- Enters what stands at a path, and the folders on the way to it, in a directory. -/
def survey (d : Directory) (path : String) : IO Directory := do
  let mut d := d
  let mut names := Directory.start path
  for component in Directory.components path do
    names := Directory.enter names component
    let plain := Directory.plain names
    if ← isFolder plain then
      d := { d with folders := plain :: d.folders }
    else
      try
        let bytes ← IO.FS.readBinFile plain
        d := { d with files := Directory.put plain bytes.data.toList d.files }
      catch _ =>
        pure ()
  return d

def present (o : Options) (s : Session) : IO Session := do
  IO.eprint (s.logLines o)
  let output ← IO.getStdout
  output.write ⟨s.monitor.out.bytes⟩
  output.putStr s.eventLines
  output.flush
  return ⟨{ s.machine with events := #[], log := #[] }, { s.monitor with out := {} }⟩

def fail (message : String) : IO UInt32 := do
  IO.eprintln ("error: " ++ message)
  return 1

def advance (s : Session) : IO (Machine.Ending × Session) := do
  let paths := s.machine.queue.filterMap pathOf
  let before ← paths.foldlM survey {}
  let (ending, machine) := { s.machine with directory := before }.run 1
  for (path, bytes) in machine.directory.files do
    if before.find? path != some bytes then
      try
        IO.FS.writeBinFile path ⟨bytes.toArray⟩
      catch e =>
        IO.eprintln ("error: " ++ toString e)
  return (ending, { s with machine })

def nextLine : IO (Task (Except IO.Error String)) := do
  let input ← IO.getStdin
  IO.asTask input.getLine Task.Priority.dedicated

/-- Evaluates a line that has been read. Behind the last one the machine is told to quit. -/
def evaluate (s : Session) : Except IO.Error String → Session × Except SessionError Unit
  | .ok "" => ({ s with machine := s.machine.send .quit }, .ok ())
  | .ok line => s.feed (Text.lines (Session.textBytes line))
  | .error _ => s.feed [.error .invalidText]

/-- Runs a session to its end: a quantum whenever it is time for one and a line whenever there is
one. -/
def drive (o : Options) (s : Session) : IO UInt32 := do
  let mut s := s
  let mut reading := none
  if o.monitor && !s.monitor.quitting then
    reading := some (← nextLine)
  let mut due ← IO.monoMsNow
  repeat
    if let some line := reading then
      if ← IO.hasFinished line then
        let (s', result) := evaluate s line.get
        s ← present o s'
        if let .error e := result then
          return ← fail e.message
        let ended := match line.get with
          | .ok text => text.isEmpty
          | .error _ => true
        reading := none
        if !(ended || s.monitor.quitting) then
          reading := some (← nextLine)
        continue
    let now ← IO.monoMsNow
    if now < due then
      IO.sleep 1
    else
      due := max (due + quantumTime) now
      let (ending, s') ← advance s
      s ← present o s'
      match ending with
      | .unfinished => pure ()
      | .quit => return 0
      | .failed e => return ← fail e.message
      | .crashed => return ← fail "machine thread panicked"
  return 0

def session (o : Options) : IO UInt32 := do
  let paths := (o.program.map (·.path)).toList ++ o.script.toList
  let d ← paths.foldlM survey {}
  match Session.begin? o d with
  | .error e => fail e.message
  | .ok s =>
    let (s, result) := s.runScript o
    let s ← present o s
    match result with
    | .error e => fail e.message
    | .ok () => drive o s

end EightBit.Terminal

def main (args : List String) : IO UInt32 := do
  match EightBit.Options.parse args with
  | .ok (.run o) => EightBit.Terminal.session o
  | _ =>
    let c := EightBit.Session.invoke args [] {}
    (← IO.getStdout).write ⟨c.output.toArray⟩
    IO.eprint c.errors
    return c.code
