import EightBit.Directory
import EightBit.Numeral
import EightBit.Picture
import EightBit.Stream.Field
import EightBit.Text.Visible

/-!
What a machine is told and what it tells: commands, events, log records and errors.
-/

namespace EightBit

inductive Status where
  /-- Waiting to be started. -/
  | pause
  | run
  /-- Stopped by a breakpoint. -/
  | stopped
  deriving DecidableEq

def Status.name : Status → String
  | .pause => "pause"
  | .run => "run"
  | .stopped => "break"

/-- A request that the machine meets at its next quantum. -/
inductive Command where
  | save (path : String)
  | restore (path : String)
  | capture (path : String)
  | start
  | pause
  /-- Set tracing of a processor, or turn it over when nothing is said. -/
  | trace (processor : String) (on : Option Bool)
  | traceAll (on : Bool)
  | quit
  deriving DecidableEq

namespace Command

/-- A character between double quotes. One that does not show by itself is written as its code
point. -/
def quotedChar (c : Char) : String :=
  match c with
  | '"' => "\\\""
  | '\\' => "\\\\"
  | '\n' => "\\n"
  | '\r' => "\\r"
  | '\t' => "\\t"
  | '\x00' => "\\0"
  | c =>
    if Text.isVisible c then String.ofList [c]
    else "\\u\x7b" ++ String.ofList (Nat.toDigits 16 c.toNat) ++ "\x7d"

def quoted (text : String) : String :=
  "\"" ++ String.join (text.toList.map quotedChar) ++ "\""

def word (on : Bool) : String := if on then "true" else "false"

def describe : Command → String
  | save path => "Export(" ++ quoted path ++ ")"
  | restore path => "Import(" ++ quoted path ++ ")"
  | capture path => "Snapshot(" ++ quoted path ++ ")"
  | start => "Start"
  | pause => "Pause"
  | trace processor on =>
    let setting := match on with
      | some on => "Some(" ++ word on ++ ")"
      | none => "None"
    "Trace \x7b processor: " ++ quoted processor ++ ", enabled: " ++ setting ++ " \x7d"
  | traceAll on => "TraceAll(" ++ word on ++ ")"
  | quit => "Quit"

end Command

/-- Something that the machine makes known. -/
inductive Event where
  | status (status : Status)
  /-- A traced processor is about to execute the instruction at `location`. -/
  | trace (processor : String) (location : Nat)
  | error (message : String)
  deriving DecidableEq

def Event.line : Event → String
  | .status s => "status: " ++ s.name
  | .trace processor location => "trace " ++ processor ++ " " ++ Numeral.hex 4 location
  | .error message => "error: " ++ message

inductive LogLevel where
  | error
  | warn
  | info
  | debug
  deriving DecidableEq

def LogLevel.name : LogLevel → String
  | .error => "ERROR"
  | .warn => "WARN"
  | .info => "INFO"
  | .debug => "DEBUG"

/-- Whether a level is shown without being asked for. -/
def LogLevel.urgent : LogLevel → Bool
  | .error | .warn => true
  | .info | .debug => false

structure LogRecord where
  level : LogLevel
  /-- The part of the program that speaks. -/
  part : String
  text : String
  deriving DecidableEq

def LogRecord.line (r : LogRecord) : String :=
  r.level.name ++ " [" ++ r.part ++ "] " ++ r.text

inductive FileAction where
  | save
  | restore
  | capture
  | load
  | read
  deriving DecidableEq

def FileAction.name : FileAction → String
  | .save => "export"
  | .restore => "import"
  | .capture => "snapshot"
  | .load => "load"
  | .read => "read"

inductive MachineError where
  | saveUnsupported
  | restoreUnsupported
  | noScreen
  | noSuchProcessor (name : String)
  | file (action : FileAction) (path : String) (failure : IoFailure)
  | stream (error : StreamError)
  | picture (error : PictureError)
  /-- There is no machine at the other end of the queue. -/
  | disconnected
  /-- A processor broke down and left the machine in the middle of a step. -/
  | poisoned
  deriving DecidableEq

def MachineError.message : MachineError → String
  | .saveUnsupported => "exporting is not supported"
  | .restoreUnsupported => "importing is not supported"
  | .noScreen => "no screen to snapshot"
  | .noSuchProcessor name => "no such processor: " ++ name
  | .file action path failure =>
    "unable to " ++ action.name ++ " " ++ path ++ ": " ++ failure.message
  | .stream error => "snapshot: " ++ error.message
  | .picture error => "unable to encode image: " ++ error.message
  | .disconnected => "machine is not running"
  | .poisoned => "machine state is poisoned"

end EightBit
