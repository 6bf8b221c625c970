import EightBit.Numeral

/-!
The options of the command line.
-/

namespace EightBit

/-- A raw program to load, and where. -/
structure Program where
  addr : Nat
  path : String
  deriving DecidableEq

structure Options where
  system : String := "mos6502"
  /-- A saved state to restore before anything else. -/
  restore : Option String := none
  program : Option Program := none
  /-- A file of monitor commands to evaluate first. -/
  script : Option String := none
  /-- Whether monitor commands are read from the input. -/
  monitor : Bool := false
  trace : Bool := false
  /-- Whether the machine waits to be started. -/
  wait : Bool := false
  verbose : Bool := false
  deriving DecidableEq

inductive OptionError where
  | missingValue (option : String)
  | malformedProgram (text : String)
  | invalidAddress (error : NumeralError)
  | unknown (text : String)
  deriving DecidableEq

def OptionError.message : OptionError → String
  | .missingValue option => "missing value for " ++ option
  | .malformedProgram text => "expected addr:file, got " ++ text
  | .invalidAddress error => error.message
  | .unknown text => "unknown option: " ++ text

inductive Invocation where
  | help
  | run (options : Options)
  deriving DecidableEq

namespace Options

def usage : String := "Usage: retro-cs [options]

Options:
  -s <system>        System to run: dual, mos6502, z80 (default: mos6502)
  -i <file>          Import a saved state before starting
  -l <addr>:<file>   Load a raw binary at addr and start there
  -x <file>          Evaluate a monitor script at start
  -m                 Read monitor commands from standard input
  -t                 Trace every processor
  -w                 Wait paused instead of starting
  -v, --verbose      Log debug messages to stderr
  -h, --help         Show this help message

Examples:
  retro-cs -s z80 -l 0:hello.bin
  retro-cs -w -m < session.txt
"

/-- Reads a program option, an address and a path parted by the first colon. -/
def program? (text : String) : Except OptionError Program :=
  let cs := text.toList
  let path := String.ofList ((cs.dropWhile (· != ':')).drop 1)
  if path.isEmpty then .error (.malformedProgram text)
  else
    match Numeral.parseAddress (String.ofList (cs.takeWhile (· != ':'))) with
    | .ok addr => .ok ⟨addr, path⟩
    | .error e => .error (.invalidAddress e)

/-- Follows the arguments in order; asking for help ends the reading. -/
def parseFrom (o : Options) : List String → Except OptionError Invocation
  | [] => .ok (.run o)
  | "-h" :: _ => .ok .help
  | "--help" :: _ => .ok .help
  | "-m" :: rest => parseFrom { o with monitor := true } rest
  | "-t" :: rest => parseFrom { o with trace := true } rest
  | "-w" :: rest => parseFrom { o with wait := true } rest
  | "-v" :: rest => parseFrom { o with verbose := true } rest
  | "--verbose" :: rest => parseFrom { o with verbose := true } rest
  | "-s" :: v :: rest => parseFrom { o with system := v } rest
  | "-i" :: v :: rest => parseFrom { o with restore := some v } rest
  | "-x" :: v :: rest => parseFrom { o with script := some v } rest
  | "-l" :: v :: rest =>
    match program? v with
    | .ok p => parseFrom { o with program := some p } rest
    | .error e => .error e
  | other :: _ =>
    if ["-s", "-i", "-x", "-l"].contains other then .error (.missingValue other)
    else .error (.unknown other)

def parse (args : List String) : Except OptionError Invocation := parseFrom {} args

end Options

end EightBit
