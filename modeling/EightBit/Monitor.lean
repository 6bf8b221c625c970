import EightBit.Machine
import EightBit.Monitor.Dump

/-!
The monitor: an operator's command lines and the answers to them.

Looking and editing happen at once, between quanta. Whatever controls the run or concerns files is
queued and happens in the next quantum. A line that fails changes nothing but what an empty line
repeats.
-/

namespace EightBit

inductive MonitorError where
  | unknownCommand (word : String)
  | tooFewArguments
  | tooManyArguments
  | noSuchEncoding (name : String)
  | noSuchCore (text : String)
  | noLister
  | numeral (error : NumeralError)
  | edit (error : EditError)
  | machine (error : MachineError)
  /-- The input could not be read or the output not be written. -/
  | stream (failure : IoFailure)
  deriving DecidableEq

def MonitorError.message : MonitorError → String
  | .unknownCommand word => "unknown command: " ++ word
  | .tooFewArguments => "not enough arguments"
  | .tooManyArguments => "too many arguments"
  | .noSuchEncoding name => "no such encoding: " ++ name
  | .noSuchCore text => "invalid core: " ++ text
  | .noLister => "cannot disassemble this processor"
  | .numeral error => error.message
  | .edit error => error.message
  | .machine error => error.message
  | .stream failure => "output: " ++ failure.message

/-- Where listings and dumps of a processor go on, once there was one. -/
structure Cursor where
  listing : Option Nat := none
  dump : Option Nat := none
  deriving DecidableEq

inductive Repeated where
  | listing
  | dump
  deriving DecidableEq

structure Monitor where
  core : Nat := 0
  /-- One for each processor. -/
  cursors : Array Cursor
  encoding : String
  dumpRows : Nat := 16
  listingLines : Nat := 16
  last : Option Repeated := none
  quitting : Bool := false
  out : Sink := {}

/-- The answer to a command line: what is printed, and what the monitor and the machine become
once it has been. -/
structure Reply where
  lines : List String
  monitor : Monitor
  machine : Machine

namespace Monitor

def ofMachine (m : Machine) (out : Sink) : Except MonitorError Monitor :=
  (m.sound.mapError .machine).map fun m =>
    { cursors := Array.replicate m.system.processors.size {},
      encoding := m.system.catalog.default, out }

/-- The prompt, which names the selected processor when there are several. -/
def prompt (mon : Monitor) : String :=
  if 1 < mon.cursors.size then "monitor:" ++ toString (mon.core + 1) ++ "> " else "monitor> "

def checkCount (args : List String) (least most : Nat) : Except MonitorError Unit :=
  if args.length < least then .error .tooFewArguments
  else if most < args.length then .error .tooManyArguments
  else .ok ()

def address (text : String) : Except MonitorError Nat :=
  (Numeral.parseAddress text).mapError .numeral

def byte (text : String) : Except MonitorError UInt8 :=
  (Numeral.parseByte text).mapError .numeral

def word (text : String) : Except MonitorError UInt16 :=
  (Numeral.parseWord text).mapError .numeral

def switch (text : String) : Except MonitorError Bool :=
  (Numeral.parseSwitch text).mapError .numeral

def lineCount (text : String) : Except MonitorError Nat := do
  let n ← word text
  if n = 0 then .error (.numeral (.invalidValue text)) else .ok n.toNat

def optional {α : Type} (read : String → Except MonitorError α) :
    Option String → Except MonitorError (Option α)
  | none => .ok none
  | some text => (read text).map some

def each {α : Type} (read : String → Except MonitorError α) :
    List String → Except MonitorError (List α)
  | [] => .ok []
  | text :: texts => do
    let v ← read text
    let vs ← each read texts
    .ok (v :: vs)

/-- The machine, unless a breakdown has left it unusable. -/
def sound (m : Machine) : Except MonitorError Machine := m.sound.mapError .machine

def selected (mon : Monitor) (m : Machine) : Except MonitorError Core := do
  let m ← sound m
  match m.system.core? mon.core with
  | some c => .ok c
  | none => .error (.noSuchCore (toString (mon.core + 1)))

def selectedName (mon : Monitor) (m : Machine) : Except MonitorError String :=
  (sound m).map fun m => m.processorName mon.core

def queued (mon : Monitor) (m : Machine) (c : Command) : Reply := ⟨[], mon, m.send c⟩

def control (mon : Monitor) (m : Machine) (args : List String) (c : Command) :
    Except MonitorError Reply := do
  checkCount args 0 0
  .ok (mon.queued m c)

def fileCommand (mon : Monitor) (m : Machine) (args : List String) (c : String → Command) :
    Except MonitorError Reply := do
  checkCount args 1 1
  .ok (mon.queued m (c (args.headD "")))

def breakpoint (mon : Monitor) (m : Machine) (args : List String) :
    Except MonitorError Reply := do
  checkCount args 0 2
  let name ← mon.selectedName m
  let set (text : String) : Except MonitorError Reply := do
    let location ← address text
    let m ← (m.setBreakpoint name location).mapError .machine
    .ok ⟨[], mon, m⟩
  match args with
  | [] =>
    let locations ← (m.breakpoints name).mapError .machine
    .ok ⟨locations.map fun n => Numeral.hexWord (UInt16.ofNat n), mon, m⟩
  | [text] => set text
  | "set" :: text :: _ => set text
  | "clear" :: text :: _ =>
    let location ← address text
    let (_, m) ← (m.clearBreakpoint name location).mapError .machine
    .ok ⟨[], mon, m⟩
  | other :: _ => .error (.unknownCommand other)

def selectCore (mon : Monitor) (m : Machine) (args : List String) :
    Except MonitorError Reply := do
  checkCount args 0 1
  match args with
  | [] =>
    let name ← mon.selectedName m
    .ok ⟨[toString (mon.core + 1) ++ " " ++ name], mon, m⟩
  | text :: _ =>
    let n ← byte text
    if n = 0 ∨ mon.cursors.size < n.toNat then .error (.noSuchCore text)
    else .ok ⟨[], { mon with core := n.toNat - 1 }, m⟩

/-- Reads a value of the same type as another one. -/
def valueLike (text : String) : Value → Except MonitorError Value
  | .u8 _ => (byte text).map .u8
  | .u16 _ => (word text).map .u16
  | .bool _ => (switch text).map .bool

def registers (mon : Monitor) (m : Machine) (k : RegisterClass) (args : List String) :
    Except MonitorError Reply := do
  checkCount args 0 2
  let c ← mon.selected m
  match args with
  | [] =>
    let values ← (c.values k).mapError .edit
    .ok ⟨values.map fun (name, v) => Text.padEnd 5 name ++ v.text, mon, m⟩
  | [name] =>
    let v ← (c.value k name).mapError .edit
    .ok ⟨[v.text], mon, m⟩
  | name :: text :: _ =>
    let old ← (c.value k name).mapError .edit
    let v ← valueLike text old
    let c ← (c.put k name v).mapError .edit
    .ok ⟨[], mon, { m with system := m.system.update mon.core fun _ => c }⟩

/-- Shows the status and the selected processor, or turns to its registers or flags. -/
def processor (mon : Monitor) (m : Machine) : List String → Except MonitorError Reply
  | [] => do
    let c ← mon.selected m
    .ok ⟨["[" ++ m.status.name ++ "]\n" ++ c.display], mon, m⟩
  | "reg" :: args => mon.registers m .register args
  | "flag" :: args => mon.registers m .flag args
  | other :: _ => .error (.unknownCommand other)

def moveCursor (mon : Monitor) (f : Cursor → Cursor) : Monitor :=
  { mon with cursors := mon.cursors.modify mon.core f }

def cursor (mon : Monitor) : Cursor := mon.cursors.getD mon.core {}

/-- Lists code, either some lines or up to an address, from the given address, the cursor or the
next instruction. -/
def list (mon : Monitor) (m : Machine) (args : List String) : Except MonitorError Reply := do
  checkCount args 0 2
  let first ← optional address args[0]?
  let last ← optional address args[1]?
  let c ← mon.selected m
  match c.lister? with
  | none => .error .noLister
  | some lister =>
    let pc := (first.or mon.cursor.listing).getD c.pc
    let (statements, next) := match last with
      | some last => Listing.range lister c.code last pc
      | none => Listing.lines lister c.code mon.listingLines pc
    let mon := { mon.moveCursor fun k => { k with listing := some next } with
      last := some .listing }
    .ok ⟨statements.map (·.line), mon, m⟩

/-- Lists code, or shows or sets how many lines a listing has. -/
def disassemble (mon : Monitor) (m : Machine) : List String → Except MonitorError Reply
  | "list" :: args => mon.list m args
  | "lines" :: args => do
    checkCount args 0 1
    match args with
    | [] => .ok ⟨[toString mon.listingLines], mon, m⟩
    | text :: _ =>
      let n ← lineCount text
      .ok ⟨[], { mon with listingLines := n }, m⟩
  | args => mon.list m args

/-- Dumps memory, either some rows or up to an address, from the given address, the cursor or the
next instruction. -/
def dump (mon : Monitor) (m : Machine) (args : List String) : Except MonitorError Reply := do
  checkCount args 0 2
  let first ← optional address args[0]?
  let last ← optional address args[1]?
  let m' ← sound m
  match m'.system.catalog.find? mon.encoding with
  | none => .error (.noSuchEncoding mon.encoding)
  | some set =>
    let c ← mon.selected m
    let first := (first.or mon.cursor.dump).getD c.pc
    let last := Dump.clamp c.mem.size (last.getD (first + (mon.dumpRows * Dump.width - 1)))
    let mon := { mon.moveCursor fun k => { k with dump := some (last + 1) } with
      last := some .dump }
    .ok ⟨Dump.rows c.code c.mem.size set first last, mon, m⟩

/-- Shows the character sets, the selected one marked, or selects one. -/
def selectEncoding (mon : Monitor) (m : Machine) (args : List String) :
    Except MonitorError Reply := do
  checkCount args 0 1
  let m' ← sound m
  let names := m'.system.catalog.names
  match args with
  | [] =>
    .ok ⟨names.map fun name => (if name == mon.encoding then "* " else "  ") ++ name, mon, m⟩
  | name :: _ =>
    if names.contains name then .ok ⟨[], { mon with encoding := name }, m⟩
    else .error (.noSuchEncoding name)

/-- Dumps memory, or shows or sets how dumps look. -/
def memory (mon : Monitor) (m : Machine) : List String → Except MonitorError Reply
  | "dump" :: args => mon.dump m args
  | "encoding" :: args => mon.selectEncoding m args
  | "lines" :: args => do
    checkCount args 0 1
    match args with
    | [] => .ok ⟨[toString mon.dumpRows], mon, m⟩
    | text :: _ =>
      let n ← lineCount text
      .ok ⟨[], { mon with dumpRows := n }, m⟩
  | args => mon.dump m args

def poke (mon : Monitor) (m : Machine) (args : List String) : Except MonitorError Reply := do
  checkCount args 2 0x100
  let addr ← address (args.headD "")
  let bytes ← each byte args.tail
  let _ ← mon.selected m
  .ok ⟨[], mon, { m with
    system := m.system.update mon.core (Core.mapMemory fun mem l => mem.writeAll l addr bytes) }⟩

def trace (mon : Monitor) (m : Machine) (args : List String) : Except MonitorError Reply := do
  checkCount args 0 1
  let on ← optional switch args[0]?
  let name ← mon.selectedName m
  .ok (mon.queued m (.trace name on))

def traceAll (mon : Monitor) (m : Machine) (args : List String) :
    Except MonitorError Reply := do
  checkCount args 1 1
  let on ← switch (args.headD "")
  .ok (mon.queued m (.traceAll on))

def respond (mon : Monitor) (m : Machine) (command : String) (args : List String) :
    Except MonitorError Reply :=
  match command with
  | "b" | "break" => mon.breakpoint m args
  | "core" => mon.selectCore m args
  | "cpu" => mon.processor m args
  | "d" => mon.list m args
  | "dasm" => mon.disassemble m args
  | "export" => mon.fileCommand m args .save
  | "g" | "go" => mon.control m args .start
  | "import" => mon.fileCommand m args .restore
  | "m" => mon.dump m args
  | "mem" => mon.memory m args
  | "p" | "pause" => mon.control m args .pause
  | "poke" => mon.poke m args
  | "q" | "quit" =>
    (mon.control m args .quit).map fun r =>
      { r with monitor := { r.monitor with quitting := true } }
  | "r" => (checkCount args 0 0).bind fun _ => mon.processor m []
  | "snapshot" => mon.fileCommand m args .capture
  | "t" | "trace" => mon.trace m args
  | "trace-all" => mon.traceAll m args
  | other => .error (.unknownCommand other)

def respondAgain (mon : Monitor) (m : Machine) : Except MonitorError Reply :=
  match mon.last with
  | some .listing => mon.list m []
  | some .dump => mon.dump m []
  | none => .ok ⟨[], mon, m⟩

/-- Prints an answer and takes it over. -/
def settle (mon : Monitor) (m : Machine) (reply : Except MonitorError Reply) :
    Monitor × Machine × Except MonitorError Unit :=
  match reply with
  | .error e => (mon, m, .error e)
  | .ok r =>
    match mon.out.writeLines r.lines with
    | (out, true) => ({ r.monitor with out }, r.machine, .ok ())
    | (out, false) => ({ mon with out }, m, .error (.stream .shortWrite))

def logPart : String := "monitor::monitor"

def eval (mon : Monitor) (m : Machine) (line : String) :
    Monitor × Machine × Except MonitorError Unit :=
  match Text.words line with
  | [] => mon.settle m (mon.respondAgain m)
  | command :: args =>
    let m := { m with log := m.log.push ⟨.debug, logPart, "monitor: " ++ line⟩ }
    let mon := { mon with last := none }
    mon.settle m (mon.respond m command args)

/-- Prints why a line failed, unless the failure was that of printing. -/
def report (mon : Monitor) : MonitorError → Monitor × Except MonitorError Unit
  | .stream failure => (mon, .error (.stream failure))
  | e =>
    match mon.out.writeLines [e.message] with
    | (out, true) => ({ mon with out }, .ok ())
    | (out, false) => ({ mon with out }, .error (.stream .shortWrite))

/-- Evaluates lines until there are no more, one cannot be read or printed, or one says to quit.
Other failures are printed. -/
def evalAll (mon : Monitor) (m : Machine) :
    List (Except IoFailure String) → Monitor × Machine × Except MonitorError Unit
  | [] => (mon, m, .ok ())
  | .error failure :: _ => (mon, m, .error (.stream failure))
  | .ok line :: lines =>
    let (mon, m, result) := mon.eval m line
    let (mon, printed) : Monitor × Except MonitorError Unit := match result with
      | .ok () => (mon, .ok ())
      | .error e => mon.report e
    match printed with
    | .error e => (mon, m, .error e)
    | .ok () => if mon.quitting then (mon, m, .ok ()) else mon.evalAll m lines

end Monitor

end EightBit
