import EightBit.Proofs.Evaluation

/-!
A command line that fails changes nothing.

The monitor answers a command as a whole and takes the answer over when it is printed. Here every
command is also told as it goes along: it looks at something, prints a line, changes the monitor or
the machine, and what it has done stays done when it fails later. That comes to the same. For every
command looks first, at all its arguments and at what they name, and what it does then can only fail
where the output does.
-/

namespace EightBit.Monitor

/-- What a command does to the monitor and the machine, and how it ends. It does not take back what
it has done when it fails. -/
abbrev Action (α : Type) := ExceptT MonitorError (StateM (Monitor × Machine)) α

namespace Action

variable {α β : Type}

def look (read : Monitor → Machine → Except MonitorError α) : Action α :=
  ExceptT.mk fun s => (read s.1 s.2, s)

def change (f : Monitor → Machine → Monitor × Machine) : Action Unit :=
  ExceptT.mk fun s => (.ok (), f s.1 s.2)

/-- Prints a line. A part of it is out when there is not enough room for it. -/
def print (line : String) : Action Unit :=
  ExceptT.mk fun s =>
    match s.1.out.writeText (line ++ "\n") with
    | (out, true) => (.ok (), { s.1 with out }, s.2)
    | (out, false) => (.error (.stream .shortWrite), { s.1 with out }, s.2)

def printAll : List String → Action Unit
  | [] => pure ()
  | line :: lines => do
    print line
    printAll lines

def perform (a : Action α) (s : Monitor × Machine) : Except MonitorError α × Monitor × Machine :=
  ExceptT.run a s

def send (c : Command) : Action Unit := change fun mon m => (mon, m.send c)

def control (args : List String) (c : Command) : Action Unit := do
  look fun _ _ => checkCount args 0 0
  send c

def fileCommand (args : List String) (c : String → Command) : Action Unit := do
  look fun _ _ => checkCount args 1 1
  send (c (args.headD ""))

def changeBreakpoints (name text : String) (f : Nat → List Nat → List Nat) : Action Unit := do
  let location ← look fun _ _ => address text
  let i ← look fun _ m => (m.indexOf name).mapError .machine
  change fun mon m =>
    (mon, m.updateWatch i fun w => { w with breakpoints := f location w.breakpoints })

def breakpoint (args : List String) : Action Unit := do
  look fun _ _ => checkCount args 0 2
  let name ← look selectedName
  match args with
  | [] =>
    let locations ← look fun _ m => (m.breakpoints name).mapError .machine
    printAll (locations.map fun n => Numeral.hexWord (UInt16.ofNat n))
  | [text] => changeBreakpoints name text Watch.insert
  | "set" :: text :: _ => changeBreakpoints name text Watch.insert
  | "clear" :: text :: _ => changeBreakpoints name text fun location ks => ks.erase location
  | other :: _ => throw (.unknownCommand other)

def selectCore (args : List String) : Action Unit := do
  look fun _ _ => checkCount args 0 1
  match args with
  | [] =>
    let name ← look selectedName
    let core ← look fun mon _ => .ok mon.core
    printAll [toString (core + 1) ++ " " ++ name]
  | text :: _ =>
    let n ← look fun _ _ => byte text
    look fun mon _ =>
      if n = 0 ∨ mon.cursors.size < n.toNat then .error (.noSuchCore text) else .ok ()
    change fun mon m => ({ mon with core := n.toNat - 1 }, m)

def registers (k : RegisterClass) (args : List String) : Action Unit := do
  look fun _ _ => checkCount args 0 2
  let c ← look selected
  match args with
  | [] =>
    let values ← look fun _ _ => (c.values k).mapError .edit
    printAll (values.map fun (name, v) => Text.padEnd 5 name ++ v.text)
  | [name] =>
    let v ← look fun _ _ => (c.value k name).mapError .edit
    printAll [v.text]
  | name :: text :: _ =>
    let old ← look fun _ _ => (c.value k name).mapError .edit
    let v ← look fun _ _ => valueLike text old
    let c ← look fun _ _ => (c.put k name v).mapError .edit
    change fun mon m => (mon, { m with system := m.system.update mon.core fun _ => c })

def processor : List String → Action Unit
  | [] => do
    let c ← look selected
    let status ← look fun _ m => .ok m.status
    printAll ["[" ++ status.name ++ "]\n" ++ c.display]
  | "reg" :: args => registers .register args
  | "flag" :: args => registers .flag args
  | other :: _ => throw (.unknownCommand other)

def list (args : List String) : Action Unit := do
  look fun _ _ => checkCount args 0 2
  let first ← look fun _ _ => optional address args[0]?
  let last ← look fun _ _ => optional address args[1]?
  let c ← look selected
  match c.lister? with
  | none => throw .noLister
  | some lister =>
    let pc ← look fun mon _ => .ok ((first.or mon.cursor.listing).getD c.pc)
    let (statements, next) ← look fun mon _ => .ok <| match last with
      | some last => Listing.range lister c.code last pc
      | none => Listing.lines lister c.code mon.listingLines pc
    printAll (statements.map (·.line))
    change fun mon m =>
      ({ mon.moveCursor fun k => { k with listing := some next } with last := some .listing }, m)

def lines (get : Monitor → Nat) (set : Nat → Monitor → Monitor) (args : List String) :
    Action Unit := do
  look fun _ _ => checkCount args 0 1
  match args with
  | [] =>
    let n ← look fun mon _ => .ok (get mon)
    printAll [toString n]
  | text :: _ =>
    let n ← look fun _ _ => lineCount text
    change fun mon m => (set n mon, m)

def disassemble : List String → Action Unit
  | "list" :: args => list args
  | "lines" :: args => lines (·.listingLines) (fun n mon => { mon with listingLines := n }) args
  | args => list args

def dump (args : List String) : Action Unit := do
  look fun _ _ => checkCount args 0 2
  let first ← look fun _ _ => optional address args[0]?
  let last ← look fun _ _ => optional address args[1]?
  let m' ← look fun _ m => sound m
  let set ← look fun mon _ =>
    match m'.system.catalog.find? mon.encoding with
    | none => .error (.noSuchEncoding mon.encoding)
    | some set => .ok set
  let c ← look selected
  let first ← look fun mon _ => .ok ((first.or mon.cursor.dump).getD c.pc)
  let last ← look fun mon _ =>
    .ok (Dump.clamp c.mem.size (last.getD (first + (mon.dumpRows * Dump.width - 1))))
  printAll (Dump.rows c.code c.mem.size set first last)
  change fun mon m =>
    ({ mon.moveCursor fun k => { k with dump := some (last + 1) } with last := some .dump }, m)

def selectEncoding (args : List String) : Action Unit := do
  look fun _ _ => checkCount args 0 1
  let m' ← look fun _ m => sound m
  let names := m'.system.catalog.names
  match args with
  | [] =>
    let encoding ← look fun mon _ => .ok mon.encoding
    printAll (names.map fun name => (if name == encoding then "* " else "  ") ++ name)
  | name :: _ =>
    look fun _ _ => if names.contains name then .ok () else .error (.noSuchEncoding name)
    change fun mon m => ({ mon with encoding := name }, m)

def memory : List String → Action Unit
  | "dump" :: args => dump args
  | "encoding" :: args => selectEncoding args
  | "lines" :: args => lines (·.dumpRows) (fun n mon => { mon with dumpRows := n }) args
  | args => dump args

/-- The bytes are written when all of them are read. -/
def poke (args : List String) : Action Unit := do
  look fun _ _ => checkCount args 2 0x100
  let addr ← look fun _ _ => address (args.headD "")
  let bytes ← look fun _ _ => each byte args.tail
  let _ ← look selected
  change fun mon m =>
    (mon, { m with
      system := m.system.update mon.core (Core.mapMemory fun mem l => mem.writeAll l addr bytes) })

def trace (args : List String) : Action Unit := do
  look fun _ _ => checkCount args 0 1
  let on ← look fun _ _ => optional switch args[0]?
  let name ← look selectedName
  send (.trace name on)

def traceAll (args : List String) : Action Unit := do
  look fun _ _ => checkCount args 1 1
  let on ← look fun _ _ => switch (args.headD "")
  send (.traceAll on)

def respond (command : String) (args : List String) : Action Unit :=
  match command with
  | "b" | "break" => breakpoint args
  | "core" => selectCore args
  | "cpu" => processor args
  | "d" => list args
  | "dasm" => disassemble args
  | "export" => fileCommand args .save
  | "g" | "go" => control args .start
  | "import" => fileCommand args .restore
  | "m" => dump args
  | "mem" => memory args
  | "p" | "pause" => control args .pause
  | "poke" => poke args
  | "q" | "quit" => do
    control args .quit
    change fun mon m => ({ mon with quitting := true }, m)
  | "r" => do
    look fun _ _ => checkCount args 0 0
    processor []
  | "snapshot" => fileCommand args .capture
  | "t" | "trace" => trace args
  | "trace-all" => traceAll args
  | other => throw (.unknownCommand other)

def respondAgain : Action Unit := do
  match ← look fun mon _ => .ok mon.last with
  | some .listing => list []
  | some .dump => dump []
  | none => pure ()

def eval (line : String) : Action Unit :=
  match Text.words line with
  | [] => respondAgain
  | command :: args => do
    change fun mon m => (mon, noted m line)
    change fun mon m => (mon.forget, m)
    respond command args

theorem perform_bind (a : Action α) (f : α → Action β) (s : Monitor × Machine) :
    (a >>= f).perform s =
      match a.perform s with
      | (.ok v, s) => (f v).perform s
      | (.error e, s) => (.error e, s) := by
  have h : (a >>= f).perform s = ExceptT.bindCont f (a.perform s).1 (a.perform s).2 := rfl
  rw [h]
  rcases a.perform s with ⟨_ | v, s'⟩ <;> rfl

theorem perform_look (read : Monitor → Machine → Except MonitorError α) (mon : Monitor)
    (m : Machine) : (look read).perform (mon, m) = (read mon m, mon, m) := rfl

theorem perform_print (line : String) (mon : Monitor) (m : Machine) :
    (print line).perform (mon, m) =
      (if (mon.out.writeText (line ++ "\n")).2 then .ok () else .error (.stream .shortWrite),
        { mon with out := (mon.out.writeText (line ++ "\n")).1 }, m) := by
  have h : (print line).perform (mon, m) =
      match mon.out.writeText (line ++ "\n") with
      | (out, true) => (.ok (), { mon with out }, m)
      | (out, false) => (.error (.stream .shortWrite), { mon with out }, m) := rfl
  rw [h]
  rcases mon.out.writeText (line ++ "\n") with ⟨out, _ | _⟩ <;> rfl

/-- Lines are printed up to the first for which there is not enough room. -/
theorem perform_printAll (lines : List String) (mon : Monitor) (m : Machine) :
    (printAll lines).perform (mon, m) =
      (if (mon.out.writeLines lines).2 then .ok () else .error (.stream .shortWrite),
        { mon with out := (mon.out.writeLines lines).1 }, m) := by
  induction lines generalizing mon with
  | nil => rfl
  | cons line lines ih =>
    rw [printAll, perform_bind, perform_print, Sink.writeLines]
    rcases mon.out.writeText (line ++ "\n") with ⟨out, _ | _⟩
    · rfl
    · exact ih _

/-- A step that neither reads nor writes the output. -/
def Silent (f : Monitor → Machine → Monitor × Machine) : Prop :=
  ∀ mon m out, f { mon with out } m = ({ (f mon m).1 with out }, (f mon m).2)

/-- How the monitor answers a command. -/
abbrev Answer := Monitor → Machine → Except MonitorError Reply

/-- An action comes to the same as an answer that is taken over as a whole. -/
def Follows (a : Action Unit) (answer : Answer) : Prop :=
  ∀ mon m, a.perform (mon, m) =
    ((mon.settle m (answer mon m)).2.2, (mon.settle m (answer mon m)).1,
      (mon.settle m (answer mon m)).2.1)

theorem Follows.of_eq {a : Action Unit} {answer answer' : Answer} (h : Follows a answer')
    (heq : ∀ mon m, answer mon m = answer' mon m) : Follows a answer := by
  intro mon m
  rw [heq, h mon m]

/-- Nothing is printed or changed before a look that fails. -/
theorem follows_look {read : Monitor → Machine → Except MonitorError α} {f : α → Action Unit}
    {answer : α → Answer} (h : ∀ v, Follows (f v) (answer v)) :
    Follows (look read >>= f) fun mon m => read mon m >>= fun v => answer v mon m := by
  intro mon m
  simp only [perform_bind, perform_look]
  cases read mon m with
  | error e => rfl
  | ok v => exact h v mon m

theorem follows_throw (e : MonitorError) : Follows (throw e) fun _ _ => .error e :=
  fun _ _ => rfl

theorem follows_printAll (lines : List String) :
    Follows (printAll lines) fun mon m => .ok ⟨lines, mon, m⟩ := by
  intro mon m
  rw [perform_printAll, settle_shown]

/-- What is changed once everything is printed might be changed at once. -/
theorem follows_printAll_change (lines : List String) {f : Monitor → Machine → Monitor × Machine}
    (hf : Silent f) :
    Follows (do printAll lines; change f) fun mon m => .ok ⟨lines, (f mon m).1, (f mon m).2⟩ := by
  intro mon m
  rw [perform_bind, perform_printAll, settle]
  rcases mon.out.writeLines lines with ⟨out, _ | _⟩
  · rfl
  · exact congrArg (Prod.mk _) (hf mon m out)

theorem follows_change {f : Monitor → Machine → Monitor × Machine} (hf : Silent f) :
    Follows (change f) fun mon m => .ok ⟨[], (f mon m).1, (f mon m).2⟩ :=
  follows_printAll_change [] hf

theorem follows_send (c : Command) : Follows (send c) fun mon m => .ok (mon.queued m c) :=
  follows_change fun _ _ _ => rfl

theorem follows_control (args : List String) (c : Command) :
    Follows (control args c) fun mon m => mon.control m args c :=
  follows_look fun _ => follows_send c

theorem follows_fileCommand (args : List String) (c : String → Command) :
    Follows (fileCommand args c) fun mon m => mon.fileCommand m args c :=
  follows_look fun _ => follows_send _

theorem follows_changeBreakpoints (name text : String) (f : Nat → List Nat → List Nat) :
    Follows (changeBreakpoints name text f) (fun mon m => do
      let location ← address text
      let i ← (m.indexOf name).mapError .machine
      .ok ⟨[], mon, m.updateWatch i fun w => { w with breakpoints := f location w.breakpoints }⟩) :=
  follows_look fun _ => follows_look fun _ => follows_change fun _ _ _ => rfl

theorem follows_setBreakpoint (name text : String) :
    Follows (changeBreakpoints name text Watch.insert) (fun mon m => do
      let location ← address text
      let m ← (m.setBreakpoint name location).mapError .machine
      .ok ⟨[], mon, m⟩) := by
  refine (follows_changeBreakpoints name text _).of_eq fun mon m => ?_
  cases address text with
  | error e => rfl
  | ok location =>
    simp only [ok_bind, Machine.setBreakpoint]
    cases m.indexOf name <;> rfl

theorem follows_clearBreakpoint (name text : String) :
    Follows (changeBreakpoints name text fun location ks => ks.erase location) (fun mon m => do
      let location ← address text
      let (_, m) ← (m.clearBreakpoint name location).mapError .machine
      .ok ⟨[], mon, m⟩) := by
  refine (follows_changeBreakpoints name text _).of_eq fun mon m => ?_
  cases address text with
  | error e => rfl
  | ok location =>
    simp only [ok_bind, Machine.clearBreakpoint]
    cases m.indexOf name <;> rfl

theorem follows_breakpoint (args : List String) :
    Follows (breakpoint args) fun mon m => mon.breakpoint m args := by
  refine follows_look fun _ => follows_look fun name => ?_
  split
  · exact follows_look fun _ => follows_printAll _
  · exact follows_setBreakpoint name _
  · exact follows_setBreakpoint name _
  · exact follows_clearBreakpoint name _
  · -- The last case is told by the words that it excludes.
    refine (follows_throw _).of_eq fun mon m => ?_
    simp_all

theorem follows_selectCore (args : List String) :
    Follows (selectCore args) fun mon m => mon.selectCore m args := by
  refine follows_look fun _ => ?_
  cases args with
  | nil => exact follows_look fun name => follows_look fun core => follows_printAll _
  | cons text args =>
    refine follows_look fun n => ?_
    refine (follows_look fun _ =>
      follows_change (f := fun mon m => ({ mon with core := n.toNat - 1 }, m))
        fun _ _ _ => rfl).of_eq fun _ _ => ?_
    split <;> rfl

theorem follows_registers (k : RegisterClass) (args : List String) :
    Follows (registers k args) fun mon m => mon.registers m k args := by
  refine follows_look fun _ => follows_look fun c => ?_
  split
  · exact follows_look fun _ => follows_printAll _
  · exact follows_look fun _ => follows_printAll _
  · exact follows_look fun _ => follows_look fun _ => follows_look fun _ =>
      follows_change fun _ _ _ => rfl

theorem follows_processor (args : List String) :
    Follows (processor args) fun mon m => mon.processor m args := by
  unfold processor Monitor.processor
  split
  · exact follows_look fun _ => follows_look fun _ => follows_printAll _
  · exact follows_registers _ _
  · exact follows_registers _ _
  · refine (follows_throw _).of_eq fun mon m => ?_
    simp_all

theorem follows_list (args : List String) :
    Follows (list args) fun mon m => mon.list m args := by
  refine follows_look fun _ => follows_look fun first => follows_look fun last =>
    follows_look fun c => ?_
  cases c.lister? with
  | none => exact follows_throw .noLister
  | some lister =>
    exact (follows_look fun pc => follows_look fun _ =>
      follows_printAll_change _ fun _ _ _ => rfl).of_eq fun _ _ => rfl

theorem follows_disassemble (args : List String) :
    Follows (disassemble args) fun mon m => mon.disassemble m args := by
  unfold disassemble Monitor.disassemble
  split
  · exact follows_list _
  · refine follows_look fun _ => ?_
    split
    · exact follows_look fun _ => follows_printAll _
    · exact follows_look fun _ => follows_change fun _ _ _ => rfl
  · refine (follows_list _).of_eq fun mon m => ?_
    simp_all

theorem follows_dump (args : List String) :
    Follows (dump args) fun mon m => mon.dump m args := by
  refine follows_look fun _ => follows_look fun first => follows_look fun last =>
    follows_look fun m' => ?_
  refine (follows_look fun set => follows_look fun c => follows_look fun first =>
    follows_look fun last => follows_printAll_change _ fun _ _ _ => rfl).of_eq fun mon _ => ?_
  cases m'.system.catalog.find? mon.encoding <;> rfl

theorem follows_selectEncoding (args : List String) :
    Follows (selectEncoding args) fun mon m => mon.selectEncoding m args := by
  refine follows_look fun _ => follows_look fun m' => ?_
  cases args with
  | nil => exact follows_look fun _ => follows_printAll _
  | cons name _ =>
    refine (follows_look fun _ =>
      follows_change (f := fun mon m => ({ mon with encoding := name }, m))
        fun _ _ _ => rfl).of_eq fun _ _ => ?_
    dsimp only
    split <;> rfl

theorem follows_memory (args : List String) :
    Follows (memory args) fun mon m => mon.memory m args := by
  unfold memory Monitor.memory
  split
  · exact follows_dump _
  · exact follows_selectEncoding _
  · refine follows_look fun _ => ?_
    split
    · exact follows_look fun _ => follows_printAll _
    · exact follows_look fun _ => follows_change fun _ _ _ => rfl
  · refine (follows_dump _).of_eq fun mon m => ?_
    simp_all

theorem follows_poke (args : List String) :
    Follows (poke args) fun mon m => mon.poke m args :=
  follows_look fun _ => follows_look fun _ => follows_look fun _ => follows_look fun _ =>
    follows_change fun _ _ _ => rfl

theorem follows_trace (args : List String) :
    Follows (trace args) fun mon m => mon.trace m args :=
  follows_look fun _ => follows_look fun _ => follows_look fun _ => follows_send _

theorem follows_traceAll (args : List String) :
    Follows (traceAll args) fun mon m => mon.traceAll m args :=
  follows_look fun _ => follows_look fun _ => follows_send _

/-- Quitting is the only command that changes things twice. -/
theorem follows_quit (args : List String) :
    Follows (do control args .quit; change fun mon m => ({ mon with quitting := true }, m))
      fun mon m => (mon.control m args .quit).map fun r =>
        { r with monitor := { r.monitor with quitting := true } } := by
  intro mon m
  rw [perform_bind, follows_control]
  simp only [Monitor.control]
  cases checkCount args 0 0 <;> rfl

theorem follows_respond (command : String) (args : List String) :
    Follows (respond command args) fun mon m => mon.respond m command args := by
  unfold respond Monitor.respond
  split
  · exact follows_breakpoint args
  · exact follows_breakpoint args
  · exact follows_selectCore args
  · exact follows_processor args
  · exact follows_list args
  · exact follows_disassemble args
  · exact follows_fileCommand args _
  · exact follows_control args _
  · exact follows_control args _
  · exact follows_fileCommand args _
  · exact follows_dump args
  · exact follows_memory args
  · exact follows_control args _
  · exact follows_control args _
  · exact follows_poke args
  · exact follows_quit args
  · exact follows_quit args
  · exact follows_look fun _ => follows_processor []
  · exact follows_fileCommand args _
  · exact follows_trace args
  · exact follows_trace args
  · exact follows_traceAll args
  · refine (follows_throw _).of_eq fun mon m => ?_
    simp_all

theorem follows_respondAgain :
    Follows respondAgain fun mon m => mon.respondAgain m := by
  intro mon m
  simp only [respondAgain, perform_bind, perform_look, Monitor.respondAgain]
  cases mon.last with
  | none => rfl
  | some repeated =>
    cases repeated with
    | listing => exact follows_list [] mon m
    | dump => exact follows_dump [] mon m

/-- The answer of the monitor to a command line is what the command comes to as it goes along. -/
theorem perform_eval (mon : Monitor) (m : Machine) (line : String) :
    (eval line).perform (mon, m) =
      ((mon.eval m line).2.2, (mon.eval m line).1, (mon.eval m line).2.1) := by
  simp only [eval, Monitor.eval]
  cases Text.words line with
  | nil => exact follows_respondAgain mon m
  | cons command args => exact follows_respond command args mon.forget (noted m line)

end Action

/-- A command line that fails, and not at the output, leaves the monitor and the machine alone, but
for what an empty line repeats and for the log. It has printed nothing and has not changed anything
on its way either: told as it goes along, the command ends in just the same place. -/
theorem failed_line_changes_nothing {mon : Monitor} {m : Machine} {line : String}
    {e : MonitorError} (h : (mon.eval m line).2.2 = .error e)
    (he : ∀ failure, e ≠ .stream failure) :
    (mon.eval m line).1 = { mon with last := if Text.words line = [] then mon.last else none } ∧
      (mon.eval m line).2.1 =
        { m with
          log := if Text.words line = [] then m.log
            else m.log.push ⟨.debug, logPart, "monitor: " ++ line⟩ } ∧
      (Action.eval line).perform (mon, m) =
        (.error e, (mon.eval m line).1, (mon.eval m line).2.1) := by
  have hkept : mon.eval m line =
      ({ mon with last := if Text.words line = [] then mon.last else none },
        { m with
          log := if Text.words line = [] then m.log
            else m.log.push ⟨.debug, logPart, "monitor: " ++ line⟩ }, .error e) := by
    rw [eval] at h ⊢
    cases hw : Text.words line with
    | nil =>
      rw [hw] at h
      exact settle_error h he
    | cons command args =>
      rw [hw] at h
      exact settle_error h he
  refine ⟨congrArg Prod.fst hkept, congrArg (·.2.1) hkept, ?_⟩
  rw [Action.perform_eval, h]

theorem failed_line_changes_nothing_of_poke :
    let mon : Monitor := { cursors := #[{}], encoding := "ascii", last := some .dump }
    let answer := mon.eval single "poke 0 1 2 zz"
    answer.2.2 = .error (.numeral (.invalidValue "zz")) ∧ answer.1 = mon.forget ∧
      answer.2.1 = noted single "poke 0 1 2 zz" := by
  intro mon answer
  have h : (mon.eval single "poke 0 1 2 zz").2.2 = .error (.numeral (.invalidValue "zz")) := rfl
  obtain ⟨hmon, hm, -⟩ := failed_line_changes_nothing h nofun
  have hwords : Text.words "poke 0 1 2 zz" ≠ [] := by decide
  rw [if_neg hwords] at hmon hm
  exact ⟨h, hmon, hm⟩

end EightBit.Monitor
