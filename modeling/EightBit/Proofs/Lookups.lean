import EightBit.Machine.Assembly
import EightBit.Proofs.Encodings
import EightBit.System.Demo

/-!
Command lines with every lookup checked.

Commands look the selected processor and its cursor up and reckon with the numbers of lines without
asking whether they may. Here they ask, and break down if they may not. As long as the monitor is
valid for its machine, no command ever breaks down, and a session is what it is without asking.
-/

namespace EightBit.Monitor

/-- What becomes of a command, unless it breaks down. -/
abbrev Checked (α : Type) := ExceptT MonitorError Option α

namespace Checked

variable {α β : Type}

def of (x : Except MonitorError α) : Checked α := ExceptT.mk (some x)

def breakdown : Checked α := ExceptT.mk none

def entry (xs : Array α) (i : Nat) : Checked α :=
  match xs[i]? with
  | some x => pure x
  | none => breakdown

def change (xs : Array α) (i : Nat) (f : α → α) : Checked (Array α) :=
  if i < xs.size then pure (xs.modify i f) else breakdown

/-- The difference of two numbers, which is never below zero. -/
def minus (a b : Nat) : Checked Nat := if b ≤ a then pure (a - b) else breakdown

end Checked

open Checked

def core? (mon : Monitor) (m : Machine) : Checked Core := do
  let p ← entry m.system.processors mon.core
  pure (p.core.connect m.system.latches)

def selected? (mon : Monitor) (m : Machine) : Checked Core := do
  let m ← of (sound m)
  mon.core? m

def edit? (mon : Monitor) (m : Machine) (f : Core → Core) : Checked Machine := do
  let _ ← entry m.system.processors mon.core
  pure { m with system := m.system.update mon.core f }

def cursor? (mon : Monitor) : Checked Cursor := entry mon.cursors mon.core

def moveCursor? (mon : Monitor) (f : Cursor → Cursor) : Checked Monitor := do
  let cursors ← change mon.cursors mon.core f
  pure { mon with cursors }

def selectCore? (mon : Monitor) (m : Machine) (args : List String) : Checked Reply := do
  of (checkCount args 0 1)
  match args with
  | [] =>
    let name ← of (mon.selectedName m)
    pure ⟨[toString (mon.core + 1) ++ " " ++ name], mon, m⟩
  | text :: _ =>
    let n ← of (byte text)
    if n = 0 ∨ mon.cursors.size < n.toNat then throw (.noSuchCore text)
    else
      let core ← minus n.toNat 1
      pure ⟨[], { mon with core }, m⟩

def registers? (mon : Monitor) (m : Machine) (k : RegisterClass) (args : List String) :
    Checked Reply := do
  of (checkCount args 0 2)
  let c ← mon.selected? m
  match args with
  | [] =>
    let values ← of ((c.values k).mapError .edit)
    pure ⟨values.map fun (name, v) => Text.padEnd 5 name ++ v.text, mon, m⟩
  | [name] =>
    let v ← of ((c.value k name).mapError .edit)
    pure ⟨[v.text], mon, m⟩
  | name :: text :: _ =>
    let old ← of ((c.value k name).mapError .edit)
    let v ← of (valueLike text old)
    let c ← of ((c.put k name v).mapError .edit)
    let m ← mon.edit? m fun _ => c
    pure ⟨[], mon, m⟩

def processor? (mon : Monitor) (m : Machine) : List String → Checked Reply
  | [] => do
    let c ← mon.selected? m
    pure ⟨["[" ++ m.status.name ++ "]\n" ++ c.display], mon, m⟩
  | "reg" :: args => mon.registers? m .register args
  | "flag" :: args => mon.registers? m .flag args
  | other :: _ => throw (.unknownCommand other)

def list? (mon : Monitor) (m : Machine) (args : List String) : Checked Reply := do
  of (checkCount args 0 2)
  let first ← of (optional address args[0]?)
  let last ← of (optional address args[1]?)
  let c ← mon.selected? m
  match c.lister? with
  | none => throw .noLister
  | some lister =>
    let k ← mon.cursor?
    let pc := (first.or k.listing).getD c.pc
    let page := match last with
      | some last => Listing.range lister c.code last pc
      | none => Listing.lines lister c.code mon.listingLines pc
    let mon ← mon.moveCursor? fun k => { k with listing := some page.2 }
    pure ⟨page.1.map (·.line), { mon with last := some .listing }, m⟩

def disassemble? (mon : Monitor) (m : Machine) : List String → Checked Reply
  | "list" :: args => mon.list? m args
  | "lines" :: args => of (mon.disassemble m ("lines" :: args))
  | args => mon.list? m args

/-- The address that a dump from `first` on ends at, if there is memory up to there. -/
def dumpEnd? (mon : Monitor) (first : Nat) : Option Nat → Checked Nat
  | some last => pure last
  | none => do
    let more ← minus (mon.dumpRows * Dump.width) 1
    pure (first + more)

def dump? (mon : Monitor) (m : Machine) (args : List String) : Checked Reply := do
  of (checkCount args 0 2)
  let first ← of (optional address args[0]?)
  let last ← of (optional address args[1]?)
  let m' ← of (sound m)
  match m'.system.catalog.find? mon.encoding with
  | none => throw (.noSuchEncoding mon.encoding)
  | some set =>
    let c ← mon.core? m'
    let k ← mon.cursor?
    let first := (first.or k.dump).getD c.pc
    let last ← mon.dumpEnd? first last
    let last := Dump.clamp c.mem.size last
    let mon ← mon.moveCursor? fun k => { k with dump := some (last + 1) }
    pure ⟨Dump.rows c.code c.mem.size set first last, { mon with last := some .dump }, m⟩

def memory? (mon : Monitor) (m : Machine) : List String → Checked Reply
  | "dump" :: args => mon.dump? m args
  | "encoding" :: args => of (mon.selectEncoding m args)
  | "lines" :: args => of (mon.memory m ("lines" :: args))
  | args => mon.dump? m args

def poke? (mon : Monitor) (m : Machine) (args : List String) : Checked Reply := do
  of (checkCount args 2 0x100)
  let addr ← of (address (args.headD ""))
  let bytes ← of (each byte args.tail)
  let _ ← mon.selected? m
  let m ← mon.edit? m (Core.mapMemory fun mem l => mem.writeAll l addr bytes)
  pure ⟨[], mon, m⟩

def respond? (mon : Monitor) (m : Machine) (command : String) (args : List String) :
    Checked Reply :=
  match command with
  | "core" => mon.selectCore? m args
  | "cpu" => mon.processor? m args
  | "d" => mon.list? m args
  | "dasm" => mon.disassemble? m args
  | "m" => mon.dump? m args
  | "mem" => mon.memory? m args
  | "poke" => mon.poke? m args
  | "r" => do
    of (checkCount args 0 0)
    mon.processor? m []
  | _ => of (mon.respond m command args)

def respondAgain? (mon : Monitor) (m : Machine) : Checked Reply :=
  match mon.last with
  | some .listing => mon.list? m []
  | some .dump => mon.dump? m []
  | none => pure ⟨[], mon, m⟩

/-- What becomes of a line, unless the command breaks down. -/
def eval? (mon : Monitor) (m : Machine) (line : String) :
    Option (Monitor × Machine × Except MonitorError Unit) :=
  match Text.words line with
  | [] => (mon.respondAgain? m).run.map (mon.settle m)
  | command :: args =>
    (mon.forget.respond? (noted m line) command args).run.map (mon.forget.settle (noted m line))

def pass? (s : Monitor × Machine) : Moment → Option (Monitor × Machine)
  | .line text => (s.1.eval? s.2 text).map fun (mon, m, _) => (mon, m)
  | .act a => some (s.1, s.2.act a)

/-- It does not break down and comes to `y`. -/
def Completes {α : Type} (x : Checked α) (y : Except MonitorError α) : Prop := x.run = some y

section Checked

variable {α β : Type}

theorem completes_of (y : Except MonitorError α) : Completes (of y) y := rfl

theorem completes_pure (a : α) : Completes (pure a) (.ok a) := rfl

theorem completes_throw (e : MonitorError) : Completes (throw e : Checked α) (.error e) := rfl

theorem Completes.bind {x : Checked α} {y : Except MonitorError α} {f : α → Checked β}
    {g : α → Except MonitorError β} (hx : Completes x y)
    (hf : ∀ a, y = .ok a → Completes (f a) (g a)) : Completes (x >>= f) (y >>= g) := by
  rw [Completes, ExceptT.run_bind, hx]
  cases y with
  | error e => rfl
  | ok a => exact hf a rfl

theorem Completes.bind_ok {x : Checked α} {a : α} {f : α → Checked β} {y : Except MonitorError β}
    (hx : Completes x (.ok a)) (hf : Completes (f a) y) : Completes (x >>= f) y := by
  rw [Completes, ExceptT.run_bind, hx]
  exact hf

theorem completes_entry {xs : Array α} {i : Nat} {x : α} (h : xs[i]? = some x) :
    Completes (entry xs i) (.ok x) := by
  rw [entry, h]
  exact completes_pure x

theorem completes_change {xs : Array α} {i : Nat} (h : i < xs.size) (f : α → α) :
    Completes (change xs i f) (.ok (xs.modify i f)) := by
  rw [change, if_pos h]
  exact completes_pure _

theorem completes_minus {a b : Nat} (h : b ≤ a) : Completes (minus a b) (.ok (a - b)) := by
  rw [minus, if_pos h]
  exact completes_pure _

end Checked

section Commands

variable {mon : Monitor} {m : Machine}

theorem Valid.cursor_lt (h : mon.Valid m) : mon.core < mon.cursors.size := h.cursors ▸ h.core

theorem Valid.completes_core (h : mon.Valid m) (hsound : sound m = .ok m) :
    Completes (mon.core? m) (mon.selected m) := by
  have hentry := Array.getElem?_eq_getElem h.core
  rw [selected, hsound, ok_bind, System.core?, hentry]
  exact (completes_entry hentry).bind_ok (completes_pure _)

theorem Valid.completes_selected (h : mon.Valid m) :
    Completes (mon.selected? m) (mon.selected m) := by
  cases hm : sound m with
  | error e =>
    rw [selected?, selected, hm]
    rfl
  | ok m' =>
    obtain rfl := sound_ok hm
    rw [selected?, hm]
    exact (completes_of _).bind_ok (h.completes_core hm)

theorem Valid.completes_edit (h : mon.Valid m) (f : Core → Core) :
    Completes (mon.edit? m f) (.ok { m with system := m.system.update mon.core f }) :=
  (completes_entry (Array.getElem?_eq_getElem h.core)).bind_ok (completes_pure _)

theorem Valid.completes_cursor (h : mon.Valid m) : Completes mon.cursor? (.ok mon.cursor) := by
  have hentry := Array.getElem?_eq_getElem h.cursor_lt
  rw [cursor, Array.getD_eq_getD_getElem?, hentry]
  exact completes_entry hentry

theorem Valid.completes_moveCursor (h : mon.Valid m) (f : Cursor → Cursor) :
    Completes (mon.moveCursor? f) (.ok (mon.moveCursor f)) :=
  (completes_change h.cursor_lt f).bind_ok (completes_pure _)

/-- A dump has at least one row, so one can be taken away from the number of its bytes. -/
theorem Valid.completes_dumpEnd (h : mon.Valid m) (first : Nat) (last : Option Nat) :
    Completes (mon.dumpEnd? first last)
      (.ok (last.getD (first + (mon.dumpRows * Dump.width - 1)))) := by
  cases last with
  | none =>
    have hbytes : 1 ≤ mon.dumpRows * Dump.width := Nat.mul_pos h.dumpRows.1 (by decide)
    exact (completes_minus hbytes).bind_ok (completes_pure _)
  | some last => exact completes_pure last

variable (args : List String)

/-- The number of a processor is not zero where one is taken away from it. -/
theorem completes_selectCore :
    Completes (mon.selectCore? m args) (mon.selectCore m args) := by
  refine (completes_of _).bind fun _ _ => ?_
  cases args with
  | nil => exact (completes_of _).bind fun _ _ => completes_pure _
  | cons text rest =>
    refine (completes_of _).bind fun n _ => ?_
    split
    · exact completes_throw _
    · next hn =>
      have hpos : 1 ≤ n.toNat :=
        Nat.pos_of_ne_zero fun hzero => hn (.inl (UInt8.toNat_inj.mp hzero))
      exact (completes_minus hpos).bind_ok (completes_pure _)

theorem Valid.completes_registers (h : mon.Valid m) (k : RegisterClass) :
    Completes (mon.registers? m k args) (mon.registers m k args) := by
  refine (completes_of _).bind fun _ _ => h.completes_selected.bind fun c _ => ?_
  split
  · exact (completes_of _).bind fun _ _ => completes_pure _
  · exact (completes_of _).bind fun _ _ => completes_pure _
  · refine (completes_of _).bind fun old _ => (completes_of _).bind fun v _ => ?_
    exact (completes_of _).bind fun c _ => (h.completes_edit _).bind_ok (completes_pure _)

theorem Valid.completes_processor (h : mon.Valid m) :
    Completes (mon.processor? m args) (mon.processor m args) := by
  fun_cases processor mon m args with
  | case1 => exact h.completes_selected.bind fun _ _ => completes_pure _
  | case2 args => exact h.completes_registers args .register
  | case3 args => exact h.completes_registers args .flag
  | case4 other rest hreg hflag =>
    rw [processor?]
    · exact completes_throw _
    · exact hreg
    · exact hflag

theorem Valid.completes_list (h : mon.Valid m) :
    Completes (mon.list? m args) (mon.list m args) := by
  refine (completes_of _).bind fun _ _ => (completes_of _).bind fun first _ => ?_
  refine (completes_of _).bind fun last _ => h.completes_selected.bind fun c _ => ?_
  cases c.lister? with
  | none => exact completes_throw _
  | some lister =>
    exact h.completes_cursor.bind_ok ((h.completes_moveCursor _).bind_ok (completes_pure _))

theorem Valid.completes_disassemble (h : mon.Valid m) :
    Completes (mon.disassemble? m args) (mon.disassemble m args) := by
  fun_cases disassemble mon m args with
  | case1 args => exact h.completes_list args
  | case2 args => exact completes_of _
  | case3 args hlist hlines =>
    rw [disassemble?]
    · exact h.completes_list args
    · exact hlist
    · exact hlines

theorem Valid.completes_dump (h : mon.Valid m) :
    Completes (mon.dump? m args) (mon.dump m args) := by
  refine (completes_of _).bind fun _ _ => (completes_of _).bind fun first _ => ?_
  refine (completes_of _).bind fun last _ => (completes_of _).bind fun m' hm => ?_
  obtain rfl := sound_ok hm
  cases m'.system.catalog.find? mon.encoding with
  | none => exact completes_throw _
  | some set =>
    refine (h.completes_core hm).bind fun c _ => h.completes_cursor.bind_ok ?_
    refine (h.completes_dumpEnd _ last).bind_ok ?_
    exact (h.completes_moveCursor _).bind_ok (completes_pure _)

theorem Valid.completes_memory (h : mon.Valid m) :
    Completes (mon.memory? m args) (mon.memory m args) := by
  fun_cases memory mon m args with
  | case1 args => exact h.completes_dump args
  | case2 args => exact completes_of _
  | case3 args => exact completes_of _
  | case4 args hdump hencoding hlines =>
    rw [memory?]
    · exact h.completes_dump args
    · exact hdump
    · exact hencoding
    · exact hlines

theorem Valid.completes_poke (h : mon.Valid m) :
    Completes (mon.poke? m args) (mon.poke m args) := by
  refine (completes_of _).bind fun _ _ => (completes_of _).bind fun addr _ => ?_
  refine (completes_of _).bind fun bytes _ => h.completes_selected.bind fun _ _ => ?_
  exact (h.completes_edit _).bind_ok (completes_pure _)

theorem Valid.completes_respond (h : mon.Valid m) (command : String) :
    Completes (mon.respond? m command args) (mon.respond m command args) := by
  rw [respond?.eq_def]
  split
  · exact completes_selectCore args
  · exact h.completes_processor args
  · exact h.completes_list args
  · exact h.completes_disassemble args
  · exact h.completes_dump args
  · exact h.completes_memory args
  · exact h.completes_poke args
  · exact (completes_of _).bind fun _ _ => h.completes_processor []
  · exact completes_of _

theorem Valid.completes_respondAgain (h : mon.Valid m) :
    Completes (mon.respondAgain? m) (mon.respondAgain m) := by
  fun_cases respondAgain mon m with
  | case1 hlast =>
    rw [respondAgain?, hlast]
    exact h.completes_list []
  | case2 hlast =>
    rw [respondAgain?, hlast]
    exact h.completes_dump []
  | case3 hlast =>
    rw [respondAgain?, hlast]
    exact completes_pure _

theorem Valid.eval?_eq (h : mon.Valid m) (line : String) :
    mon.eval? m line = some (mon.eval m line) := by
  cases hwords : Text.words line with
  | nil =>
    rw [eval_of_words_nil mon m hwords, eval?, hwords]
    exact congrArg (Option.map (mon.settle m)) h.completes_respondAgain
  | cons command args =>
    have hnoted : mon.forget.Valid (noted m line) := { h with }
    rw [eval_of_words_cons mon m hwords, eval?, hwords]
    exact congrArg (Option.map _) (hnoted.completes_respond args command)

end Commands

section Sessions

variable {s : Monitor × Machine}

theorem pass?_eq (h : s.1.Valid s.2) (moment : Moment) :
    pass? s moment = some (pass s moment) := by
  cases moment with
  | line text =>
    rw [pass?, h.eval?_eq]
    rfl
  | act a => rfl

theorem foldlM_pass? (h : s.1.Valid s.2) (moments : List Moment) :
    moments.foldlM pass? s = some (passAll s moments) := by
  induction moments generalizing s with
  | nil => rfl
  | cons moment moments ih =>
    rw [List.foldlM_cons, pass?_eq h]
    exact ih (valid_pass h moment)

end Sessions

/-- Whatever is typed into a new monitor, whether it fails or not, and whatever the machine does in
between: the selected processor exists and every processor has its cursors, the selected character
set is there, and a listing and a dump have as many lines as can be set. So no command breaks down
at a lookup or at the number of bytes of a dump, and a character set is missing only when a line
selects one of a name that there is not. -/
theorem sessions_stay_valid {m : Machine} {mon : Monitor} {out : Sink}
    (hprocessors : 0 < m.system.processors.size) (hcatalog : m.system.catalog.Made)
    (hmon : ofMachine m out = .ok mon) (moments : List Moment) :
    let s := passAll (mon, m) moments
    s.1.Valid s.2 ∧ moments.foldlM pass? (mon, m) = some s ∧
      ∀ line name, (s.1.eval s.2 line).2.2 = .error (.noSuchEncoding name) →
        Text.words line = ["mem", "encoding", name] ∧ name ∉ s.2.system.catalog.names := by
  intro s
  have hstart : mon.Valid m := valid_ofMachine hmon hprocessors hcatalog
  have hend : s.1.Valid s.2 := valid_passAll (s := (mon, m)) hstart moments
  exact ⟨hend, foldlM_pass? (s := (mon, m)) hstart moments, fun _ _ => hend.eval_noSuchEncoding⟩

/-- Neither a third processor nor a dump of no lines nor a character set that is not there can be
selected on the dual system. -/
theorem sessions_stay_valid_on_dual :
    let m := Machine.ofSystem System.dual 1
    let mon : Monitor := { cursors := #[{}, {}], encoding := "petscii" }
    let moments : List Moment := [.line "core 2", .line "core 3", .line "mem lines 0",
      .line "mem encoding latin", .line "go", .act .quantum, .line "m", .line ""]
    0 < m.system.processors.size ∧ m.system.catalog.Made ∧ ofMachine m {} = .ok mon ∧
      let s := passAll (mon, m) moments
      s.1.Valid s.2 ∧ moments.foldlM pass? (mon, m) = some s ∧
        ∀ line name, (s.1.eval s.2 line).2.2 = .error (.noSuchEncoding name) →
          Text.words line = ["mem", "encoding", name] ∧ name ∉ s.2.system.catalog.names := by
  intro m mon moments
  have hprocessors : 0 < m.system.processors.size := by decide
  have hcatalog : m.system.catalog.Made := Catalog.made_commodore
  have hmon : ofMachine m {} = .ok mon := rfl
  exact ⟨hprocessors, hcatalog, hmon, sessions_stay_valid hprocessors hcatalog hmon moments⟩

/-- A monitor that is not valid breaks down: here a dump would have no line, there the processor
does not exist. -/
example :
    ({ cursors := #[{}], encoding := "ascii", dumpRows := 0 } : Monitor).eval? single "m" = none ∧
      ({ cursors := #[{}], encoding := "ascii", core := 1 } : Monitor).eval? single "r" = none :=
  ⟨rfl, rfl⟩

end EightBit.Monitor
