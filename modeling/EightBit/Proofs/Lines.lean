import EightBit.Monitor
import EightBit.Proofs.History

/-!
What an operator's command lines do to a machine and to the monitor.
-/

namespace EightBit.Monitor

/-- A machine before and after a command line: it is left alone, or one act is done to it. Commands
are only queued, and only the selected processor is edited. -/
inductive Touches (core : Nat) (m : Machine) : Machine → Prop
  | left : Touches core m m
  | sent (c : Command) : Touches core m (m.act (.send c))
  | set (name : String) (location : Nat) : Touches core m (m.act (.setBreakpoint name location))
  | cleared (name : String) (location : Nat) :
      Touches core m (m.act (.clearBreakpoint name location))
  | edited (f : Core → Core) : Touches core m (m.act (.edit core f))

def LineCount (n : Nat) : Prop := 1 ≤ n ∧ n ≤ 65535

/-- A monitor before and after an answer: it is left alone, or one thing about it changes. Cursors
move only where the selected processor has its own, and only character sets that have a name are
selected. -/
inductive Turns (names : List String) (mon : Monitor) : Monitor → Prop
  | kept : Turns names mon mon
  | selected {i : Nat} (hi : i < mon.cursors.size) : Turns names mon { mon with core := i }
  | moved (f : Cursor → Cursor) (again : Repeated) :
      Turns names mon { mon.moveCursor f with last := some again }
  | listingLines {n : Nat} (hn : LineCount n) : Turns names mon { mon with listingLines := n }
  | dumpRows {n : Nat} (hn : LineCount n) : Turns names mon { mon with dumpRows := n }
  | encoding {name : String} (hname : name ∈ names) : Turns names mon { mon with encoding := name }
  | quit : Turns names mon { mon with quitting := true }

structure Answers (mon : Monitor) (m : Machine) (r : Reply) : Prop where
  turns : mon.Turns m.system.catalog.names r.monitor
  touches : Touches mon.core m r.machine

section Except

variable {ε δ α β : Type}

theorem bind_ok {x : Except ε α} {f : α → Except ε β} {b : β} (h : (x >>= f) = .ok b) :
    ∃ a, x = .ok a ∧ f a = .ok b := by
  cases x with
  | error e => cases h
  | ok a => exact ⟨a, rfl, h⟩

theorem map_ok {x : Except ε α} {f : α → β} {b : β} (h : x.map f = .ok b) :
    ∃ a, x = .ok a ∧ f a = b := by
  cases x with
  | error e => cases h
  | ok a => exact ⟨a, rfl, Except.ok.inj h⟩

theorem mapError_ok {x : Except ε α} {f : ε → δ} {a : α} (h : x.mapError f = .ok a) :
    x = .ok a := by
  cases x with
  | error e => cases h
  | ok a => exact congrArg Except.ok (Except.ok.inj h)

end Except

/-- A machine that can be used is the one that there was. -/
theorem sound_ok {m m' : Machine} (h : sound m = .ok m') : m' = m := by
  have hsound := mapError_ok h
  rw [Machine.sound] at hsound
  split at hsound
  · cases hsound
  · exact (Except.ok.inj hsound).symm

section Replies

variable {mon : Monitor} {m : Machine} {args : List String} {r : Reply}

theorem control_ok {c : Command} (h : mon.control m args c = .ok r) : r = mon.queued m c := by
  obtain ⟨-, -, h⟩ := bind_ok h
  exact (Except.ok.inj h).symm

theorem control_answers {c : Command} (h : mon.control m args c = .ok r) : Answers mon m r := by
  rw [control_ok h]
  exact ⟨.kept, .sent c⟩

theorem fileCommand_answers {c : String → Command} (h : mon.fileCommand m args c = .ok r) :
    Answers mon m r := by
  obtain ⟨-, -, h⟩ := bind_ok h
  cases h
  exact ⟨.kept, .sent _⟩

theorem breakpoint_answers (h : mon.breakpoint m args = .ok r) : Answers mon m r := by
  obtain ⟨-, -, h⟩ := bind_ok h
  obtain ⟨name, -, h⟩ := bind_ok h
  have hset {text : String} {r : Reply}
      (h : (do
        let location ← address text
        let m ← (m.setBreakpoint name location).mapError .machine
        .ok ⟨[], mon, m⟩ : Except MonitorError Reply) = .ok r) : Answers mon m r := by
    obtain ⟨location, -, h⟩ := bind_ok h
    obtain ⟨m', hm, h⟩ := bind_ok h
    cases h
    have hact : m.act (.setBreakpoint name location) = m' := by
      simp only [Machine.act, Machine.prepare, mapError_ok hm, Machine.orElse]
    exact ⟨.kept, hact ▸ .set name location⟩
  dsimp only at h
  split at h
  · obtain ⟨locations, -, h⟩ := bind_ok h
    cases h
    exact ⟨.kept, .left⟩
  · exact hset h
  · exact hset h
  · obtain ⟨location, -, h⟩ := bind_ok h
    obtain ⟨⟨was, m'⟩, hm, h⟩ := bind_ok h
    cases h
    have hact : m.act (.clearBreakpoint name location) = m' := by
      simp only [Machine.act, Machine.prepare, mapError_ok hm, Machine.orElse, Except.map]
    exact ⟨.kept, hact ▸ .cleared name location⟩
  · cases h

theorem selectCore_answers (h : mon.selectCore m args = .ok r) : Answers mon m r := by
  obtain ⟨-, -, h⟩ := bind_ok h
  split at h
  · obtain ⟨name, -, h⟩ := bind_ok h
    cases h
    exact ⟨.kept, .left⟩
  · obtain ⟨n, -, h⟩ := bind_ok h
    split at h
    · cases h
    · next hn =>
      cases h
      have hzero : n.toNat ≠ 0 := fun hzero => hn (.inl (UInt8.toNat_inj.mp hzero))
      exact ⟨.selected (by omega), .left⟩

theorem registers_answers {k : RegisterClass} (h : mon.registers m k args = .ok r) :
    Answers mon m r := by
  obtain ⟨-, -, h⟩ := bind_ok h
  obtain ⟨c, -, h⟩ := bind_ok h
  split at h
  · obtain ⟨values, -, h⟩ := bind_ok h
    cases h
    exact ⟨.kept, .left⟩
  · obtain ⟨v, -, h⟩ := bind_ok h
    cases h
    exact ⟨.kept, .left⟩
  · obtain ⟨old, -, h⟩ := bind_ok h
    obtain ⟨v, -, h⟩ := bind_ok h
    obtain ⟨c, -, h⟩ := bind_ok h
    cases h
    exact ⟨.kept, .edited fun _ => c⟩

theorem processor_answers (h : mon.processor m args = .ok r) : Answers mon m r := by
  rw [processor.eq_def] at h
  split at h
  · obtain ⟨c, -, h⟩ := bind_ok h
    cases h
    exact ⟨.kept, .left⟩
  · exact registers_answers h
  · exact registers_answers h
  · cases h

theorem list_answers (h : mon.list m args = .ok r) : Answers mon m r := by
  obtain ⟨-, -, h⟩ := bind_ok h
  obtain ⟨first, -, h⟩ := bind_ok h
  obtain ⟨last, -, h⟩ := bind_ok h
  obtain ⟨c, -, h⟩ := bind_ok h
  split at h
  · cases h
  · cases h
    exact ⟨.moved _ .listing, .left⟩

theorem dump_answers (h : mon.dump m args = .ok r) : Answers mon m r := by
  obtain ⟨-, -, h⟩ := bind_ok h
  obtain ⟨first, -, h⟩ := bind_ok h
  obtain ⟨last, -, h⟩ := bind_ok h
  obtain ⟨m', -, h⟩ := bind_ok h
  split at h
  · cases h
  · obtain ⟨c, -, h⟩ := bind_ok h
    cases h
    exact ⟨.moved _ .dump, .left⟩

theorem lineCount_ok {text : String} {n : Nat} (h : lineCount text = .ok n) : LineCount n := by
  obtain ⟨w, -, h⟩ := bind_ok h
  split at h
  · cases h
  · next hw =>
    cases h
    have hpos : 0 < w.toNat := Nat.pos_of_ne_zero fun hzero => hw (UInt16.toNat_inj.mp hzero)
    exact ⟨hpos, Nat.le_of_lt_succ w.toNat_lt⟩

theorem disassemble_answers (h : mon.disassemble m args = .ok r) : Answers mon m r := by
  rw [disassemble.eq_def] at h
  split at h
  · exact list_answers h
  · obtain ⟨-, -, h⟩ := bind_ok h
    split at h
    · cases h
      exact ⟨.kept, .left⟩
    · obtain ⟨n, hn, h⟩ := bind_ok h
      cases h
      exact ⟨.listingLines (lineCount_ok hn), .left⟩
  · exact list_answers h

theorem selectEncoding_answers (h : mon.selectEncoding m args = .ok r) :
    Answers mon m r := by
  obtain ⟨-, -, h⟩ := bind_ok h
  obtain ⟨m', hm, h⟩ := bind_ok h
  obtain rfl := sound_ok hm
  dsimp only at h
  split at h
  · cases h
    exact ⟨.kept, .left⟩
  · split at h
    · next hname =>
      cases h
      exact ⟨.encoding (List.contains_iff_mem.mp hname), .left⟩
    · cases h

theorem memory_answers (h : mon.memory m args = .ok r) : Answers mon m r := by
  rw [memory.eq_def] at h
  split at h
  · exact dump_answers h
  · exact selectEncoding_answers h
  · obtain ⟨-, -, h⟩ := bind_ok h
    split at h
    · cases h
      exact ⟨.kept, .left⟩
    · obtain ⟨n, hn, h⟩ := bind_ok h
      cases h
      exact ⟨.dumpRows (lineCount_ok hn), .left⟩
  · exact dump_answers h

theorem poke_answers (h : mon.poke m args = .ok r) : Answers mon m r := by
  obtain ⟨-, -, h⟩ := bind_ok h
  obtain ⟨addr, -, h⟩ := bind_ok h
  obtain ⟨bytes, -, h⟩ := bind_ok h
  obtain ⟨c, -, h⟩ := bind_ok h
  cases h
  exact ⟨.kept, .edited _⟩

theorem trace_answers (h : mon.trace m args = .ok r) : Answers mon m r := by
  obtain ⟨-, -, h⟩ := bind_ok h
  obtain ⟨on, -, h⟩ := bind_ok h
  obtain ⟨name, -, h⟩ := bind_ok h
  cases h
  exact ⟨.kept, .sent _⟩

theorem traceAll_answers (h : mon.traceAll m args = .ok r) : Answers mon m r := by
  obtain ⟨-, -, h⟩ := bind_ok h
  obtain ⟨on, -, h⟩ := bind_ok h
  cases h
  exact ⟨.kept, .sent _⟩

theorem respond_answers {command : String} (h : mon.respond m command args = .ok r) :
    Answers mon m r := by
  rw [respond.eq_def] at h
  split at h
  · exact breakpoint_answers h
  · exact breakpoint_answers h
  · exact selectCore_answers h
  · exact processor_answers h
  · exact list_answers h
  · exact disassemble_answers h
  · exact fileCommand_answers h
  · exact control_answers h
  · exact control_answers h
  · exact fileCommand_answers h
  · exact dump_answers h
  · exact memory_answers h
  · exact control_answers h
  · exact control_answers h
  · exact poke_answers h
  · obtain ⟨r, hr, rfl⟩ := map_ok h
    rw [control_ok hr]
    exact ⟨.quit, .sent .quit⟩
  · obtain ⟨r, hr, rfl⟩ := map_ok h
    rw [control_ok hr]
    exact ⟨.quit, .sent .quit⟩
  · obtain ⟨-, -, h⟩ := bind_ok h
    exact processor_answers h
  · exact fileCommand_answers h
  · exact trace_answers h
  · exact trace_answers h
  · exact traceAll_answers h
  · cases h

theorem respondAgain_answers (h : mon.respondAgain m = .ok r) : Answers mon m r := by
  rw [respondAgain] at h
  split at h
  · exact list_answers h
  · exact dump_answers h
  · cases h
    exact ⟨.kept, .left⟩

theorem settle_touches {reply : Except MonitorError Reply}
    (h : ∀ r, reply = .ok r → Touches mon.core m r.machine) :
    Touches mon.core m (mon.settle m reply).2.1 := by
  cases reply with
  | error e => exact .left
  | ok r =>
    simp only [settle]
    rcases mon.out.writeLines r.lines with ⟨out, _ | _⟩
    · exact .left
    · exact h r rfl

end Replies

/-- Beside the log, a command line does at most one thing to a machine, and none of it is a step. -/
theorem eval_touches (mon : Monitor) (m : Machine) (line : String) :
    ∃ log, Touches mon.core { m with log } (mon.eval m line).2.1 := by
  rw [eval]
  cases Text.words line with
  | nil => exact ⟨m.log, settle_touches fun _ h => (respondAgain_answers h).touches⟩
  | cons command args =>
    refine ⟨_, @settle_touches { mon with last := none } _ _ fun r h => ?_⟩
    exact (respond_answers h).touches

end EightBit.Monitor
