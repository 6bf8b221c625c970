import EightBit.Monitor
import EightBit.Proofs.Words

/-!
What becomes of a command line.

A line of words is taken apart into a command and its arguments. The machine notes it in the log,
the monitor forgets what an empty line would repeat, and the answer to the command is printed and
taken over.
-/

namespace EightBit.Monitor

/-- The monitor with nothing for an empty line to repeat. -/
def forget (mon : Monitor) : Monitor := { mon with last := none }

def noted (m : Machine) (line : String) : Machine :=
  { m with log := m.log.push ⟨.debug, logPart, "monitor: " ++ line⟩ }

/-- Some lines, one after the other, whether they fail or not. -/
def evalEach (mon : Monitor) (m : Machine) : List String → Monitor × Machine
  | [] => (mon, m)
  | line :: lines => (mon.eval m line).1.evalEach (mon.eval m line).2.1 lines

theorem eval_of_words_nil (mon : Monitor) (m : Machine) {line : String}
    (h : Text.words line = []) : mon.eval m line = mon.settle m (mon.respondAgain m) := by
  rw [eval, h]

theorem eval_of_words_cons (mon : Monitor) (m : Machine) {line command : String}
    {args : List String} (h : Text.words line = command :: args) :
    mon.eval m line =
      mon.forget.settle (noted m line) (mon.forget.respond (noted m line) command args) := by
  rw [eval, h]
  rfl

theorem eval_line (mon : Monitor) (m : Machine) {command : String} {args : List String}
    (h : ∀ w ∈ command :: args, Text.IsWord w) :
    mon.eval m (Text.line (command :: args)) =
      mon.forget.settle (noted m (Text.line (command :: args)))
        (mon.forget.respond (noted m (Text.line (command :: args))) command args) :=
  eval_of_words_cons mon m (Text.words_line h)

/-- The lines of an answer are printed, and it is taken over only if there was room for them. -/
theorem settle_ok (mon : Monitor) (m : Machine) (r : Reply) :
    mon.settle m (.ok r) =
      if (mon.out.writeLines r.lines).2 then
        ({ r.monitor with out := (mon.out.writeLines r.lines).1 }, r.machine, .ok ())
      else
        ({ mon with out := (mon.out.writeLines r.lines).1 }, m, .error (.stream .shortWrite)) := by
  simp only [settle]
  rcases mon.out.writeLines r.lines with ⟨out, _ | _⟩
  · rfl
  · rfl

theorem out_settle (mon : Monitor) (m : Machine) (r : Reply) :
    (mon.settle m (.ok r)).1.out = (mon.out.writeLines r.lines).1 := by
  rw [settle_ok]
  split
  · rfl
  · rfl

/-- What holds of a monitor and a machine, whatever the output, and of the answer too, still holds
once the answer has been printed. -/
theorem settle_keeps {P : Monitor → Machine → Prop}
    (hout : ∀ mon m out, P mon m → P { mon with out } m) {mon : Monitor} {m : Machine}
    (h : P mon m) {reply : Except MonitorError Reply}
    (hreply : ∀ r, reply = .ok r → P r.monitor r.machine) :
    P (mon.settle m reply).1 (mon.settle m reply).2.1 := by
  cases reply with
  | error e => exact h
  | ok r =>
    rw [settle_ok]
    split
    · exact hout _ _ _ (hreply r rfl)
    · exact hout _ _ _ h

/-- A command without an answer has no trouble with the output. -/
theorem settle_nil (mon mon' : Monitor) (m m' : Machine) :
    mon.settle m (.ok ⟨[], mon', m'⟩) = ({ mon' with out := mon.out }, m', .ok ()) := rfl

/-- A command that only shows something changes nothing but the output. -/
theorem settle_shown (mon : Monitor) (m : Machine) (lines : List String) :
    mon.settle m (.ok ⟨lines, mon, m⟩) =
      ({ mon with out := (mon.out.writeLines lines).1 }, m,
        if (mon.out.writeLines lines).2 then .ok () else .error (.stream .shortWrite)) := by
  rw [settle_ok]
  split
  · rfl
  · rfl

/-- What is wrong with a line, if it is not the output, is wrong with the answer. -/
theorem reply_of_settle {mon : Monitor} {m : Machine} {reply : Except MonitorError Reply}
    {e : MonitorError} (h : (mon.settle m reply).2.2 = .error e)
    (he : ∀ failure, e ≠ .stream failure) : reply = .error e := by
  cases reply with
  | error e' =>
    cases h
    rfl
  | ok r =>
    rw [settle_ok] at h
    split at h
    · cases h
    · cases h
      exact absurd rfl (he _)

/-- An answer that fails at anything but the output leaves everything as it was. -/
theorem settle_error {mon : Monitor} {m : Machine} {reply : Except MonitorError Reply}
    {e : MonitorError} (h : (mon.settle m reply).2.2 = .error e)
    (he : ∀ failure, e ≠ .stream failure) : mon.settle m reply = (mon, m, .error e) := by
  rw [reply_of_settle h he]
  rfl

section Except

variable {ε δ α β : Type}

theorem ok_bind (a : α) (f : α → Except ε β) : (Except.ok a >>= f) = f a := rfl

theorem mapError_of_ok {x : Except ε α} {a : α} (h : x = .ok a) (f : ε → δ) :
    x.mapError f = .ok a := by
  rw [h]
  rfl

theorem map_of_ok {x : Except ε α} {a : α} (h : x = .ok a) (f : α → β) :
    x.map f = .ok (f a) := by
  rw [h]
  rfl

end Except

theorem sound_of_not_poisoned {m : Machine} (h : m.poisoned = false) : sound m = .ok m := by
  rw [sound, Machine.sound, h]
  rfl

theorem selected_of_core? {mon : Monitor} {m : Machine} {c : Core} (h : m.poisoned = false)
    (hc : m.system.core? mon.core = some c) : mon.selected m = .ok c := by
  simp only [selected, sound_of_not_poisoned h, ok_bind, hc]

theorem selectedName_of_sound {mon : Monitor} {m : Machine} (h : m.poisoned = false) :
    mon.selectedName m = .ok (m.processorName mon.core) := by
  rw [selectedName, sound_of_not_poisoned h]
  rfl

def single : Machine :=
  .assemble (fun _ => .ok [])
    { name := "single"
      processors := #[⟨"cpu", .mos6502 (Mos6502.powerOn (Memory.ram 16) {})⟩]
      latches := {}
      tickers := []
      catalog := Catalog.basic
      saved := none
      screen := none } 1

end EightBit.Monitor
