import EightBit.Proofs.Evaluation
import EightBit.Proofs.Lines

/-!
Sessions: what holds of a monitor and its machine, whatever the operator types and however often
the machine runs in between.

A command checks what it selects, and nothing else changes a selection: a machine has the same
processors and the same character sets for as long as it is used.
-/

namespace EightBit

namespace Catalog

/-- A catalog as it can be put together: from ASCII alone, by registering character sets and by
choosing the default among those that are there. -/
inductive Made : Catalog → Prop
  | basic : Made Catalog.basic
  | register {c : Catalog} (h : Made c) (name : String) (set : CharacterSet) :
      Made (c.register name set)
  | select {c c' : Catalog} {name : String} (h : Made c) (hselect : c.select? name = some c') :
      Made c'

theorem mem_map_fst_insert (name : String) (set : CharacterSet)
    (es : List (String × CharacterSet)) (name' : String) :
    name' ∈ (insert name set es).map Prod.fst ↔ name' = name ∨ name' ∈ es.map Prod.fst := by
  induction es with
  | nil => simp [insert]
  | cons e es ih =>
    rw [insert]
    split
    · simp
    · split
      · next heq => simp [beq_iff_eq.mp heq]
      · rw [List.map_cons, List.mem_cons, ih, List.map_cons, List.mem_cons]
        exact or_left_comm

@[simp] theorem mem_names_register (c : Catalog) (name : String) (set : CharacterSet)
    (name' : String) : name' ∈ (c.register name set).names ↔ name' = name ∨ name' ∈ c.names :=
  mem_map_fst_insert name set c.entries name'

/-- Exactly the character sets that have a name are found. -/
theorem find?_isSome (c : Catalog) (name : String) : (c.find? name).isSome ↔ name ∈ c.names := by
  simp only [find?, List.lookup_isSome_iff, beq_iff_eq, names, List.mem_map]
  constructor
  · rintro ⟨e, he, rfl⟩
    exact ⟨e, he, rfl⟩
  · rintro ⟨e, he, rfl⟩
    exact ⟨e, he, rfl⟩

/-- There is a character set of the default's name. -/
theorem Made.default_mem {c : Catalog} (h : c.Made) : c.default ∈ c.names := by
  induction h with
  | basic => exact List.mem_singleton_self _
  | register _ name set ih => exact (mem_names_register _ name set _).mpr (.inr ih)
  | @select c c' name _ hselect _ =>
    obtain ⟨set, hset, rfl⟩ := Option.map_eq_some_iff.mp hselect
    exact (c.find?_isSome name).mp (Option.isSome_of_eq_some hset)

theorem made_commodore : commodore.Made := by
  have hsets := (((Made.basic.register "petscii" CharacterSet.petscii).register "petscii-shifted"
    CharacterSet.petsciiShifted).register "screen" CharacterSet.screen).register "screen-shifted"
    CharacterSet.screenShifted
  exact @Made.select _ _ "petscii" hsets rfl

end Catalog

namespace Monitor

/-- The monitor has what its commands look up in a machine and in itself. -/
structure Valid (mon : Monitor) (m : Machine) : Prop where
  core : mon.core < m.system.processors.size
  cursors : mon.cursors.size = m.system.processors.size
  encoding : mon.encoding ∈ m.system.catalog.names
  listingLines : LineCount mon.listingLines
  dumpRows : LineCount mon.dumpRows

inductive Moment where
  | line (text : String)
  /-- Something is done to the machine alone, such as a quantum. -/
  | act (a : Machine.Act)

def pass (s : Monitor × Machine) : Moment → Monitor × Machine
  | .line text => ((s.1.eval s.2 text).1, (s.1.eval s.2 text).2.1)
  | .act a => (s.1, s.2.act a)

def passAll (s : Monitor × Machine) (moments : List Moment) : Monitor × Machine :=
  moments.foldl pass s

variable {mon mon' : Monitor} {m m' : Machine}

/-- A new monitor is on the first processor and shows characters in the default set. -/
theorem valid_ofMachine {out : Sink} (h : ofMachine m out = .ok mon)
    (hprocessors : 0 < m.system.processors.size) (hcatalog : m.system.catalog.Made) :
    mon.Valid m := by
  obtain ⟨m', hm, rfl⟩ := map_ok h
  obtain rfl := sound_ok hm
  have hcount : LineCount 16 := by simp [LineCount]
  exact ⟨hprocessors, Array.size_replicate, hcatalog.default_mem, hcount, hcount⟩

theorem Valid.of_sameParts (h : mon.Valid m) (hparts : m.system.SameParts m'.system) :
    mon.Valid m' where
  core := hparts.processors ▸ h.core
  cursors := h.cursors.trans hparts.processors.symm
  encoding := hparts.catalog ▸ h.encoding
  listingLines := h.listingLines
  dumpRows := h.dumpRows

theorem Touches.sameParts {core : Nat} (h : Touches core m m') :
    m.system.SameParts m'.system := by
  cases h with
  | left => exact .refl m.system
  | sent c => exact m.act_sameParts (.send c)
  | set name location => exact m.act_sameParts (.setBreakpoint name location)
  | cleared name location => exact m.act_sameParts (.clearBreakpoint name location)
  | edited f => exact m.act_sameParts (.edit core f)

theorem Turns.valid (h : mon.Turns m.system.catalog.names mon') (hmon : mon.Valid m) :
    mon'.Valid m := by
  cases h with
  | kept => exact hmon
  | selected hi => exact { hmon with core := hmon.cursors ▸ hi }
  | moved f again => exact { hmon with cursors := Array.size_modify.trans hmon.cursors }
  | listingLines hn => exact { hmon with listingLines := hn }
  | dumpRows hn => exact { hmon with dumpRows := hn }
  | encoding hname => exact { hmon with encoding := hname }
  | quit => exact { hmon with }

theorem Valid.answers {r : Reply} (h : mon.Valid m) (hr : Answers mon m r) :
    r.monitor.Valid r.machine :=
  (hr.turns.valid h).of_sameParts hr.touches.sameParts

theorem Valid.settle {reply : Except MonitorError Reply} (h : mon.Valid m)
    (hreply : ∀ r, reply = .ok r → Answers mon m r) :
    (mon.settle m reply).1.Valid (mon.settle m reply).2.1 :=
  settle_keeps (P := Valid) (fun _ _ _ h => { h with }) h fun r hr => h.answers (hreply r hr)

/-- A command line keeps what can be looked up, also one that fails or cannot be answered for want
of room. -/
theorem Valid.eval (h : mon.Valid m) (line : String) :
    (mon.eval m line).1.Valid (mon.eval m line).2.1 := by
  cases hwords : Text.words line with
  | nil =>
    rw [eval_of_words_nil mon m hwords]
    exact h.settle fun r => respondAgain_answers
  | cons command args =>
    have hnoted : mon.forget.Valid (noted m line) := { h with }
    rw [eval_of_words_cons mon m hwords]
    exact hnoted.settle fun r => respond_answers

theorem Valid.act (h : mon.Valid m) (a : Machine.Act) : mon.Valid (m.act a) :=
  h.of_sameParts (m.act_sameParts a)

theorem valid_pass {s : Monitor × Machine} (h : s.1.Valid s.2) (moment : Moment) :
    (pass s moment).1.Valid (pass s moment).2 := by
  cases moment with
  | line text => exact h.eval text
  | act a => exact h.act a

theorem valid_passAll {s : Monitor × Machine} (h : s.1.Valid s.2) (moments : List Moment) :
    (passAll s moments).1.Valid (passAll s moments).2 := by
  induction moments generalizing s with
  | nil => exact h
  | cons moment moments ih => exact ih (valid_pass h moment)

end Monitor

end EightBit
