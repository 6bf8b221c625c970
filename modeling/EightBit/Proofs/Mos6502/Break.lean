import EightBit.Proofs.Mos6502.Status
import EightBit.Proofs.Register
import EightBit.Proofs.Snapshot

/-!
The two bits of the status register of a 6502 that are not flags.

Bit 5 is always one. Bit 4 is there only in the copy of the status that goes to the stack, where it
tells a software interrupt from a signal, and in the register it is clear, unless somebody from
outside sets it. Snapshots carry the register as it is, so for a state that was restored it counts
what happened to the one that was saved.
-/

namespace EightBit.Mos6502

open Byte FlagLayout

def saved (s : Mos6502) : List UInt8 := (({} : Writer).putAll s.fields).sink.bytes.toList

/-- The states that a processor gets into over any memory, and whether the break bit or the whole
status was edited on the way there or on the way to a snapshot that was loaded. -/
inductive Reached : Bool → Mos6502 → Prop
  | powerOn (mem : Memory) (latches : Latches) : Reached false (powerOn mem latches)
  | step {edited : Bool} {s : Mos6502} (hs : Reached edited s) : Reached edited s.step
  | reset {edited : Bool} {s : Mos6502} (hs : Reached edited s) : Reached edited s.reset
  | irq {edited : Bool} {s : Mos6502} (hs : Reached edited s) : Reached edited s.irq
  | nmi {edited : Bool} {s : Mos6502} (hs : Reached edited s) : Reached edited s.nmi
  | edit {edited : Bool} {s t : Mos6502} (hs : Reached edited s) (k : RegisterClass)
      (name : String) (value : Value) (h : (table k).put k.missing s name value = .ok t) :
      Reached (edited || (name == "b" || name == "sr")) t
  /-- The stream may go on behind the snapshot, and the snapshot may be one of another memory. -/
  | load {edited edited' : Bool} {s t : Mos6502} (hs : Reached edited s) (ht : Reached edited' t)
      (rest : List UInt8) :
      Reached (edited || edited') (s.load (Reader.ofBytes (t.saved ++ rest))).1
  /-- Execution is moved, and memory and what is behind its ports are written, by others. -/
  | outside {edited : Bool} {s : Mos6502} (hs : Reached edited s) (pc : UInt16) (mem : Memory)
      (latches : Latches) : Reached edited { s with pc, mem, latches }

variable {s : Mos6502} {edited : Bool}

/-- Bit 5 is set and, unless it was edited, bit 4 is clear. -/
structure Regular (edited : Bool) (sr : UInt8) : Prop where
  unused : bit sr 5 = true
  clear : edited = false → bit sr 4 = false

namespace Regular

variable {sr : UInt8}

theorem mono (h : Regular edited sr) (other : Bool) : Regular (edited || other) sr where
  unused := h.unused
  clear := fun hedited => h.clear (Bool.or_eq_false_iff.mp hedited).1

/-- Whatever does not touch the two bits leaves them as they are. -/
theorem of_changesWithin {mask sr' : UInt8} (h : Regular edited sr)
    (hchange : ChangesWithin mask sr sr') (hmask : mask &&& (flagB ||| flagU) = 0) :
    Regular edited sr' := by
  have hoff {k : Nat} (hk : bit (flagB ||| flagU) k = true) : bit mask k = false := by
    have hand := congrArg (bit · k) hmask
    simpa [hk, bit_zero] using hand
  exact ⟨(hchange 5 (by decide) (hoff (by decide))).trans h.unused,
    fun hedited => (hchange 4 (by decide) (hoff (by decide))).trans (h.clear hedited)⟩

/-- A status from the stack is regular whatever was there. -/
theorem of_settled (edited : Bool) (v : UInt8) : Regular edited (settled v) where
  unused := by
    have hset : bit flagU 5 = true := by decide
    rw [settled, bit_or, hset, Bool.or_true]
  clear := fun _ => by
    have hcleared : bit (~~~flagB) 4 = false := by decide
    have hunset : bit flagU 4 = false := by decide
    rw [settled, bit_or, bit_and, hcleared, hunset, Bool.and_false, Bool.or_false]

/-- The status at power-on and after a reset. -/
theorem initial (edited : Bool) : Regular edited (flagI ||| flagU) :=
  ⟨by decide, fun _ => by decide⟩

end Regular

/-- The instructions that take a status from the stack settle it. -/
theorem sr_perform_of_pulls (s : Mos6502) (o : Operand) {m : Mnemonic} (hm : m = .plp ∨ m = .rti) :
    ∃ v, (s.perform o m).sr = settled v := by
  rcases hm with rfl | rfl
  · exact ⟨s.pull.1, rfl⟩
  · exact ⟨s.pull.1, rfl⟩

/-- No other instruction changes the two bits. -/
theorem affects_of_not_pulls {m : Mnemonic} (hm : ¬ (m = .plp ∨ m = .rti)) :
    m.affects &&& (flagB ||| flagU) = 0 := by
  cases m <;> first | rfl | exact absurd (by decide) hm

theorem regular_step (hs : Regular edited s.sr) : Regular edited s.step.sr := by
  cases h : Opcode.decode (s.read s.pc) with
  | none =>
    rw [step_of_undefined h]
    exact hs
  | some opcode =>
    obtain ⟨pc, hpassed⟩ := operand_eq s.fetch.2 opcode.mode
    rw [step_of_decode h, hpassed]
    -- A status from the stack is settled whatever it is; all others change within their flags.
    by_cases hm : opcode.mnemonic = .plp ∨ opcode.mnemonic = .rti
    · obtain ⟨v, hv⟩ := sr_perform_of_pulls { s.fetch.2 with pc }
        (s.fetch.2.operand opcode.mode).1 hm
      rw [hv]
      exact .of_settled edited v
    · exact hs.of_changesWithin (changesWithin_perform { s.fetch.2 with pc } _ _)
        (affects_of_not_pulls hm)

theorem regular_enter (hs : Regular edited s.sr) (status : UInt8) (vector : Nat) :
    Regular edited (s.enter status vector).sr := by
  have hsr : (s.enter status vector).sr = put s.sr flagI true := by
    rw [enter_entered]
    rfl
  rw [hsr]
  exact hs.of_changesWithin (changesWithin_put s.sr flagI true) rfl

theorem regular_setFlag {mask : UInt8} (hmask : mask &&& (flagB ||| flagU) = 0)
    (hs : Regular edited s.sr) (on : Bool) : Regular edited (s.setFlag mask on).sr :=
  hs.of_changesWithin (changesWithin_put s.sr mask on) hmask

theorem keeps_regular_table (k : RegisterClass) (edited : Bool) : ∀ e ∈ table k,
    e.2.Keeps fun s => Regular (edited || (e.1 == "b" || e.1 == "sr")) s.sr := by
  have hedited {name : String} (hname : (name == "b" || name == "sr") = true) {sr : UInt8}
      (hunused : bit sr 5 = true) : Regular (edited || (name == "b" || name == "sr")) sr :=
    ⟨hunused, fun h => by simp [hname] at h⟩
  cases k with
  | register =>
    have hstatus (s : Mos6502) (v : UInt8)
        (_ : Regular (edited || ("sr" == "b" || "sr" == "sr")) s.sr) :
        Regular (edited || ("sr" == "b" || "sr" == "sr")) (v ||| flagU) := by
      have hset : bit flagU 5 = true := by decide
      apply hedited rfl
      rw [bit_or, hset, Bool.or_true]
    simp only [table, registers, List.forall_mem_cons, Accessor.Keeps]
    and_intros
    all_goals first | exact fun _ _ h => h | exact hstatus | exact List.forall_mem_nil _
  | flag =>
    have hbreak (s : Mos6502) (on : Bool)
        (h : Regular (edited || ("b" == "b" || "b" == "sr")) s.sr) :
        Regular (edited || ("b" == "b" || "b" == "sr")) (s.setFlag flagB on).sr :=
      hedited rfl ((changesWithin_put s.sr flagB on 5 (by decide) (by decide)).trans h.unused)
    simp only [table, flags, flagEntry, List.forall_mem_cons, Accessor.Keeps]
    and_intros
    all_goals first
      | exact fun _ on h => regular_setFlag rfl h on
      | exact hbreak
      | exact List.forall_mem_nil _

/-- A snapshot carries the status over. -/
theorem sr_load (s t : Mos6502) (rest : List UInt8) :
    (s.load (Reader.ofBytes (t.saved ++ rest))).1.sr = t.sr := by
  have hsaved : t.saved = Field.encodeAll t.fields := by
    rw [saved, Writer.putAll_empty t.writable_fields, Writer.bytes_holding]
  rw [hsaved]
  simp [load, fields]

theorem regular_of_reached (h : Reached edited s) : Regular edited s.sr := by
  induction h with
  | powerOn mem latches => exact .initial false
  | step _ ih => exact regular_step ih
  | reset _ _ => exact .initial _
  | irq _ ih =>
    rw [irq]
    split
    · exact ih
    · exact regular_enter ih _ _
  | nmi _ ih => exact regular_enter ih _ _
  | edit _ k name value h ih =>
    apply RegisterTable.put_keeps (P := fun s : Mos6502 => Regular _ s.sr) _ (ih.mono _) h
    rintro e he rfl
    exact keeps_regular_table k _ e he
  | load _ _ rest _ ih =>
    rw [sr_load, Bool.or_comm]
    exact ih.mono _
  | outside _ pc mem latches ih => exact ih

def programStatus (s : Mos6502) : UInt8 := s.sr ||| flagB ||| flagU

theorem bits_programStatus (s : Mos6502) :
    bit s.programStatus 4 = true ∧ bit s.programStatus 5 = true := by
  have hbreak : bit flagB 4 = true := by decide
  have hunused : bit flagU 5 = true := by decide
  rw [programStatus, bit_or, bit_or, bit_or, bit_or, hbreak, hunused]
  simp

def signalStatus (s : Mos6502) : UInt8 := settled s.sr

theorem bits_signalStatus (s : Mos6502) :
    bit s.signalStatus 4 = false ∧ bit s.signalStatus 5 = true :=
  ⟨(Regular.of_settled false s.sr).clear rfl, (Regular.of_settled false s.sr).unused⟩

theorem step_of_php (h : s.read s.pc = 0x08) :
    s.step = ({ s with pc := s.pc + 1 } : Mos6502).push s.programStatus := by
  have hdecode : Opcode.decode (s.read s.pc) = some ⟨.php, .implied⟩ := by
    rw [h]
    decide +kernel
  rw [step_of_decode hdecode]
  rfl

section Storage

variable (hs : s.mem.InstanceOf (Memory.ram 0x10000)) (v : UInt8)
include hs

theorem pull_push : (s.push v).pull.1 = v := by
  have htop : s.sp - 1 + 1 = s.sp := UInt8.sub_add_cancel _ _
  have hpull : (s.push v).pull.1 = (s.push v).read (stackAddress (s.sp - 1 + 1)) := rfl
  rw [hpull, htop, read_push hs, if_pos rfl]

/-- The status is on top of the stack when an interrupt has been entered. -/
theorem pull_enter (vector : Nat) : (s.enter v vector).pull.1 = v := by
  have hentered : (s.enter v vector).pull.1 = (s.entered v).pull.1 := by
    rw [enter_entered]
    rfl
  have hhigh := instanceOf_push hs (Word.high s.pc)
  have hlow := instanceOf_push hhigh (Word.low s.pc)
  rw [hentered]
  exact pull_push hlow v

end Storage

/-- How a state pushes its status: a program with both bits set, a signal with bit 5 alone. Both are
what is on top of a stack in storage afterwards. -/
structure PushesStatus (s : Mos6502) : Prop where
  program : bit s.programStatus 4 = true ∧ bit s.programStatus 5 = true
  signal : bit s.signalStatus 4 = false ∧ bit s.signalStatus 5 = true
  php : s.read s.pc = 0x08 →
    s.step = ({ s with pc := s.pc + 1 } : Mos6502).push s.programStatus
  brk : s.read s.pc = 0x00 →
    s.step = ({ s with pc := s.pc + 2 } : Mos6502).enter s.programStatus irqVector
  irq : s.flag flagI = false → s.irq = s.enter s.signalStatus irqVector
  nmi : s.nmi = s.enter s.signalStatus nmiVector
  top : s.mem.InstanceOf (Memory.ram 0x10000) →
    (s.read s.pc = 0x08 ∨ s.read s.pc = 0x00 → s.step.pull.1 = s.programStatus) ∧
    (s.flag flagI = false → s.irq.pull.1 = s.signalStatus) ∧ s.nmi.pull.1 = s.signalStatus

theorem pushesStatus (s : Mos6502) : s.PushesStatus where
  program := bits_programStatus s
  signal := bits_signalStatus s
  php := step_of_php
  brk := step_of_brk
  irq := irq_of_enabled
  nmi := rfl
  top := by
    intro hs
    refine ⟨?_, ?_, pull_enter hs _ _⟩
    · rintro (hphp | hbrk)
      · rw [step_of_php hphp]
        exact pull_push (s := { s with pc := s.pc + 1 }) hs _
      · rw [step_of_brk hbrk]
        exact pull_enter (s := { s with pc := s.pc + 2 }) hs _ _
    · intro henabled
      rw [irq_of_enabled henabled]
      exact pull_enter hs _ _

/-- In every state that a processor gets into, bit 5 of the status is set, and bit 4 is clear unless
the break bit or the whole status was edited, in its own course or in that of a snapshot it was
loaded from. What is pushed has the two bits as it should whatever the state. -/
theorem status_bits :
    (∀ edited s, Reached edited s → bit s.sr 5 = true ∧ (edited = false → bit s.sr 4 = false)) ∧
      ∀ s : Mos6502, s.PushesStatus := by
  refine ⟨?_, pushesStatus⟩
  intro edited s hs
  have hregular := regular_of_reached hs
  exact ⟨hregular.unused, hregular.clear⟩

/-- A processor that has taken over the snapshot of another one in its interrupt routine has the
break bit clear, and one in which the bit was edited pushes it from a program but not for a
signal. -/
theorem status_bits_of_restored :
    let restored := ((powerOn (Memory.ram 16) {}).step.load
      (Reader.ofBytes ((powerOn (Memory.ram 8) {}).nmi.saved ++ []))).1
    let marked : Mos6502 := { holding 0x200 [0x08] with sr := 0x30 }
    bit restored.sr 5 = true ∧ bit restored.sr 4 = false ∧
      marked.step.pull.1 = 0x30 ∧ marked.irq.pull.1 = 0x20 := by
  have hpc : (holding 0x200 [0x08]).pc = 0x200 := rfl
  have hcode : (holding 0x200 [0x08]).read 0x200 = 0x08 := read_holding (by decide)
  have hstorage := instanceOf_holding 0x200 [0x08]
  generalize holding 0x200 [0x08] = t at hpc hcode hstorage ⊢
  intro restored marked
  obtain ⟨hreached, hpushes⟩ := status_bits
  have hrestored : Reached false restored :=
    (Reached.powerOn (Memory.ram 16) {}).step.load (Reached.powerOn (Memory.ram 8) {}).nmi []
  obtain ⟨hunused, hclear⟩ := hreached false restored hrestored
  have hphp : marked.read marked.pc = 0x08 := by
    rw [show marked.pc = 0x200 from hpc]
    exact hcode
  obtain ⟨hprogram, hsignal, -⟩ := (hpushes marked).top hstorage
  have hstatus : marked.programStatus = 0x30 ∧ marked.signalStatus = 0x20 := by
    change (0x30 : UInt8) ||| flagB ||| flagU = 0x30 ∧ settled 0x30 = 0x20
    decide
  have henabled : marked.flag flagI = false := by
    change ((0x30 : UInt8) &&& flagI == flagI) = false
    decide
  exact ⟨hunused, hclear rfl, (hprogram (.inl hphp)).trans hstatus.1,
    (hsignal henabled).trans hstatus.2⟩

end EightBit.Mos6502
