import EightBit.Processor
import EightBit.Proofs.Register
import EightBit.Proofs.Z80.Boundary

/-!
Where a Z80 goes on after an interrupt.

A halt keeps the program counter on itself and is marked as waiting, and an interrupt that finds the
mark goes on behind the halt. As long as nothing outside replaces the halt while it waits, the mark
stands only on a halt. Otherwise it stays set while other instructions are executed.
-/

namespace EightBit.Z80

/-- What can happen to a Z80: it executes an instruction, a signal arrives, or its registers, its
memory or its ports are written from outside. -/
inductive Act where
  | step
  | irq (data : UInt8)
  | nmi
  | reset
  | jump (addr : UInt16)
  | edit (k : RegisterClass) (name : String) (value : Value)
  | write (addr : Nat) (v : UInt8)
  | writePort (port : Nat) (v : UInt8)

/-- What an act makes of a state; an edit that fails changes nothing. -/
def act (s : Z80) : Act → Z80
  | .step => s.step
  | .irq data => s.irq data
  | .nmi => s.nmi
  | .reset => s.reset
  | .jump addr => s.jumpTo addr
  | .edit k name value => ((table k).put k.missing s name value).toOption.getD s
  | .write addr v =>
    let (mem, latches) := s.mem.write s.latches addr v
    { s with mem, latches }
  | .writePort port v =>
    let (ports, latches) := s.ports.write s.latches port v
    { s with ports, latches }

def run (s : Z80) (acts : List Act) : Z80 := acts.foldl act s

/-- If a halt is waiting, then the program counter is on it. -/
def Steady (s : Z80) : Prop := s.halted = true → s.read s.pc = 0x76

def Act.writes : Act → Bool
  | .write _ _ => true
  | .writePort _ _ => true
  | _ => false

/-- No write from outside replaces a halt while it waits. -/
def SparesHalts : Z80 → List Act → Prop
  | _, [] => True
  | s, act :: acts =>
    (act.writes = true → s.halted = true → (s.act act).read s.pc = 0x76) ∧
      SparesHalts (s.act act) acts

theorem steady_of_not_halted {s : Z80} (h : s.halted = false) : s.Steady := by
  intro hhalted
  rw [h] at hhalted
  contradiction

section Step

variable {s : Z80} {i : Instruction}

theorem halted_perform_of_not_halts (h : i.halts = false) :
    (s.perform i).halted = s.halted := by
  have hhalted : (s.perform i).halted = (s.perform i).control.halted := rfl
  have hcontrols := controls_perform s i
  rw [hhalted]
  generalize (s.perform i).control = c at hcontrols
  cases hcontrols with
  | halts hhalts =>
    rw [h] at hhalts
    contradiction
  | _ => rfl

theorem perform_of_halts (h : i.halts = true) :
    s.perform i = { s with halted := true, pc := s.pc - 1 } := by
  obtain ⟨hpage, hopcode⟩ : i.page = .base ∧ i.opcode = 0x76 := by
    simpa [Instruction.halts] using h
  simp only [perform, performBase, performLoad, hpage, hopcode]
  rfl

variable {code : UInt16 → UInt8} {pc : UInt16} {t : Fetch} {index : Index}

theorem halts_fetchBase :
    (Instruction.fetchBase code t index).halts = true ↔ code t.next = 0x76 := by
  obtain ⟨hpage, hopcode⟩ := page_fetchBase code t index
  simp [Instruction.halts, hpage, hopcode]

theorem length_of_halts (h : (Instruction.fetchBase code t index).halts = true) :
    (Instruction.fetchBase code t index).length = t.length + 1 := by
  rw [length_fetchBase, halts_fetchBase.mp h]
  cases index <;> rfl

theorem not_halts_fetchBits : (Instruction.fetchBits code t index).halts = false := by
  cases index <;> rfl

/-- The last byte of a halt, prefixed or not, is that of a plain halt. -/
theorem last_byte_fetchBase {first : UInt16} (hfirst : first + UInt16.ofNat t.length = t.next)
    (h : (Instruction.fetchBase code t index).halts = true) :
    code (first + UInt16.ofNat (Instruction.fetchBase code t index).length - 1) = 0x76 := by
  have hlast : first + UInt16.ofNat (t.length + 1) - 1 = t.next := by
    rw [← hfirst, UInt16.ofNat_add, ← UInt16.add_assoc]
    exact UInt16.add_sub_cancel _ _
  rw [length_of_halts h, hlast]
  exact halts_fetchBase.mp h

theorem last_byte_fetch (h : (Instruction.fetch code pc).halts = true) :
    code (pc + UInt16.ofNat (Instruction.fetch code pc).length - 1) = 0x76 := by
  have hfetched := fetched_fetch code pc
  generalize Instruction.fetch code pc = i at h hfetched ⊢
  cases hfetched with
  | bits | extended | lone => contradiction
  | indexedBits =>
    rw [not_halts_fetchBits] at h
    contradiction
  | indexed => exact last_byte_fetchBase rfl h
  | base => exact last_byte_fetchBase (UInt16.add_zero pc) h

theorem halts_of_read (h : s.read s.pc = 0x76) : s.instruction.halts = true := by
  have hinstruction : s.instruction = Instruction.fetchBase s.read ⟨s.pc, 0, 0⟩ .hl := by
    simp [instruction, Instruction.fetch, h]
  rw [hinstruction]
  exact halts_fetchBase.mpr h

theorem steady_step (hs : s.Steady) : s.step.Steady := by
  have hstep : s.step = (s.pass s.instruction).perform s.instruction := rfl
  cases hhalts : s.instruction.halts with
  | true =>
    intro _
    rw [hstep, perform_of_halts hhalts]
    exact last_byte_fetch hhalts
  | false =>
    -- Nothing but a halt sets the mark, and it was not set, or else the program counter would have
    -- been on a halt.
    apply steady_of_not_halted
    rw [hstep, halted_perform_of_not_halts hhalts]
    cases hhalted : s.halted with
    | false => exact hhalted
    | true =>
      have hhalts' := halts_of_read (hs hhalted)
      rw [hhalts] at hhalts'
      contradiction

end Step

/-- An edit keeps what the entry of its name keeps, and one that fails keeps everything. -/
theorem edit_keeps {P : Z80 → Prop} {s : Z80} (k : RegisterClass) (name : String) (value : Value)
    (h : ∀ e ∈ table k, e.1 = name → e.2.Keeps P) (hs : P s) :
    P (s.act (.edit k name value)) := by
  rw [act]
  cases hput : (table k).put k.missing s name value with
  | error _ => exact hs
  | ok t => exact RegisterTable.put_keeps h hs hput

theorem keeps_steady_table (k : RegisterClass) : ∀ e ∈ table k, e.2.Keeps Steady := by
  cases k with
  | register =>
    simp only [table, registers, List.forall_mem_cons, Accessor.Keeps]
    refine ⟨fun _ _ _ => steady_of_not_halted rfl, ?_⟩
    and_intros
    all_goals first | exact fun _ _ h => h | exact List.forall_mem_nil _
  | flag =>
    simp only [table, flags, flagEntry, List.forall_mem_cons, Accessor.Keeps]
    and_intros
    all_goals first | exact fun _ _ h => h | exact List.forall_mem_nil _

theorem wake_eq (s : Z80) :
    s.wake = { s with halted := false, pc := if s.halted then s.pc + 1 else s.pc } := by
  unfold wake
  split
  · rfl
  · next h =>
    rw [Bool.not_eq_true] at h
    rw [← h]

/-- Where an interrupt goes on afterwards: behind a halt that is waiting, and otherwise at the
instruction that would have been next. -/
def resumption (s : Z80) : UInt16 :=
  if s.halted = true ∧ s.read s.pc = 0x76 then s.pc + 1 else s.pc

theorem resumption_of_steady {s : Z80} (hs : s.Steady) :
    s.resumption = if s.halted then s.pc + 1 else s.pc := by
  have hwaits : s.halted = true ∧ s.read s.pc = 0x76 ↔ s.halted = true := and_iff_left_of_imp hs
  simp only [resumption, hwaits]

theorem nmi_eq (s : Z80) :
    let back := if s.halted then s.pc + 1 else s.pc
    s.nmi = { s.push back with
      pc := nmiAddress, halted := false, iff1 := false, iff2 := s.iff1 } := by
  rw [nmi, wake_eq]
  rfl

theorem irq_eq {s : Z80} (h : s.iff1 = true) (data : UInt8) :
    let back := if s.halted then s.pc + 1 else s.pc
    s.irq data = { s.push back with
      pc := (s.push back).interruptTarget data,
      halted := false, iff1 := false, iff2 := false } := by
  rw [irq, if_pos h, wake_eq]
  rfl

/-- Beside the program counter an interrupt changes the interrupt switches and ends a halt. -/
theorem control_nmi (s : Z80) : s.nmi.control = { s.control with
    pc := nmiAddress, halted := false, iff1 := false, iff2 := s.iff1 } := by
  have hpush := control_push s (if s.halted then s.pc + 1 else s.pc)
  rw [nmi_eq, ← hpush]
  rfl

theorem control_irq (s : Z80) (data : UInt8) : (s.irq data).control = { s.control with
    pc := (s.irq data).pc, halted := (s.irq data).halted, iff1 := (s.irq data).iff1
    iff2 := (s.irq data).iff2 } := by
  cases henabled : s.iff1 with
  | true =>
    have hpush := control_push s (if s.halted then s.pc + 1 else s.pc)
    rw [irq_eq henabled, ← hpush]
    rfl
  | false =>
    rw [irq, henabled]
    rfl

/-- An act that does not replace the byte under a waiting halt keeps the mark on a halt. -/
theorem steady_act {s : Z80} {act : Act} (hs : s.Steady)
    (hwrites : act.writes = true → s.halted = true → (s.act act).read s.pc = 0x76) :
    (s.act act).Steady := by
  cases act with
  | step => exact steady_step hs
  | irq data =>
    cases henabled : s.iff1 with
    | true =>
      apply steady_of_not_halted
      rw [Z80.act, irq_eq henabled]
    | false =>
      rw [Z80.act, irq, henabled]
      exact hs
  | nmi =>
    apply steady_of_not_halted
    rw [Z80.act, nmi_eq]
  | reset => exact steady_of_not_halted rfl
  | jump addr => exact steady_of_not_halted rfl
  | edit k name value =>
    exact edit_keeps k name value (fun e he _ => keeps_steady_table k e he) hs
  | write addr v => exact hwrites rfl
  | writePort port v => exact hwrites rfl

theorem steady_run {s : Z80} {acts : List Act} (hs : s.Steady) (h : SparesHalts s acts) :
    (s.run acts).Steady := by
  induction acts generalizing s with
  | nil => exact hs
  | cons act acts ih =>
    obtain ⟨hact, hacts⟩ := h
    exact ih (steady_act hs hact) hacts

/-- Unless a write from outside has replaced a halt while it was waiting, an interrupt pushes the
address of the instruction that would have been next, or the one behind it if it is a halt that is
waiting. -/
theorem interrupts_resume (mem ports : Memory) (latches : Latches) (acts : List Act)
    (hacts : SparesHalts (powerOn mem ports latches) acts) (data : UInt8) :
    let s := (powerOn mem ports latches).run acts
    let pushed := s.push s.resumption
    s.nmi = { pushed with pc := nmiAddress, halted := false, iff1 := false, iff2 := s.iff1 } ∧
      (s.iff1 = true → s.irq data = { pushed with
        pc := pushed.interruptTarget data, halted := false, iff1 := false, iff2 := false }) := by
  intro s pushed
  have hs : s.Steady := steady_run (steady_of_not_halted rfl) hacts
  have hpushed : pushed = s.push (if s.halted then s.pc + 1 else s.pc) :=
    congrArg s.push (resumption_of_steady hs)
  rw [hpushed]
  exact ⟨nmi_eq s, fun h => irq_eq h data⟩

/-- A write elsewhere leaves a halt waiting, and an interrupt of either kind goes on behind it. -/
theorem interrupts_resume_behind_halt :
    let s := (powerOn (Memory.ram 8) (Memory.ram 0) {}).run
      [.write 0 0x76, .edit .flag "iff1" (.bool true), .step, .write 1 0x3c]
    s.pc = 0 ∧
      s.nmi = { s.push 1 with
        pc := nmiAddress, halted := false, iff1 := false, iff2 := true } ∧
      s.irq 0xff = { s.push 1 with
        pc := mode1Address, halted := false, iff1 := false, iff2 := false } := by
  intro s
  have hresume : s.resumption = 1 := by decide +kernel
  have henabled : s.iff1 = true := by decide +kernel
  have htarget : (s.push 1).interruptTarget 0xff = mode1Address := by decide +kernel
  have hspares : SparesHalts (powerOn (Memory.ram 8) (Memory.ram 0) {})
      [.write 0 0x76, .edit .flag "iff1" (.bool true), .step, .write 1 0x3c] :=
    ⟨by decide +kernel, by decide +kernel, by decide +kernel, by decide +kernel, trivial⟩
  obtain ⟨hnmi, hirq⟩ := interrupts_resume (Memory.ram 8) (Memory.ram 0) {} _ hspares 0xff
  refine ⟨by decide +kernel, ?_, ?_⟩
  · rw [← henabled, ← hresume]
    exact hnmi
  · rw [← htarget, ← hresume]
    exact hirq henabled

/-- A halt that is replaced while it waits stays marked: two steps later the interrupt skips the
instruction at 1. -/
theorem interrupt_skips :
    let s := (powerOn (Memory.ram 8) (Memory.ram 0) {}).run
      [.write 0 0x76, .edit .register "sp" (.u16 8), .step, .write 0 0x00, .step]
    s.pc = 1 ∧ s.read s.pc = 0x00 ∧ s.resumption = 1 ∧ s.nmi.readWord s.nmi.sp = 2 := by
  decide +kernel

end EightBit.Z80
