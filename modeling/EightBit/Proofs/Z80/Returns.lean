import EightBit.Proofs.Z80.Interrupts
import EightBit.Proofs.Z80.Storage

/-!
Interrupts of a Z80 that nothing but a return answers.

Entering an interrupt pushes the program counter and moves the two flip-flops, and the return pulls
the one and moves the others back. Nothing else is left of an interrupt than the two bytes pushed.
-/

namespace EightBit.Z80

section Step

variable {s : Z80}

/-- The returns from an interrupt pull the program counter and restore the first flip-flop. -/
theorem step_of_return (hfirst : s.read s.pc = 0xed)
    (hx : Opcode.x (s.read (s.pc + 1)) = 1) (hz : Opcode.z (s.read (s.pc + 1)) = 5) :
    s.step = { s with
      pc := s.readWord s.sp, sp := s.sp + 2, iff1 := s.iff2, r := refreshed s.r 2 } := by
  have hbytes : Opcode.extendedBytes (s.read (s.pc + 1)) = 0 := by
    simp [Opcode.extendedBytes, hz]
  rw [step_of_extended hfirst hbytes]
  simp only [performExtended, hx, hz]
  rfl

theorem step_of_ei (hfirst : s.read s.pc = 0xfb) :
    s.step = { s with pc := s.pc + 1, iff1 := true, iff2 := true, r := refreshed s.r 1 } := by
  have hinstruction : s.instruction = ⟨.base, .hl, 0xfb, 0, 0, 1, 1⟩ := by
    rw [instruction_of_base (by rw [hfirst]; decide) (by rw [hfirst]; decide),
      Instruction.fetchBase]
    simp only [Fetch.opcode_eq, hfirst]
    rfl
  have hx : Opcode.x 0xfb = 3 := rfl
  have hy : Opcode.y 0xfb = 7 := rfl
  have hz : Opcode.z 0xfb = 3 := rfl
  rw [step_eq, hinstruction]
  simp only [perform, performBase, performBranch, performControl, hx, hy, hz]
  rfl

end Step

/-- What is left of an interrupt after the return: the second flip-flop and the refresh counter have
moved, and below the top of the stack two bytes may have changed. -/
structure Returned (s : Z80) (iff2 : Bool) (t : Z80) : Prop where
  registers : t = { s with iff2, r := t.r, mem := t.mem }
  storage : t.mem.InstanceOf (Memory.ram 0x10000)
  mem : ∀ addr, addr ≠ s.sp - 1 → addr ≠ s.sp - 2 → t.read addr = s.read addr

section Return

variable {s t : Z80} (hs : s.mem.InstanceOf (Memory.ram 0x10000))
include hs

/-- A return finds what an interrupt has pushed, as long as only flip-flops and the refresh counter
have changed in between. -/
theorem returned_of_pushed {iff2 : Bool} (hiff : iff2 = s.iff1)
    (ht : t = { s.push s.pc with pc := t.pc, iff1 := t.iff1, iff2, r := t.r })
    (hfirst : t.read t.pc = 0xed) (hx : Opcode.x (t.read (t.pc + 1)) = 1)
    (hz : Opcode.z (t.read (t.pc + 1)) = 5) : s.Returned iff2 t.step := by
  have hsp : t.sp = s.sp - 2 := by
    rw [ht, push_eq hs]
  have hread : t.read = (s.push s.pc).read := by
    rw [ht]
    rfl
  have hpulled : t.readWord t.sp = s.pc := by
    rw [hsp, readWord, hread]
    exact readWord_push hs s.pc
  have htop : s.sp - 2 + 2 = s.sp := UInt16.sub_add_cancel _ _
  have hstep := step_of_return hfirst hx hz
  rw [hpulled, hsp, htop] at hstep
  rw [hstep]
  refine ⟨?_, ?_, ?_⟩
  · rw [ht, push_eq hs, hiff]
  · rw [ht]
    exact instanceOf_push hs s.pc
  · intro addr habove hbelow
    have hunchanged := read_push hs s.pc addr
    rw [if_neg habove, if_neg hbelow, ← hread] at hunchanged
    exact hunchanged

end Return

theorem wake_of_running {s : Z80} (h : s.halted = false) : s.wake = s := by
  rw [wake, h]
  rfl

theorem nmi_of_running {s : Z80} (h : s.halted = false) :
    s.nmi = { s.push s.pc with pc := nmiAddress, iff1 := false, iff2 := s.iff1 } := by
  rw [nmi, wake_of_running h]
  rfl

theorem irq_of_running {s : Z80} (h : s.halted = false) (henabled : s.iff1 = true) (data : UInt8) :
    s.irq data = { s.push s.pc with
      pc := (s.push s.pc).interruptTarget data, iff1 := false, iff2 := false } := by
  rw [irq, if_pos henabled, wake_of_running h]
  rfl

/-- An interrupt that finds the processor running and whose routine is nothing but a return, with
interrupts enabled again in front of it where they were, leaves no more than the two pushed bytes
and the moved flip-flop behind. -/
theorem returns_undo_interrupts {s : Z80} (hs : s.mem.InstanceOf (Memory.ram 0x10000))
    (hrunning : s.halted = false) :
    (s.nmi.read 0x66 = 0xed → s.nmi.read 0x67 = 0x45 → s.Returned s.iff1 s.nmi.step) ∧
      ∀ data, s.iff1 = true →
        let entered := s.irq data
        entered.read entered.pc = 0xfb → entered.read (entered.pc + 1) = 0xed →
          entered.read (entered.pc + 2) = 0x4d → s.Returned true entered.step.step := by
  constructor
  · intro hfirst hsecond
    have hnmi := nmi_of_running hrunning
    have hpc : s.nmi.pc = 0x66 := by rw [hnmi]
    have hbehind : s.nmi.read (s.nmi.pc + 1) = 0x45 := by
      rw [hpc]
      exact hsecond
    rw [← hpc] at hfirst
    apply returned_of_pushed hs rfl _ hfirst
    · rw [hbehind]
      rfl
    · rw [hbehind]
      rfl
    · rw [hnmi]
  · intro data henabled entered hfirst hsecond hthird
    have hirq : entered = _ := irq_of_running hrunning henabled data
    have hei := step_of_ei hfirst
    have hread : entered.step.read = entered.read := by
      rw [hei]
      rfl
    have hpc : entered.step.pc = entered.pc + 1 := by rw [hei]
    have hlast : entered.pc + 1 + 1 = entered.pc + 2 := by
      rw [UInt16.add_assoc]
      rfl
    have hbehind : entered.step.read (entered.step.pc + 1) = 0x4d := by
      rw [hread, hpc, hlast]
      exact hthird
    rw [← hpc, ← hread] at hsecond
    apply returned_of_pushed hs henabled.symm _ hsecond
    · rw [hbehind]
      rfl
    · rw [hbehind]
      rfl
    · rw [hei, hirq]

/-- A return at `$66`, and behind it a table entry and the routine to which it leads. -/
def answers : List UInt8 := [0xed, 0x45, 0x6a, 0x00, 0xfb, 0xed, 0x4d]

/-- With an empty stack the pushed bytes are at the end of memory, so that both kinds of interrupt
find their routines. -/
theorem answers_found {s : Z80} (hs : s.mem.InstanceOf (Memory.ram 0x10000))
    (hrunning : s.halted = false) (henabled : s.iff1 = true) (hsp : s.sp = 0) (hmode : s.im = 2)
    (hbase : s.i = 0)
    (hcode : ∀ k (hk : k < answers.length), s.read (0x66 + UInt16.ofNat k) = answers[k]) :
    (s.nmi.read 0x66 = 0xed ∧ s.nmi.read 0x67 = 0x45) ∧
      let entered := s.irq 0x69
      entered.read entered.pc = 0xfb ∧ entered.read (entered.pc + 1) = 0xed ∧
        entered.read (entered.pc + 2) = 0x4d := by
  have hspared : ∀ k < answers.length,
      0x66 + UInt16.ofNat k ≠ (0 : UInt16) - 1 ∧ 0x66 + UInt16.ofNat k ≠ (0 : UInt16) - 2 := by
    decide
  have hpushed (k : Nat) (hk : k < answers.length) :
      (s.push s.pc).read (0x66 + UInt16.ofNat k) = answers[k] := by
    obtain ⟨habove, hbelow⟩ := hspared k hk
    rw [← hsp] at habove hbelow
    rw [read_push hs, if_neg habove, if_neg hbelow]
    exact hcode k hk
  constructor
  · rw [nmi_of_running hrunning]
    exact ⟨hpushed 0 (by decide), hpushed 1 (by decide)⟩
  · intro entered
    have hirq : entered = _ := irq_of_running hrunning henabled 0x69
    have hread : entered.read = (s.push s.pc).read := by
      rw [hirq]
      rfl
    have hvector : (s.push s.pc).im = 2 ∧ (s.push s.pc).i = 0 := by
      rw [push_eq hs]
      exact ⟨hmode, hbase⟩
    have hpc : entered.pc = 0x6a := by
      have htable : entered.pc = word ((s.push s.pc).read 0x69) ((s.push s.pc).read 0x68) := by
        rw [hirq]
        simp only [interruptTarget, hvector]
        rfl
      have hhigh : (s.push s.pc).read 0x69 = 0x00 := hpushed 3 (by decide)
      have hlow : (s.push s.pc).read 0x68 = 0x6a := hpushed 2 (by decide)
      rw [htable, hhigh, hlow]
      rfl
    rw [hread, hpc]
    exact ⟨hpushed 4 (by decide), hpushed 5 (by decide), hpushed 6 (by decide)⟩

/-- Both interrupts of a processor in mode 2 come back to it. -/
theorem returns_undo_interrupts_of_mode_two :
    let s : Z80 := { holding 0x66 answers with pc := 0x1234, sp := 0, iff1 := true, im := 2 }
    (s.nmi.step.pc = 0x1234 ∧ s.nmi.step.sp = 0 ∧ s.nmi.step.iff1 = true) ∧
      (s.irq 0x69).step.step.pc = 0x1234 ∧ (s.irq 0x69).step.step.iff2 = true := by
  have hs := instanceOf_holding 0x66 answers
  have hcode (k : Nat) (hk : k < answers.length) :
      (holding 0x66 answers).read (0x66 + UInt16.ofNat k) = answers[k] :=
    read_holding (by decide) hk
  have hrunning : (holding 0x66 answers).halted = false := rfl
  have hbase : (holding 0x66 answers).i = 0 := rfl
  generalize holding 0x66 answers = start at hs hcode hrunning hbase ⊢
  intro s
  obtain ⟨⟨hfirst, hsecond⟩, hei, hfirst', hsecond'⟩ :=
    answers_found (s := s) hs hrunning rfl rfl rfl hbase hcode
  obtain ⟨hnmi, hirq⟩ := returns_undo_interrupts (s := s) hs hrunning
  have hreturned := hnmi hfirst hsecond
  have hreturned' := hirq 0x69 rfl hei hfirst' hsecond'
  rw [hreturned.registers, hreturned'.registers]
  exact ⟨⟨rfl, rfl, rfl⟩, rfl, rfl⟩

end EightBit.Z80
