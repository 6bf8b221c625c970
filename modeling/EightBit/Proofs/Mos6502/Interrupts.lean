import EightBit.Proofs.Mos6502.Boundary
import EightBit.Proofs.Mos6502.Footprint

/-!
Interrupts of a 6502 that nothing but a return answers.

Entering an interrupt pushes the program counter and the status, and the return pulls them again.
Registers and memory outside of the three bytes pushed are what they were before.
-/

namespace EightBit.Mos6502

section Storage

variable {s : Mos6502} (hs : s.mem.InstanceOf (Memory.ram 0x10000))
include hs

theorem write_eq (addr : UInt16) (v : UInt8) :
    s.write addr v = { s with mem := (s.write addr v).mem } := by
  have hwrite := Memory.write_of_not_isPort (hs.not_isPort_ram addr.toNat) s.latches s.latches v
  simp only [write]
  rw [hwrite]

theorem read_write (addr : UInt16) (v : UInt8) (other : UInt16) :
    (s.write addr v).read other = if other = addr then v else s.read other := by
  have hread := hs.read_write s.latches s.latches addr.toNat_lt other.toNat_lt v
  simp only [UInt16.toNat_inj] at hread
  rw [read, write_eq hs]
  exact hread

theorem instanceOf_push (v : UInt8) : (s.push v).mem.InstanceOf (Memory.ram 0x10000) :=
  hs.write s.latches _ v

theorem push_eq (v : UInt8) :
    s.push v = { s with sp := s.sp - 1, mem := (s.push v).mem } :=
  congrArg (fun t : Mos6502 => { t with sp := s.sp - 1 }) (write_eq hs (stackAddress s.sp) v)

theorem read_push (v : UInt8) (addr : UInt16) :
    (s.push v).read addr = if addr = stackAddress s.sp then v else s.read addr :=
  read_write hs (stackAddress s.sp) v addr

end Storage

def entered (s : Mos6502) (status : UInt8) : Mos6502 := (s.pushWord s.pc).push status

section Enter

variable {s : Mos6502} (hs : s.mem.InstanceOf (Memory.ram 0x10000)) (status : UInt8)
include hs

theorem read_entered (addr : UInt16) :
    (s.entered status).read addr =
      if addr = stackAddress (s.sp - 1 - 1) then status
      else if addr = stackAddress (s.sp - 1) then Word.low s.pc
      else if addr = stackAddress s.sp then Word.high s.pc
      else s.read addr := by
  have hhigh := instanceOf_push hs (Word.high s.pc)
  have hlow := instanceOf_push hhigh (Word.low s.pc)
  rw [entered, pushWord, read_push hlow, read_push hhigh, read_push hs]
  rfl

theorem entered_eq :
    s.entered status = { s with sp := s.sp - 1 - 1 - 1, mem := (s.entered status).mem } := by
  have hhigh := instanceOf_push hs (Word.high s.pc)
  have hlow := instanceOf_push hhigh (Word.low s.pc)
  rw [entered, pushWord, push_eq hlow, push_eq hhigh, push_eq hs]

end Enter

/-- Behind the pushes, an interrupt only disables others and follows the vector. -/
theorem enter_entered (s : Mos6502) (status : UInt8) (vector : Nat) :
    s.enter status vector = { s.entered status with
      sr := (s.entered status).sr ||| flagI
      pc := (s.entered status).vector vector } := by
  unfold enter entered
  rfl

theorem toNat_stackAddress (sp : UInt8) : (stackAddress sp).toNat = 0x100 + sp.toNat := by
  rw [stackAddress, toNat_word]
  rfl

/-- Stack addresses differ where the stack pointers do, also around the end of page one. -/
theorem stackAddress_inj {v w : UInt8} : stackAddress v = stackAddress w ↔ v = w := by
  constructor
  · intro h
    have hlow : Word.low (word 1 v) = Word.low (word 1 w) := congrArg Word.low h
    rwa [Word.low_word, Word.low_word] at hlow
  · rintro rfl
    rfl

/-- A status byte as it comes back from the stack: the break bit clear and the unused bit one. -/
def settled (v : UInt8) : UInt8 := (v &&& ~~~flagB) ||| flagU

theorem irq_of_enabled {s : Mos6502} (h : s.flag flagI = false) :
    s.irq = s.enter (settled s.sr) irqVector := by
  rw [irq, h]
  rfl

/-- Whether an interrupt or a program has pushed a status, the same comes back. -/
theorem settled_pushed (v : UInt8) :
    settled (settled v) = settled v ∧ settled (v ||| flagB ||| flagU) = settled v := by
  unfold settled
  constructor
  all_goals
    apply UInt8.toBitVec_inj.mp
    ext k hk
    simp only [UInt8.toBitVec_or, UInt8.toBitVec_and, UInt8.toBitVec_not, BitVec.getElem_or,
      BitVec.getElem_and, BitVec.getElem_not]
    cases v.toBitVec[k] <;> cases flagB.toBitVec[k] <;> cases flagU.toBitVec[k] <;> rfl

/-- The return from an interrupt pulls the status and the program counter. -/
theorem step_of_rti {s : Mos6502} (h : s.read s.pc = 0x40) :
    s.step = { s with
      sp := s.sp + 1 + 1 + 1
      sr := settled (s.read (stackAddress (s.sp + 1)))
      pc := word (s.read (stackAddress (s.sp + 1 + 1 + 1)))
        (s.read (stackAddress (s.sp + 1 + 1))) } := by
  have hdecode : Opcode.decode (s.read s.pc) = some ⟨.rti, .implied⟩ := by
    rw [h]
    decide +kernel
  rw [step_of_decode hdecode]
  rfl

/-- A software interrupt skips the byte behind it. -/
theorem step_of_brk {s : Mos6502} (h : s.read s.pc = 0x00) :
    s.step = { s with pc := s.pc + 2 }.enter (s.sr ||| flagB ||| flagU) irqVector := by
  have hdecode : Opcode.decode (s.read s.pc) = some ⟨.brk, .implied⟩ := by
    rw [h]
    decide +kernel
  have htwo : s.pc + 1 + 1 = s.pc + 2 := by rw [UInt16.add_assoc]; rfl
  rw [step_of_decode hdecode, ← htwo]
  rfl

/-- What is left of an interrupt after the return to `pc`: the status has its fixed bits, and below
the top of the stack three bytes may have changed. -/
structure Returned (s : Mos6502) (pc : UInt16) (t : Mos6502) : Prop where
  pc : t.pc = pc
  a : t.a = s.a
  x : t.x = s.x
  y : t.y = s.y
  sp : t.sp = s.sp
  sr : t.sr = settled s.sr
  latches : t.latches = s.latches
  mem : ∀ addr, addr ≠ stackAddress s.sp → addr ≠ stackAddress (s.sp - 1) →
    addr ≠ stackAddress (s.sp - 2) → t.read addr = s.read addr

/-- A return right behind the entry into an interrupt. -/
theorem returned_of_enter {s : Mos6502} (hs : s.mem.InstanceOf (Memory.ram 0x10000))
    {status : UInt8} {vector : Nat} (hstatus : settled status = settled s.sr)
    (h : (s.enter status vector).read (s.enter status vector).pc = 0x40) :
    s.Returned s.pc (s.enter status vector).step := by
  have hread (addr : UInt16) :
      (s.enter status vector).read addr = (s.entered status).read addr := by
    rw [enter_entered]
    rfl
  have hsp : (s.enter status vector).sp = s.sp - 1 - 1 - 1 := by
    rw [enter_entered, entered_eq hs]
  have hfirst : s.sp - 1 - 1 - 1 + 1 = s.sp - 1 - 1 := UInt8.sub_add_cancel _ _
  have hsecond : s.sp - 1 - 1 + 1 = s.sp - 1 := UInt8.sub_add_cancel _ _
  have hthird : s.sp - 1 + 1 = s.sp := UInt8.sub_add_cancel _ _
  -- The stack pointer may wrap around, so the three addresses are told apart in eight bits.
  have hnext (v : UInt8) : v ≠ v - 1 := by grind
  have hnextButOne (v : UInt8) : v ≠ v - 1 - 1 := by grind
  have hpulled : (s.entered status).read (stackAddress (s.sp - 1 - 1)) = status := by
    rw [read_entered hs, if_pos rfl]
  have hlow : (s.entered status).read (stackAddress (s.sp - 1)) = Word.low s.pc := by
    rw [read_entered hs, if_neg (mt stackAddress_inj.mp (hnext _)), if_pos rfl]
  have hhigh : (s.entered status).read (stackAddress s.sp) = Word.high s.pc := by
    rw [read_entered hs, if_neg (mt stackAddress_inj.mp (hnextButOne _)),
      if_neg (mt stackAddress_inj.mp (hnext _)), if_pos rfl]
  have hstep := step_of_rti h
  rw [hread, hread, hread, hsp, hfirst, hsecond, hthird, hpulled, hlow, hhigh,
    Word.word_high_low, hstatus] at hstep
  have htwo : s.sp - 2 = s.sp - 1 - 1 := by grind
  rw [hstep, enter_entered, entered_eq hs]
  refine ⟨rfl, rfl, rfl, rfl, rfl, rfl, rfl, ?_⟩
  intro addr htop hbelow hlast
  rw [htwo] at hlast
  have hunchanged := read_entered hs status addr
  rw [if_neg hlast, if_neg hbelow, if_neg htop, read, entered_eq hs] at hunchanged
  exact hunchanged

/-- An interrupt whose routine is nothing but a return leaves no more than the pushed bytes and a
settled status behind, and a software interrupt goes on behind the byte that it skips. -/
theorem interrupts_return {s : Mos6502} (hs : s.mem.InstanceOf (Memory.ram 0x10000)) :
    (s.nmi.read s.nmi.pc = 0x40 → s.Returned s.pc s.nmi.step) ∧
      (s.flag flagI = false → s.irq.read s.irq.pc = 0x40 → s.Returned s.pc s.irq.step) ∧
      (s.read s.pc = 0x00 → s.step.read s.step.pc = 0x40 →
        s.Returned (s.pc + 2) s.step.step) := by
  refine ⟨?_, ?_, ?_⟩
  · intro h
    exact returned_of_enter hs (settled_pushed s.sr).1 h
  · intro henabled h
    rw [irq_of_enabled henabled] at h ⊢
    exact returned_of_enter hs (settled_pushed s.sr).1 h
  · intro hbrk h
    rw [step_of_brk hbrk] at h ⊢
    have hstatus := (settled_pushed s.sr).2
    have hreturned := returned_of_enter (s := { s with pc := s.pc + 2 }) hs hstatus h
    exact { hreturned with }

/-- With zeros throughout but for a return at address zero, every interrupt finds it. -/
theorem enter_zeros {s : Mos6502} (hs : s.mem.InstanceOf (Memory.ram 0x10000))
    (hread : ∀ addr, s.read addr = if addr = 0 then 0x40 else 0) (status : UInt8) {vector : Nat}
    (hvector : 0x200 ≤ vector) (hend : vector + 1 < 0x10000) :
    (s.enter status vector).read (s.enter status vector).pc = 0x40 := by
  have hentered {addr : UInt16} (h : addr.toNat / 256 ≠ 1) :
      (s.entered status).read addr = s.read addr := by
    have hstack (v : UInt8) : addr ≠ stackAddress v := by
      rintro rfl
      rw [toNat_stackAddress] at h
      have hv := v.toNat_lt
      omega
    rw [read_entered hs, if_neg (hstack _), if_neg (hstack _), if_neg (hstack _)]
  have hzero {k : Nat} (hk : 0x200 ≤ k) (hk' : k < 0x10000) :
      (s.entered status).mem.read (s.entered status).latches k = 0 := by
    have hword : (UInt16.ofNat k).toNat = k := UInt16.toNat_ofNat_of_lt' hk'
    have hpositive : UInt16.ofNat k ≠ 0 := by
      rw [Ne, ← UInt16.toNat_inj, hword]
      exact Nat.ne_of_gt (Nat.lt_of_lt_of_le (by decide) hk)
    have h := hentered (show (UInt16.ofNat k).toNat / 256 ≠ 1 by omega)
    rw [hread, if_neg hpositive, read, hword] at h
    exact h
  have hpc : (s.enter status vector).pc = word 0 0 := by
    have htarget : (s.enter status vector).pc =
        word ((s.entered status).mem.read (s.entered status).latches (vector + 1))
          ((s.entered status).mem.read (s.entered status).latches vector) := by
      rw [enter_entered]
      rfl
    rw [htarget, hzero (by omega) hend, hzero hvector (by omega)]
  have hcode : (s.enter status vector).read (word 0 0) = (s.entered status).read (word 0 0) := by
    rw [enter_entered]
    rfl
  rw [hpc, hcode, hentered (by decide), hread]
  rfl

theorem interrupts_of_zeros {s : Mos6502} (hs : s.mem.InstanceOf (Memory.ram 0x10000))
    (hread : ∀ addr, s.read addr = if addr = 0 then 0x40 else 0) (henabled : s.flag flagI = false)
    (hpc : s.pc ≠ 0) :
    s.nmi.read s.nmi.pc = 0x40 ∧ s.irq.read s.irq.pc = 0x40 ∧ s.read s.pc = 0x00 ∧
      s.step.read s.step.pc = 0x40 := by
  have hcode : s.read s.pc = 0x00 := by rw [hread, if_neg hpc]
  have hbrk := enter_zeros (s := { s with pc := s.pc + 2 }) hs hread (s.sr ||| flagB ||| flagU)
    (show 0x200 ≤ irqVector by decide) (by decide)
  rw [irq_of_enabled henabled, step_of_brk hcode]
  exact ⟨enter_zeros hs hread _ (by decide) (by decide),
    enter_zeros hs hread _ (by decide) (by decide), hcode, hbrk⟩

/-- Over zeros but for a return at address zero, where all vectors lead, every interrupt comes back,
and a software interrupt goes on two bytes further. -/
theorem interrupts_return_to_zeros :
    let s := { powerOn (Memory.holding 0x10000 0 [0x40]) {} with pc := 0x200, sr := 0 }
    s.nmi.step.pc = 0x200 ∧ s.irq.step.pc = 0x200 ∧ s.step.step.pc = 0x202 ∧
      s.step.step.sr = 0x20 := by
  have hm := Memory.instanceOf_holding 0x10000 0 [0x40]
  have hlength : 0 + [(0x40 : UInt8)].length ≤ 0x10000 := by decide
  have hzero : (Memory.holding 0x10000 0 [0x40]).read {} (0 + 0) = [(0x40 : UInt8)][0] :=
    Memory.read_holding hlength {} Nat.zero_lt_one
  have hbehind {k : Nat} (hk : 1 ≤ k) (hk' : k < 0x10000) :
      (Memory.holding 0x10000 0 [0x40]).read {} k = 0 :=
    Memory.read_holding_behind hlength {} hk hk'
  generalize Memory.holding 0x10000 0 [0x40] = m at hm hzero hbehind ⊢
  intro s
  have hread (addr : UInt16) : s.read addr = if addr = 0 then 0x40 else 0 := by
    split
    · next h =>
      rw [h]
      exact hzero
    · next h =>
      have hpositive : addr.toNat ≠ 0 := fun h' => h (UInt16.toNat_inj.mp h')
      exact hbehind (Nat.pos_of_ne_zero hpositive) addr.toNat_lt
  have henabled : s.flag flagI = false := by
    change ((0 : UInt8) &&& flagI == flagI) = false
    decide
  have hpc : s.pc ≠ 0 := by
    change (0x200 : UInt16) ≠ 0
    decide
  obtain ⟨hnmi, hirq, hcode, hstep⟩ := interrupts_of_zeros hm hread henabled hpc
  obtain ⟨hnmi', hirq', hbrk⟩ := interrupts_return (s := s) hm
  have hreturned := hbrk hcode hstep
  exact ⟨(hnmi' hnmi).pc, (hirq' henabled hirq).pc, hreturned.pc,
    hreturned.sr.trans (show settled 0 = 0x20 by decide)⟩

end EightBit.Mos6502
