import EightBit.Mos6502.Lister
import EightBit.Proofs.Mos6502.Control
import EightBit.Proofs.Ram
import EightBit.Proofs.Word

/-!
Listing and execution agree on where a 6502 instruction ends and where it leads.
-/

namespace EightBit.Mos6502

namespace Opcode

theorem mem_matrix_of_decode {code : UInt8} {op : Opcode} (h : decode code = some op) :
    some op ∈ matrix.toList := by
  unfold decode Array.getD at h
  split at h
  · rw [← h]
    exact Array.getElem_mem_toList _
  · contradiction

/-- Branches and only branches are relative. -/
theorem relative_iff_branches {code : UInt8} {m : Mnemonic} {mode : Mode}
    (h : decode code = some ⟨m, mode⟩) : mode = .relative ↔ m.branches = true := by
  have hall : ∀ entry ∈ matrix.toList, ∀ op ∈ entry,
      (op.mode = .relative ↔ op.mnemonic.branches = true) := by decide +kernel
  exact hall _ (mem_matrix_of_decode h) _ rfl

/-- A subroutine call names its target. -/
theorem absolute_of_jsr {code : UInt8} {mode : Mode} (h : decode code = some ⟨.jsr, mode⟩) :
    mode = .absolute := by
  have hall : ∀ entry ∈ matrix.toList, ∀ op ∈ entry,
      op.mnemonic = .jsr → op.mode = .absolute := by decide +kernel
  exact hall _ (mem_matrix_of_decode h) _ rfl rfl

end Opcode

theorem Mode.operandBytes_le (mode : Mode) : mode.operandBytes ≤ 2 := by
  cases mode <;> decide

/-- The status bit that a branch looks at and the state in which it is taken. -/
def Mnemonic.condition? : Mnemonic → Option (UInt8 × Bool)
  | .bpl => some (flagN, false)
  | .bmi => some (flagN, true)
  | .bvc => some (flagV, false)
  | .bvs => some (flagV, true)
  | .bcc => some (flagC, false)
  | .bcs => some (flagC, true)
  | .bne => some (flagZ, false)
  | .beq => some (flagZ, true)
  | _ => none

def statement (s : Mos6502) : Statement := lister (s.mem.read s.latches) s.pc.toNat

section Boundary

variable {s : Mos6502} {m : Mnemonic} {mode : Mode}

theorem pc_operand (s : Mos6502) (mode : Mode) :
    (s.operand mode).2.pc = s.pc + UInt16.ofNat mode.operandBytes :=
  congrArg Control.pc (control_operand s mode)

theorem flag_operand (s : Mos6502) (mode : Mode) (mask : UInt8) :
    (s.operand mode).2.flag mask = s.flag mask := by
  cases mode <;> rfl

/-- Finding an operand does no more than take bytes of the program. -/
theorem operand_eq (s : Mos6502) (mode : Mode) : ∃ pc, (s.operand mode).2 = { s with pc } := by
  cases mode <;> exact ⟨_, rfl⟩

theorem step_of_undefined (h : Opcode.decode (s.read s.pc) = none) : s.step = s.fetch.2 := by
  have hcode : s.fetch.1 = s.read s.pc := rfl
  rw [← hcode] at h
  unfold step
  simp only
  split
  · rfl
  · next hdecode => cases h.symm.trans hdecode

theorem step_of_decode (h : Opcode.decode (s.read s.pc) = some ⟨m, mode⟩) :
    s.step = (s.fetch.2.operand mode).2.perform (s.fetch.2.operand mode).1 m := by
  have hcode : s.fetch.1 = s.read s.pc := rfl
  rw [← hcode] at h
  unfold step
  simp only
  split
  · next hdecode => cases h.symm.trans hdecode
  · next hdecode =>
    cases h.symm.trans hdecode
    rfl

theorem statement_of_undefined (h : Opcode.decode (s.read s.pc) = none) :
    s.statement = ⟨s.pc.toNat, [s.read s.pc], "?" ++ Numeral.hexPair (s.read s.pc), ""⟩ := by
  unfold statement lister
  simp only
  split
  · rfl
  · next hdecode => cases h.symm.trans hdecode

theorem statement_of_decode (h : Opcode.decode (s.read s.pc) = some ⟨m, mode⟩) :
    s.statement.bytes.length = 1 + mode.operandBytes ∧
      s.statement.next = s.pc.toNat + (1 + mode.operandBytes) := by
  unfold statement lister
  simp only
  split
  · next hdecode => cases h.symm.trans hdecode
  · next hdecode =>
    cases h.symm.trans hdecode
    simp [Statement.next]

theorem operands_of_relative (h : Opcode.decode (s.read s.pc) = some ⟨m, .relative⟩) :
    s.statement.operands = Numeral.hexWord (UInt16.ofNat (s.pc.toNat + 2) +
      Word.distance (s.mem.read s.latches (s.pc.toNat + 1))) := by
  unfold statement lister
  simp only
  split
  · next hdecode => cases h.symm.trans hdecode
  · next hdecode =>
    cases h.symm.trans hdecode
    rfl

theorem operands_of_absolute (h : Opcode.decode (s.read s.pc) = some ⟨m, .absolute⟩) :
    s.statement.operands = Numeral.hexWord (word (s.mem.read s.latches (s.pc.toNat + 2))
      (s.mem.read s.latches (s.pc.toNat + 1))) := by
  unfold statement lister
  simp only
  split
  · next hdecode => cases h.symm.trans hdecode
  · next hdecode =>
    cases h.symm.trans hdecode
    rfl

/-- Away from the end of the address space, the bytes behind the program counter are listed as they
are fetched. -/
theorem read_behind (s : Mos6502) {k : Nat} (hk : s.pc.toNat + k < 0x10000) :
    s.read (s.pc + UInt16.ofNat k) = s.mem.read s.latches (s.pc.toNat + k) := by
  rw [read, toNat_add_ofNat hk]

/-- The program counter when an instruction is performed. -/
theorem pc_passed (h : Opcode.decode (s.read s.pc) = some ⟨m, mode⟩) :
    (s.fetch.2.operand mode).2.pc = UInt16.ofNat s.statement.next := by
  have hone : UInt16.ofNat 1 = 1 := rfl
  rw [(statement_of_decode h).2, ofNat_toNat_add, pc_operand, UInt16.ofNat_add, hone,
    ← UInt16.add_assoc]
  rfl

/-- Execution continues behind an instruction that does not redirect it. -/
theorem pc_step_of_not_redirects (h : Opcode.decode (s.read s.pc) = some ⟨m, mode⟩)
    (hm : m.redirects = false) : s.step.pc = UInt16.ofNat s.statement.next := by
  have hperform := control_perform_of_not_redirects (s.fetch.2.operand mode).2
    (s.fetch.2.operand mode).1 hm
  have hpc := congrArg Control.pc hperform
  rw [step_of_decode h, ← pc_passed h]
  exact hpc

theorem pc_step_of_undefined (h : Opcode.decode (s.read s.pc) = none) :
    s.step.pc = UInt16.ofNat s.statement.next := by
  have hnext : s.statement.next = s.pc.toNat + 1 := by
    rw [statement_of_undefined h]
    rfl
  rw [step_of_undefined h, hnext, ofNat_toNat_add]
  rfl

/-- The last three bytes of the address space are where the listing goes on outside of it. -/
theorem pc_step_at_end (hpc : s.pc = 0xfffd) (h : Opcode.decode (s.read s.pc) = some ⟨m, mode⟩)
    (hmode : mode.operandBytes = 2) (hm : m.redirects = false) :
    s.step.pc = 0 ∧ s.statement.next = 0x10000 := by
  have hnext : s.statement.next = 0x10000 := by
    rw [(statement_of_decode h).2, hmode, hpc]
    rfl
  rw [pc_step_of_not_redirects h hm, hnext]
  exact ⟨rfl, rfl⟩

theorem perform_of_condition {mask : UInt8} {on : Bool} (s : Mos6502) (o : Operand)
    (h : m.condition? = some (mask, on)) : s.perform o m = s.branch (s.flag mask == on) o := by
  cases m <;> simp only [Mnemonic.condition?, reduceCtorEq, Option.some.injEq, Prod.mk.injEq] at h
  all_goals
    obtain ⟨rfl, rfl⟩ := h
    simp [perform]

theorem condition_of_branches (h : m.branches = true) :
    ∃ mask on, m.condition? = some (mask, on) := by
  cases m <;> first | contradiction | exact ⟨_, _, rfl⟩

/-- A branch that is taken leads to the address that is listed, and one that is not leads behind
itself. -/
theorem step_of_branch {mask : UInt8} {on : Bool} (hpc : s.pc.toNat ≤ 0xfffd)
    (h : Opcode.decode (s.read s.pc) = some ⟨m, .relative⟩)
    (hcondition : m.condition? = some (mask, on)) :
    (s.flag mask = on → s.statement.operands = Numeral.hexWord s.step.pc) ∧
      (s.flag mask ≠ on → s.step.pc.toNat = s.statement.next) := by
  have hpassed := pc_passed h
  have hnext : s.statement.next = s.pc.toNat + 2 := (statement_of_decode h).2
  have hflag : (s.fetch.2.operand .relative).2.flag mask = s.flag mask :=
    flag_operand s.fetch.2 .relative mask
  have hoperand : (s.fetch.2.operand .relative).1 =
      .immediate (s.mem.read s.latches (s.pc.toNat + 1)) :=
    congrArg Operand.immediate (read_behind s (k := 1) (by omega))
  have hstep : s.step = (s.fetch.2.operand .relative).2.branch (s.flag mask == on)
      (.immediate (s.mem.read s.latches (s.pc.toNat + 1))) := by
    rw [step_of_decode h, perform_of_condition _ _ hcondition, hflag, hoperand]
  constructor
  · intro htaken
    rw [operands_of_relative h, hstep, htaken, beq_self_eq_true, branch, if_pos rfl, hpassed, hnext]
  · intro hmissed
    have hfalse : (s.flag mask == on) = false := beq_false_of_ne hmissed
    rw [hstep, hfalse, branch, if_neg Bool.false_ne_true, hpassed, UInt16.toNat_ofNat']
    omega

/-- A jump or a call to an absolute address leads to the address that is listed. -/
theorem step_of_absolute (hpc : s.pc.toNat ≤ 0xfffd)
    (h : Opcode.decode (s.read s.pc) = some ⟨m, .absolute⟩) (hm : m = .jmp ∨ m = .jsr) :
    s.statement.operands = Numeral.hexWord s.step.pc := by
  have hlow : s.fetch.2.read s.fetch.2.pc = s.mem.read s.latches (s.pc.toNat + 1) :=
    read_behind s (k := 1) (by omega)
  have htwo : s.pc + 1 + 1 = s.pc + 2 := by rw [UInt16.add_assoc]; rfl
  have hhigh : s.fetch.2.fetch.2.read s.fetch.2.fetch.2.pc =
      s.mem.read s.latches (s.pc.toNat + 2) := by
    rw [← read_behind s (by omega)]
    exact congrArg s.read htwo
  have hoperand : (s.fetch.2.operand .absolute).1 =
      .address (word (s.fetch.2.fetch.2.read s.fetch.2.fetch.2.pc)
        (s.fetch.2.read s.fetch.2.pc)) := rfl
  rw [operands_of_absolute h, step_of_decode h, hoperand, hlow, hhigh]
  rcases hm with rfl | rfl <;> rfl

/-- Listing and execution agree. An instruction that does not redirect execution leads to where the
listing goes on, in sixteen bits; behind three bytes at `$fffd`, and nowhere else, that makes a
difference. A branch leads there or to the address that is listed for it, depending on its
condition, and an absolute jump or call leads to the address that is listed. -/
theorem step_agrees_with_statement (s : Mos6502) (hpc : s.pc.toNat ≤ 0xfffd) :
    s.statement.next ≤ 0x10000 ∧
      (Opcode.decode (s.read s.pc) = none → s.step.pc.toNat = s.statement.next) ∧
      ∀ m mode, Opcode.decode (s.read s.pc) = some ⟨m, mode⟩ →
        (m.redirects = false → s.step.pc.toNat = s.statement.next % 0x10000) ∧
        (s.statement.next = 0x10000 ↔ s.pc.toNat = 0xfffd ∧ mode.operandBytes = 2) ∧
        (m.branches = true → ∃ mask on, m.condition? = some (mask, on) ∧
          (s.flag mask = on → s.statement.operands = Numeral.hexWord s.step.pc) ∧
          (s.flag mask ≠ on → s.step.pc.toNat = s.statement.next)) ∧
        (m = .jmp ∧ mode = .absolute ∨ m = .jsr →
          s.statement.operands = Numeral.hexWord s.step.pc) := by
  refine ⟨?_, ?_, ?_⟩
  · cases h : Opcode.decode (s.read s.pc) with
    | none =>
      rw [statement_of_undefined h]
      simp only [Statement.next, List.length_singleton]
      omega
    | some op =>
      obtain ⟨m, mode⟩ := op
      have hbytes := mode.operandBytes_le
      rw [(statement_of_decode h).2]
      omega
  · intro h
    have hnext : s.statement.next = s.pc.toNat + 1 := by
      rw [statement_of_undefined h]
      rfl
    rw [pc_step_of_undefined h, hnext, UInt16.toNat_ofNat']
    omega
  · intro m mode h
    refine ⟨?_, ?_, ?_, ?_⟩
    · intro hm
      rw [pc_step_of_not_redirects h hm, UInt16.toNat_ofNat']
    · have hbytes := mode.operandBytes_le
      rw [(statement_of_decode h).2]
      omega
    · intro hm
      obtain rfl := (Opcode.relative_iff_branches h).mpr hm
      obtain ⟨mask, on, hcondition⟩ := condition_of_branches hm
      exact ⟨mask, on, hcondition, step_of_branch hpc h hcondition⟩
    · rintro (⟨rfl, rfl⟩ | rfl)
      · exact step_of_absolute hpc h (.inl rfl)
      · obtain rfl := Opcode.absolute_of_jsr h
        exact step_of_absolute hpc h (.inr rfl)

end Boundary

def holding (pc : UInt16) (vs : List UInt8) : Mos6502 :=
  { powerOn (Memory.holding 0x10000 pc.toNat vs) {} with pc }

theorem mem_holding (pc : UInt16) (vs : List UInt8) :
    (holding pc vs).mem = Memory.holding 0x10000 pc.toNat vs := rfl

theorem instanceOf_holding (pc : UInt16) (vs : List UInt8) :
    (holding pc vs).mem.InstanceOf (Memory.ram 0x10000) := by
  rw [mem_holding]
  exact Memory.instanceOf_holding _ _ _

theorem read_holding {pc : UInt16} {v : UInt8} {vs : List UInt8}
    (hvs : pc.toNat + (v :: vs).length ≤ 0x10000) : (holding pc (v :: vs)).read pc = v := by
  have h := Memory.read_holding hvs (holding pc (v :: vs)).latches (Nat.zero_lt_succ vs.length)
  simp only [Nat.add_zero, List.getElem_cons_zero] at h
  rw [read, mem_holding, h]

/-- A branch on the zero flag, which is clear, is listed with the address that it leads to. -/
theorem step_agrees_with_bne :
    (holding 0x200 [0xd0, 0xfe]).pc.toNat ≤ 0xfffd ∧
      (holding 0x200 [0xd0, 0xfe]).statement.operands =
        Numeral.hexWord (holding 0x200 [0xd0, 0xfe]).step.pc := by
  have hpc : (holding 0x200 [0xd0, 0xfe]).pc.toNat ≤ 0xfffd := by decide
  have hdecode : Opcode.decode ((holding 0x200 [0xd0, 0xfe]).read 0x200) =
      some ⟨.bne, .relative⟩ := by
    rw [read_holding (by decide)]
    decide +kernel
  obtain ⟨-, -, hagrees⟩ := step_agrees_with_statement (holding 0x200 [0xd0, 0xfe]) hpc
  obtain ⟨-, -, hbranch, -⟩ := hagrees .bne .relative hdecode
  obtain ⟨mask, on, hcondition, htaken, -⟩ := hbranch rfl
  cases hcondition
  exact ⟨hpc, htaken rfl⟩

/-- A load that takes up the last three bytes of the address space leads to address zero, but the
listing goes on at `$10000`. -/
theorem load_at_end_wraps :
    (holding 0xfffd [0xad, 0x34, 0x12]).mem.InstanceOf (Memory.ram 0x10000) ∧
      (holding 0xfffd [0xad, 0x34, 0x12]).pc.toNat ≤ 0xfffd ∧
      Opcode.decode ((holding 0xfffd [0xad, 0x34, 0x12]).read 0xfffd) =
        some ⟨.lda, .absolute⟩ ∧
      (holding 0xfffd [0xad, 0x34, 0x12]).step.pc.toNat = 0 ∧
      (holding 0xfffd [0xad, 0x34, 0x12]).statement.next = 0x10000 := by
  have hdecode : Opcode.decode ((holding 0xfffd [0xad, 0x34, 0x12]).read 0xfffd) =
      some ⟨.lda, .absolute⟩ := by
    rw [read_holding (by decide)]
    decide +kernel
  obtain ⟨hstep, hnext⟩ := pc_step_at_end rfl hdecode rfl rfl
  refine ⟨instanceOf_holding _ _, by decide, hdecode, ?_, hnext⟩
  rw [hstep]
  rfl

end EightBit.Mos6502
