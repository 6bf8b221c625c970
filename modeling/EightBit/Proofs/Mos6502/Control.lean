import EightBit.Mos6502.Step
import EightBit.Proofs.Layout

/-!
What a 6502 instruction can do to the program counter and to the wiring of its memory.

Loads, stores, arithmetic and the stack leave both alone. Taking the next program byte and the
instructions that redirect execution move the program counter, and nothing changes the wiring.
-/

namespace EightBit.Mos6502

/-- The part of a state that data never reach: the program counter, how memory is laid out,
which bank is selected, and how many registers there are behind the ports. -/
structure Control where
  pc : UInt16
  layout : Memory.Layout
  bank : Nat
  latches : Nat

def control (s : Mos6502) : Control where
  pc := s.pc
  layout := s.mem.layout
  bank := s.mem.bank
  latches := s.latches.values.size

abbrev Control.at (c : Control) (pc : UInt16) : Control := { c with pc }

variable (s : Mos6502)

theorem layout_control : s.control.layout = s.mem.layout := rfl

theorem bank_control : s.control.bank = s.mem.bank := rfl

theorem latches_control : s.control.latches = s.latches.values.size := rfl

@[simp] theorem control_write (addr : UInt16) (v : UInt8) :
    (s.write addr v).control = s.control := by
  simp [write, control]

@[simp] theorem control_push (v : UInt8) : (s.push v).control = s.control := by
  have h : (s.push v).control = (s.write (stackAddress s.sp) v).control := rfl
  rw [h, control_write]

@[simp] theorem control_pushWord (w : UInt16) : (s.pushWord w).control = s.control := by
  simp [pushWord]

@[simp] theorem control_pull : s.pull.2.control = s.control := rfl

@[simp] theorem control_pullWord : s.pullWord.2.control = s.control := rfl

@[simp] theorem control_pullStatus : s.pullStatus.control = s.control := rfl

@[simp] theorem control_setFlag (mask : UInt8) (on : Bool) :
    (s.setFlag mask on).control = s.control := rfl

@[simp] theorem control_setA (r : Outcome) : (s.setA r).control = s.control := rfl

@[simp] theorem control_setX (r : Outcome) : (s.setX r).control = s.control := rfl

@[simp] theorem control_setY (r : Outcome) : (s.setY r).control = s.control := rfl

@[simp] theorem control_store (v : UInt8) (o : Operand) : (s.store v o).control = s.control := by
  cases o with
  | address addr => exact control_write s addr v
  | _ => rfl

@[simp] theorem control_modify (o : Operand) (f : UInt8 → UInt8 → Outcome) :
    (s.modify o f).control = s.control := by
  simp only [modify, control_store]
  rfl

@[simp] theorem control_compare (register v : UInt8) :
    (s.compare register v).control = s.control := rfl

@[simp] theorem control_testBits (v : UInt8) : (s.testBits v).control = s.control := rfl

@[simp] theorem control_addWithCarry (v : UInt8) : (s.addWithCarry v).control = s.control := by
  unfold addWithCarry
  split <;> rfl

@[simp] theorem control_subtractWithBorrow (v : UInt8) :
    (s.subtractWithBorrow v).control = s.control := by
  unfold subtractWithBorrow
  split <;> rfl

theorem control_fetch : s.fetch.2.control = s.control.at (s.pc + 1) := rfl

theorem control_enter (status : UInt8) (addr : Nat) :
    (s.enter status addr).control = s.control.at (s.enter status addr).pc := by
  have h : ((s.pushWord s.pc).push status).control = s.control := by simp
  simp only [control, Control.mk.injEq] at h
  obtain ⟨_, hlayout, hbank, hlatches⟩ := h
  simp only [enter, control, hlayout, hbank, hlatches]

/-- Finding the operand passes the bytes that the addressing mode asks for. -/
theorem control_operand (mode : Mode) :
    (s.operand mode).2.control = s.control.at (s.pc + UInt16.ofNat mode.operandBytes) := by
  have htwo : s.pc + 1 + 1 = s.pc + 2 := by rw [UInt16.add_assoc]; rfl
  cases mode <;>
    simp [operand, fetch, fetchWord, control, Mode.operandBytes, htwo]

namespace Mnemonic

def branches : Mnemonic → Bool
  | .bcc | .bcs | .bne | .beq | .bpl | .bmi | .bvc | .bvs => true
  | _ => false

/-- Whether execution can continue elsewhere than behind the instruction. -/
def redirects : Mnemonic → Bool
  | .brk | .rts | .rti | .jmp | .jsr => true
  | m => m.branches

end Mnemonic

theorem control_branch (taken : Bool) (o : Operand) :
    (s.branch taken o).control = s.control.at (s.branch taken o).pc := by
  cases o with
  | immediate v => cases taken <;> rfl
  | _ => rfl

theorem control_jump (o : Operand) : (s.jump o).control = s.control.at (s.jump o).pc := by
  cases o <;> rfl

/-- An instruction that does not redirect leaves control alone. -/
theorem control_perform_of_not_redirects (o : Operand) {m : Mnemonic} (h : m.redirects = false) :
    (s.perform o m).control = s.control := by
  cases m with
  | txs => rfl
  | _ => first | contradiction | simp [perform]

/-- Whatever an instruction does, it changes nothing of control but the program counter. -/
theorem control_perform (o : Operand) (m : Mnemonic) :
    (s.perform o m).control = s.control.at (s.perform o m).pc := by
  by_cases h : m.redirects
  · cases m with
    | brk => exact control_enter s.fetch.2 _ _
    | jsr =>
      have hpush := control_pushWord s (s.pc - 1)
      simp only [perform, control_jump, hpush]
    | rti | rts => rfl
    | jmp => exact control_jump s o
    | bcc | bcs | bne | beq | bpl | bmi | bvc | bvs => exact control_branch s _ o
    | _ => contradiction
  · have hkeep := control_perform_of_not_redirects s o (by simpa using h)
    have hpc : (s.perform o m).pc = s.pc := congrArg Control.pc hkeep
    rw [hkeep, hpc]
    rfl

/-- A step changes nothing of control but the program counter. -/
theorem control_step : s.step.control = s.control.at s.step.pc := by
  unfold step
  simp only
  split
  · rfl
  · next mnemonic mode _ =>
    rw [control_perform, control_operand, control_fetch]

theorem layout_step : s.step.mem.layout = s.mem.layout := by
  rw [← layout_control, control_step, layout_control]

theorem bank_step : s.step.mem.bank = s.mem.bank := by
  rw [← bank_control, control_step, bank_control]

theorem size_latches_step : s.step.latches.values.size = s.latches.values.size := by
  rw [← latches_control, control_step, latches_control]

end EightBit.Mos6502
