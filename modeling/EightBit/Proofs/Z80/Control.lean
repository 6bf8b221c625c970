import EightBit.Z80.Step
import EightBit.Proofs.Layout

/-!
What a Z80 instruction can do to the control registers and to the wiring of its memories.

Loads, arithmetic, exchanges, the stack and the ports leave all of it alone. What is left is a
short list of effects, each with the instructions that have it.
-/

namespace EightBit.Z80

structure Wiring where
  layout : Memory.Layout
  bank : Nat
  portLayout : Memory.Layout
  portBank : Nat
  latches : Nat

/-- The part of a state that data never reach: program counter, interrupt state, refresh counter
and the wiring of the memories. -/
structure Control extends Wiring where
  pc : UInt16
  i : UInt8
  r : UInt8
  iff1 : Bool
  iff2 : Bool
  im : UInt8
  halted : Bool

def control (s : Z80) : Control where
  pc := s.pc
  i := s.i
  r := s.r
  iff1 := s.iff1
  iff2 := s.iff2
  im := s.im
  halted := s.halted
  layout := s.mem.layout
  bank := s.mem.bank
  portLayout := s.ports.layout
  portBank := s.ports.bank
  latches := s.latches.values.size

section Data

variable (s : Z80)

@[simp] theorem control_setAF (w : UInt16) : (s.setAF w).control = s.control := rfl

@[simp] theorem control_setBC (w : UInt16) : (s.setBC w).control = s.control := rfl

@[simp] theorem control_setDE (w : UInt16) : (s.setDE w).control = s.control := rfl

@[simp] theorem control_setHL (w : UInt16) : (s.setHL w).control = s.control := rfl

@[simp] theorem control_write (addr : UInt16) (v : UInt8) :
    (s.write addr v).control = s.control := by
  simp [write, control]

@[simp] theorem control_writeWord (addr w : UInt16) :
    (s.writeWord addr w).control = s.control := by
  simp [writeWord]

@[simp] theorem control_output (port v : UInt8) : (s.output port v).control = s.control := by
  simp [output, control]

@[simp] theorem control_push (w : UInt16) : (s.push w).control = s.control := by
  simp only [push, control_writeWord]
  rfl

@[simp] theorem control_pop : s.pop.2.control = s.control := rfl

@[simp] theorem control_setIndex (w : UInt16) (i : Index) :
    (s.setIndex w i).control = s.control := by
  cases i <;> rfl

@[simp] theorem control_set (v : UInt8) (p : Place) : (s.set v p).control = s.control := by
  cases p with
  | high i | low i => exact control_setIndex s _ i
  | memory addr => exact control_write s addr v
  | _ => rfl

@[simp] theorem control_setPair (p : Nat) (i : Index) (w : UInt16) :
    (s.setPair p i w).control = s.control := by
  unfold setPair
  split <;> first | rfl | exact control_setIndex s w i

@[simp] theorem control_setStackPair (p : Nat) (i : Index) (w : UInt16) :
    (s.setStackPair p i w).control = s.control := by
  unfold setStackPair
  split
  · rfl
  · exact control_setPair s p i w

@[simp] theorem control_exchangeAlternates : s.exchangeAlternates.control = s.control := rfl

@[simp] theorem control_setA (o : Outcome) : (s.setA o).control = s.control := rfl

@[simp] theorem control_accumulate (y : Nat) (v : UInt8) :
    (s.accumulate y v).control = s.control := by
  unfold accumulate
  split <;> rfl

@[simp] theorem control_modify (p : Place) (f : UInt8 → UInt8 → Outcome) :
    (s.modify p f).control = s.control := by
  simp only [modify, control_set]
  rfl

@[simp] theorem control_addPair (i : Instruction) : (s.addPair i).control = s.control := by
  simp only [addPair, control_setIndex]
  rfl

@[simp] theorem control_performIndirect (i : Instruction) :
    (s.performIndirect i).control = s.control := by
  unfold performIndirect
  split <;> first | rfl | simp

@[simp] theorem control_performBits (i : Instruction) :
    (s.performBits i).control = s.control := by
  unfold performBits
  simp only
  split
  · split <;> simp only [control_set] <;> rfl
  · rfl
  · split <;> simp
  · split <;> simp

@[simp] theorem control_performInput (y : Nat) : (s.performInput y).control = s.control := by
  unfold performInput
  simp only
  split
  · rfl
  · rw [control_set]
    rfl

@[simp] theorem control_loadSpecial (v : UInt8) : (s.loadSpecial v).control = s.control := rfl

@[simp] theorem control_rotateDigit (left : Bool) :
    (s.rotateDigit left).control = s.control := by
  simp [rotateDigit]

@[simp] theorem control_addPairCarry (p q : Nat) : (s.addPairCarry p q).control = s.control := rfl

@[simp] theorem control_blockTransfer (y : Nat) : (s.blockTransfer y).2.control = s.control := by
  have h : (s.blockTransfer y).2.control = (s.write s.de (s.read s.hl)).control := rfl
  rw [h, control_write]

@[simp] theorem control_blockCompare (y : Nat) : (s.blockCompare y).2.control = s.control := rfl

@[simp] theorem control_blockInput (y : Nat) : (s.blockInput y).2.control = s.control := by
  have h : (s.blockInput y).2.control = (s.write s.hl (s.input s.c)).control := rfl
  rw [h, control_write]

@[simp] theorem control_blockOutput (y : Nat) : (s.blockOutput y).2.control = s.control := by
  have h : (s.blockOutput y).2.control =
      (({ s with b := s.b - 1 } : Z80).output s.c (s.read s.hl)).control := rfl
  rw [h, control_output]
  rfl

end Data

theorem Opcode.x_lt (op : UInt8) : Opcode.x op < 4 := by
  have := op.toNat_lt
  unfold Opcode.x
  omega

theorem Opcode.y_lt (op : UInt8) : Opcode.y op < 8 := Nat.mod_lt _ (by decide)

theorem Opcode.z_lt (op : UInt8) : Opcode.z op < 8 := Nat.mod_lt _ (by decide)

theorem Opcode.q_lt (op : UInt8) : Opcode.q op < 2 := Nat.mod_lt _ (by decide)

theorem Opcode.y_eq (op : UInt8) : Opcode.y op = Opcode.p op * 2 + Opcode.q op := by
  unfold Opcode.y Opcode.p Opcode.q
  omega

/-- An opcode is made up of its three fields. -/
theorem Opcode.eq_ofNat (op : UInt8) :
    op = UInt8.ofNat (Opcode.x op * 64 + Opcode.y op * 8 + Opcode.z op) := by
  have hfields : Opcode.x op * 64 + Opcode.y op * 8 + Opcode.z op = op.toNat := by
    unfold Opcode.x Opcode.y Opcode.z
    omega
  rw [hfields, UInt8.ofNat_toNat]

namespace Instruction

def halts (i : Instruction) : Bool := i.page == .base && i.opcode == 0x76

def jumps (i : Instruction) : Bool :=
  let op := i.opcode
  match i.page, Opcode.x op, Opcode.z op with
  | .base, 0, 0 => 2 ≤ Opcode.y op
  | .base, 3, 0 => true
  | .base, 3, 1 => Opcode.q op == 1 && (Opcode.p op == 0 || Opcode.p op == 2)
  | .base, 3, 2 => true
  | .base, 3, 3 => Opcode.y op == 0
  | .base, 3, 4 => true
  | .base, 3, 5 => Opcode.q op == 1
  | .base, 3, 7 => true
  | .extended, 1, 5 => true
  | _, _, _ => false

/-- Whether an instruction is a block operation of the kind that repeats itself. -/
def repeats (i : Instruction) : Bool :=
  i.page == .extended && Opcode.x i.opcode == 2 && 6 ≤ Opcode.y i.opcode &&
    Opcode.z i.opcode ≤ 3

def redirects (i : Instruction) : Bool := i.jumps || i.halts || i.repeats

/-- Whether an instruction is the extended one of this column and row of the second quarter. -/
def isSpecial (i : Instruction) (z y : Nat) : Bool :=
  i.page == .extended && Opcode.x i.opcode == 1 && Opcode.z i.opcode == z &&
    Opcode.y i.opcode == y

/-- What an instruction that has been passed can do to control. -/
inductive Controls (i : Instruction) (s : Z80) : Control → Prop
  | keeps : Controls i s s.control
  | jumps (h : i.jumps) (pc : UInt16) : Controls i s { s.control with pc }
  | halts (h : i.halts) : Controls i s { s.control with halted := true, pc := s.pc - 1 }
  | repeats (h : i.repeats) : Controls i s { s.control with pc := s.pc - 2 }
  | enables (on : Bool) (h : i.page = .base) (hop : i.opcode = if on then 0xfb else 0xf3) :
      Controls i s { s.control with iff1 := on, iff2 := on }
  | returns (h : i.jumps) (hpage : i.page = .extended) (pc : UInt16) :
      Controls i s { s.control with pc, iff1 := s.iff2 }
  | selects (y : Nat) (h : i.isSpecial 6 y) :
      Controls i s { s.control with im := interruptMode y }
  | loadsI (h : i.isSpecial 7 0) : Controls i s { s.control with i := s.a }
  | loadsR (h : i.isSpecial 7 1) : Controls i s { s.control with r := s.a }

theorem Controls.of_eq {i : Instruction} {s : Z80} {c : Control} (h : c = s.control) :
    i.Controls s c := h ▸ .keeps

theorem Controls.of_jump {i : Instruction} {s t : Z80} (hjump : i.jumps)
    (h : t.control = { s.control with pc := t.pc }) : i.Controls s t.control :=
  h ▸ .jumps hjump t.pc

end Instruction

open Instruction

section Effect

variable (s : Z80) (i : Instruction)

theorem control_jumpRelative (taken : Bool) (distance : UInt8) :
    (s.jumpRelative taken distance).control =
      { s.control with pc := (s.jumpRelative taken distance).pc } := by
  cases taken <;> rfl

theorem control_call (addr : UInt16) :
    (s.call addr).control = { s.control with pc := (s.call addr).pc } := by
  have h : (s.call addr).control = { (s.push s.pc).control with pc := addr } := rfl
  rw [h, control_push]
  rfl

theorem control_ret : s.ret.control = { s.control with pc := s.ret.pc } := rfl

theorem controls_performRelative (hpage : i.page = .base) (hx : Opcode.x i.opcode = 0)
    (hz : Opcode.z i.opcode = 0) : i.Controls s (s.performRelative i).control := by
  by_cases hy : 2 ≤ Opcode.y i.opcode
  · have hjump : i.jumps := by simpa [Instruction.jumps, hpage, hx, hz] using hy
    apply Controls.of_jump hjump
    unfold performRelative
    split
    · rfl
    · omega
    · exact control_jumpRelative { s with b := s.b - 1 } _ _
    · exact control_jumpRelative s _ _
    · exact control_jumpRelative s _ _
  · apply Controls.of_eq
    unfold performRelative
    split <;> first | rfl | grind

theorem controls_performMixed (hpage : i.page = .base) (hx : Opcode.x i.opcode = 0) :
    i.Controls s (s.performMixed i).control := by
  by_cases hz : Opcode.z i.opcode = 0
  · have h := controls_performRelative s i hpage hx hz
    simpa only [performMixed, hz] using h
  · apply Controls.of_eq
    unfold performMixed
    simp only
    split
    · contradiction
    · split <;> simp
    · simp
    · simp
    · simp
    · simp
    · simp
    · split <;> rfl

theorem controls_performLoad (hpage : i.page = .base) (hx : Opcode.x i.opcode = 1) :
    i.Controls s (s.performLoad i).control := by
  unfold performLoad
  simp only
  split
  · next hhalt =>
    have hop : i.opcode = 0x76 := by
      rw [Opcode.eq_ofNat i.opcode, hx, hhalt.1, hhalt.2]
      rfl
    exact .halts (by simp [Instruction.halts, hpage, hop])
  · apply Controls.of_eq
    simp

theorem controls_performControl (hpage : i.page = .base) (hx : Opcode.x i.opcode = 3)
    (hz : Opcode.z i.opcode = 3) : i.Controls s (s.performControl i).control := by
  have hop := Opcode.eq_ofNat i.opcode
  unfold performControl
  split
  · next hy => exact .jumps (by simp [Instruction.jumps, hpage, hx, hz, hy]) i.operand
  · exact .of_eq (by simp)
  · exact .keeps
  · exact .of_eq (by simp)
  · exact .keeps
  · next hy =>
    rw [hx, hy, hz] at hop
    exact .enables false hpage hop
  · next hy =>
    rw [hx, hy, hz] at hop
    exact .enables true hpage hop
  · exact .keeps

theorem controls_performPop (hpage : i.page = .base) (hx : Opcode.x i.opcode = 3)
    (hz : Opcode.z i.opcode = 1) : i.Controls s (s.performPop i).control := by
  unfold performPop
  simp only
  split
  · exact .of_eq (by simp)
  · next hq =>
    have hq : Opcode.q i.opcode = 1 := by
      unfold Opcode.q at hq ⊢
      omega
    split
    · next hp =>
      exact .of_jump (by simp [Instruction.jumps, hpage, hx, hz, hq, hp]) (control_ret s)
    · exact .of_eq (control_exchangeAlternates s)
    · next hp => exact .jumps (by simp [Instruction.jumps, hpage, hx, hz, hq, hp]) _
    · exact .keeps

theorem controls_performBranch (hpage : i.page = .base) (hx : Opcode.x i.opcode = 3) :
    i.Controls s (s.performBranch i).control := by
  unfold performBranch
  simp only
  split
  · next hz =>
    have hjump : i.jumps := by simp [Instruction.jumps, hpage, hx, hz]
    split
    · exact .of_jump hjump (control_ret s)
    · exact .keeps
  · next hz => exact controls_performPop s i hpage hx hz
  · next hz =>
    split
    · exact .jumps (by simp [Instruction.jumps, hpage, hx, hz]) i.operand
    · exact .keeps
  · next hz => exact controls_performControl s i hpage hx hz
  · next hz =>
    split
    · exact .of_jump (by simp [Instruction.jumps, hpage, hx, hz]) (control_call s i.operand)
    · exact .keeps
  · next hz =>
    split
    · exact .of_eq (by simp)
    · next hq =>
      have hq : Opcode.q i.opcode = 1 := by
        unfold Opcode.q at hq ⊢
        omega
      exact .of_jump (by simp [Instruction.jumps, hpage, hx, hz, hq]) (control_call s i.operand)
  · exact .of_eq (by simp)
  · next h0 h1 h2 h3 h4 h5 h6 =>
    have hz : Opcode.z i.opcode = 7 := by grind [Opcode.z_lt i.opcode]
    exact .of_jump (by simp [Instruction.jumps, hpage, hx, hz]) (control_call s _)

theorem controls_performBase (hpage : i.page = .base) :
    i.Controls s (s.performBase i).control := by
  unfold performBase
  split
  · next hx => exact controls_performMixed s i hpage hx
  · next hx => exact controls_performLoad s i hpage hx
  · exact .of_eq (by simp)
  · next h0 h1 h2 =>
    have hx : Opcode.x i.opcode = 3 := by grind [Opcode.x_lt i.opcode]
    exact controls_performBranch s i hpage hx

theorem controls_performSpecial (hpage : i.page = .extended) (hx : Opcode.x i.opcode = 1)
    (hz : Opcode.z i.opcode = 7) :
    i.Controls s (s.performSpecial (Opcode.y i.opcode)).control := by
  unfold performSpecial
  split
  · next hy => exact .loadsI (by simp [Instruction.isSpecial, hpage, hx, hz, hy])
  · next hy => exact .loadsR (by simp [Instruction.isSpecial, hpage, hx, hz, hy])
  · exact .keeps
  · exact .keeps
  · exact .of_eq (by simp)
  · exact .of_eq (by simp)
  · exact .keeps

theorem control_performBlock (y z : Nat) :
    (s.performBlock y z).control = s.control ∨
      6 ≤ y ∧ (s.performBlock y z).control = { s.control with pc := s.pc - 2 } := by
  unfold performBlock
  split
  next again t hblock =>
    have ht : t.control = s.control := by
      split at hblock
      · simpa only [hblock] using control_blockTransfer s y
      · simpa only [hblock] using control_blockCompare s y
      · simpa only [hblock] using control_blockInput s y
      · simpa only [hblock] using control_blockOutput s y
    have hpc : t.pc = s.pc := congrArg Control.pc ht
    split
    · next hagain =>
      right
      refine ⟨by simp_all, ?_⟩
      rw [← ht, ← hpc]
      rfl
    · exact .inl ht

theorem controls_performExtended (hpage : i.page = .extended) :
    i.Controls s (s.performExtended i).control := by
  unfold performExtended
  simp only
  split
  · exact .of_eq (control_performInput s _)
  · exact .of_eq (control_output s s.c _)
  · exact .of_eq (control_addPairCarry s _ _)
  · split <;> exact .of_eq (by simp)
  · exact .of_eq (control_setA s _)
  · next hx hz =>
    exact .returns (by simp [Instruction.jumps, hpage, hx, hz]) hpage s.ret.pc
  · next hx hz => exact .selects _ (by simp [Instruction.isSpecial, hpage, hx, hz])
  · next hx h0 h1 h2 h3 h4 h5 h6 =>
    have hz : Opcode.z i.opcode = 7 := by grind [Opcode.z_lt i.opcode]
    exact controls_performSpecial s i hpage hx hz
  · next hx =>
    split
    · next hblock =>
      obtain ⟨hy, hz⟩ : 4 ≤ Opcode.y i.opcode ∧ Opcode.z i.opcode ≤ 3 := by simpa using hblock
      rcases control_performBlock s (Opcode.y i.opcode) (Opcode.z i.opcode) with h | ⟨hy, h⟩
      · exact .of_eq h
      · rw [h]
        exact .repeats (by simp [Instruction.repeats, hpage, hx, hy, hz])
    · exact .keeps
  · exact .keeps

/-- Everything that performing an instruction can do to control. -/
theorem controls_perform : i.Controls s (s.perform i).control := by
  unfold perform
  split
  · next hpage => exact controls_performBase s i hpage
  · exact .of_eq (by simp)
  · next hpage => exact controls_performExtended s i hpage
  · exact .keeps

/-- An instruction that does not redirect execution leaves the program counter alone. -/
theorem pc_perform_of_not_redirects (h : i.redirects = false) : (s.perform i).pc = s.pc := by
  have hpc : (s.perform i).pc = (s.perform i).control.pc := rfl
  obtain ⟨⟨hjumps, hhalts⟩, hrepeats⟩ :
      (i.jumps = false ∧ i.halts = false) ∧ i.repeats = false := by
    simpa [Instruction.redirects] using h
  have hcontrols := controls_perform s i
  rw [hpc]
  generalize (s.perform i).control = c at hcontrols
  cases hcontrols <;> simp_all [control]

/-- No instruction changes the wiring. -/
theorem wiring_perform : (s.perform i).control.toWiring = s.control.toWiring := by
  have hcontrols := controls_perform s i
  generalize (s.perform i).control = c at hcontrols
  cases hcontrols <;> rfl

theorem wiring_step : s.step.control.toWiring = s.control.toWiring :=
  wiring_perform (s.pass (Instruction.fetch s.read s.pc)) (Instruction.fetch s.read s.pc)

theorem size_latches_step : s.step.latches.values.size = s.latches.values.size :=
  congrArg Wiring.latches (wiring_step s)

end Effect

end EightBit.Z80
