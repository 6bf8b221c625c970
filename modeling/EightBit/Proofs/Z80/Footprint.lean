import EightBit.Proofs.Ports
import EightBit.Proofs.Z80.Boundary

/-!
The port that a Z80 instruction reads or writes.

Where the memory has no ports, an instruction meets the registers outside only through the port
that it accesses. If that one is storage, or if it accesses none, the instruction does the same
whatever those registers hold, and leaves them alone.
-/

namespace EightBit.Z80

namespace Instruction

/-- The port that an instruction accesses, if it does, where `c` is register C. -/
def port? (i : Instruction) (c : UInt8) : Option UInt8 :=
  let op := i.opcode
  match i.page, Opcode.x op, Opcode.z op with
  | .base, 3, 3 => if Opcode.y op = 2 ∨ Opcode.y op = 3 then some i.byte else none
  | .extended, 1, 0 => some c
  | .extended, 1, 1 => some c
  | .extended, 2, 2 => if 4 ≤ Opcode.y op then some c else none
  | .extended, 2, 3 => if 4 ≤ Opcode.y op then some c else none
  | _, _, _ => none

end Instruction

/-- The port that the next step accesses, if it does. -/
def port? (s : Z80) : Option UInt8 := (Instruction.fetch s.read s.pc).port? s.c

theorem port?_of_out {s : Z80} (h : s.read s.pc = 0xd3) : s.port? = some (s.read (s.pc + 1)) := by
  have hinstruction : Instruction.fetch s.read s.pc =
      Instruction.fetchBase s.read ⟨s.pc, 0, 0⟩ .hl :=
    instruction_of_base (by rw [h]; decide) (by rw [h]; decide)
  have hcount : Opcode.immediateBytes 0xd3 = 1 := rfl
  have hx : Opcode.x 0xd3 = 3 := rfl
  have hy : Opcode.y 0xd3 = 2 := rfl
  have hz : Opcode.z 0xd3 = 3 := rfl
  rw [port?, hinstruction]
  simp [Instruction.port?, Instruction.fetchBase, Fetch.displacement, Fetch.immediate,
    Fetch.instruction, Instruction.byte, Word.low, h, hcount, hx, hy, hz]

theorem port?_powerOn {mem : Memory} {l : Latches} {port : UInt8} (hopcode : mem.read l 0 = 0xd3)
    (hport : mem.read l 1 = port) (ports : Memory) : (powerOn mem ports l).port? = some port := by
  have hout : (powerOn mem ports l).read (powerOn mem ports l).pc = 0xd3 := hopcode
  rw [port?_of_out hout]
  exact congrArg some hport

def connect (s : Z80) (l : Latches) : Z80 := { s with latches := l }

/-- The memory has no ports, as opposed to the port space. -/
def Portless (s : Z80) : Prop := ∀ addr, ¬ s.mem.IsPort addr

section Connect

variable {s : Z80} (l : Latches)

theorem connect_flags (f : UInt8) : { s.connect l with f } = { s with f }.connect l := rfl

theorem hl_connect : (s.connect l).hl = s.hl := rfl

theorem de_connect : (s.connect l).de = s.de := rfl

@[simp] theorem portless_write (addr : UInt16) (v : UInt8) :
    (s.write addr v).Portless ↔ s.Portless :=
  forall_congr' fun other => not_congr (Memory.isPort_write s.mem s.latches addr.toNat other v)

theorem read_connect (h : s.Portless) : (s.connect l).read = s.read := by
  funext addr
  exact Memory.read_of_not_isPort (h addr.toNat) l s.latches

theorem readWord_connect (h : s.Portless) (addr : UInt16) :
    (s.connect l).readWord addr = s.readWord addr := by
  simp only [readWord, read_connect l h]

theorem write_connect (h : s.Portless) (addr : UInt16) (v : UInt8) :
    (s.connect l).write addr v = (s.write addr v).connect l := by
  simp only [write, connect, Memory.write_of_not_isPort (h addr.toNat) l s.latches]

theorem writeWord_connect (h : s.Portless) (addr w : UInt16) :
    (s.connect l).writeWord addr w = (s.writeWord addr w).connect l := by
  have hlow : (s.write addr (Word.low w)).Portless := (portless_write addr _).mpr h
  simp only [writeWord, write_connect l h, write_connect l hlow]

theorem input_connect {port : UInt8} (h : ¬ s.ports.IsPort port.toNat) :
    (s.connect l).input port = s.input port := Memory.read_of_not_isPort h l s.latches

theorem input_c_connect (h : ¬ s.ports.IsPort s.c.toNat) :
    (s.connect l).input (s.connect l).c = s.input s.c := input_connect l h

theorem output_connect {port : UInt8} (h : ¬ s.ports.IsPort port.toNat) (v : UInt8) :
    (s.connect l).output port v = (s.output port v).connect l := by
  simp only [output, connect, Memory.write_of_not_isPort h l s.latches]

theorem push_connect (h : s.Portless) (w : UInt16) :
    (s.connect l).push w = (s.push w).connect l :=
  @writeWord_connect { s with sp := s.sp - 2 } l h (s.sp - 2) w

theorem pop_connect (h : s.Portless) :
    (s.connect l).pop = (s.pop.1, s.pop.2.connect l) :=
  Prod.ext (readWord_connect l h s.sp) rfl

theorem index_connect (i : Index) : (s.connect l).index i = s.index i := by
  cases i <;> rfl

theorem setIndex_connect (w : UInt16) (i : Index) :
    (s.connect l).setIndex w i = (s.setIndex w i).connect l := by
  cases i <;> rfl

theorem operandAddress_connect (i : Instruction) :
    (s.connect l).operandAddress i = s.operandAddress i := by
  simp only [operandAddress, index_connect]
  rfl

theorem get_connect (h : s.Portless) (p : Place) : (s.connect l).get p = s.get p := by
  cases p with
  | high i => exact congrArg Word.high (index_connect l i)
  | low i => exact congrArg Word.low (index_connect l i)
  | memory addr => exact congrFun (read_connect l h) addr
  | _ => rfl

theorem set_connect (h : s.Portless) (v : UInt8) (p : Place) :
    (s.connect l).set v p = (s.set v p).connect l := by
  cases p with
  | high i | low i => simp only [set, index_connect, setIndex_connect]
  | memory addr => exact write_connect l h addr v
  | _ => rfl

theorem portless_set (h : s.Portless) (v : UInt8) (p : Place) : (s.set v p).Portless := by
  cases p with
  | high i | low i => cases i <;> exact h
  | memory addr => exact (portless_write addr v).mpr h
  | _ => exact h

theorem pair_connect (p : Nat) (i : Index) : (s.connect l).pair p i = s.pair p i := by
  unfold pair
  split <;> rfl

theorem setPair_connect (p : Nat) (i : Index) (w : UInt16) :
    (s.connect l).setPair p i w = (s.setPair p i w).connect l := by
  unfold setPair
  split <;> first | rfl | exact setIndex_connect l w i

theorem stackPair_connect (p : Nat) (i : Index) :
    (s.connect l).stackPair p i = s.stackPair p i := by
  unfold stackPair
  split
  · rfl
  · exact pair_connect l p i

theorem setStackPair_connect (p : Nat) (i : Index) (w : UInt16) :
    (s.connect l).setStackPair p i w = (s.setStackPair p i w).connect l := by
  unfold setStackPair
  split
  · rfl
  · exact setPair_connect l p i w

theorem holds_connect (y : Nat) : (s.connect l).holds y = s.holds y := by
  unfold holds
  split <;> rfl

theorem jumpRelative_connect (taken : Bool) (distance : UInt8) :
    (s.connect l).jumpRelative taken distance = (s.jumpRelative taken distance).connect l := by
  cases taken <;> rfl

theorem call_connect (h : s.Portless) (addr : UInt16) :
    (s.connect l).call addr = (s.call addr).connect l :=
  congrArg (fun t : Z80 => { t with pc := addr }) (push_connect l h s.pc)

theorem ret_connect (h : s.Portless) : (s.connect l).ret = s.ret.connect l := by
  simp only [ret, pop_connect l h]
  rfl

theorem accumulate_connect (y : Nat) (v : UInt8) :
    (s.connect l).accumulate y v = (s.accumulate y v).connect l := by
  unfold accumulate
  split <;> rfl

theorem modify_connect (h : s.Portless) (p : Place) (f : UInt8 → UInt8 → Outcome) :
    (s.connect l).modify p f = (s.modify p f).connect l := by
  simp only [modify, get_connect l h, connect_flags]
  apply set_connect
  exact h

theorem performRelative_connect (i : Instruction) :
    (s.connect l).performRelative i = (s.performRelative i).connect l := by
  unfold performRelative
  split
  · rfl
  · rfl
  · exact @jumpRelative_connect { s with b := s.b - 1 } l _ i.byte
  · exact jumpRelative_connect l true i.byte
  · rw [holds_connect, jumpRelative_connect]

theorem performIndirect_connect (h : s.Portless) (i : Instruction) :
    (s.connect l).performIndirect i = (s.performIndirect i).connect l := by
  unfold performIndirect
  split
  · exact write_connect l h s.bc s.a
  · exact write_connect l h s.de s.a
  · rw [index_connect, writeWord_connect l h]
  · exact write_connect l h i.operand s.a
  · rw [read_connect l h]
    rfl
  · rw [read_connect l h]
    rfl
  · rw [readWord_connect l h, setIndex_connect]
  · rw [read_connect l h]
    rfl

theorem addPair_connect (i : Instruction) :
    (s.connect l).addPair i = (s.addPair i).connect l := by
  simp only [addPair, index_connect, pair_connect, connect_flags]
  exact setIndex_connect l _ i.index

theorem performMixed_connect (h : s.Portless) (i : Instruction) :
    (s.connect l).performMixed i = (s.performMixed i).connect l := by
  unfold performMixed
  simp only [operandAddress_connect, pair_connect]
  split
  · exact performRelative_connect l i
  · split
    · exact setPair_connect l _ _ _
    · exact addPair_connect l i
  · exact performIndirect_connect l h i
  · exact setPair_connect l _ _ _
  · exact modify_connect l h _ _
  · exact modify_connect l h _ _
  · exact set_connect l h _ _
  · split <;> rfl

theorem performLoad_connect (h : s.Portless) (i : Instruction) :
    (s.connect l).performLoad i = (s.performLoad i).connect l := by
  unfold performLoad
  simp only [operandAddress_connect, get_connect l h]
  split
  · rfl
  · exact set_connect l h _ _

theorem performPop_connect (h : s.Portless) (i : Instruction) :
    (s.connect l).performPop i = (s.performPop i).connect l := by
  unfold performPop
  simp only [pop_connect l h, index_connect]
  split
  · exact setStackPair_connect l _ _ _
  · split
    · exact ret_connect l h
    · rfl
    · rfl
    · rfl

theorem performControl_connect (h : s.Portless) (i : Instruction)
    (hport : Opcode.y i.opcode = 2 ∨ Opcode.y i.opcode = 3 → ¬ s.ports.IsPort i.byte.toNat) :
    (s.connect l).performControl i = (s.performControl i).connect l := by
  have hsp : (s.connect l).sp = s.sp := rfl
  unfold performControl
  split
  · rfl
  · next hy => exact output_connect l (hport (.inl hy)) s.a
  · next hy =>
    rw [input_connect l (hport (.inr hy))]
    rfl
  · simp only [hsp, index_connect, readWord_connect l h, writeWord_connect l h, setIndex_connect]
  · rfl
  · rfl
  · rfl
  · rfl

theorem performBranch_connect (h : s.Portless) (i : Instruction)
    (hport : Opcode.z i.opcode = 3 → Opcode.y i.opcode = 2 ∨ Opcode.y i.opcode = 3 →
      ¬ s.ports.IsPort i.byte.toNat) :
    (s.connect l).performBranch i = (s.performBranch i).connect l := by
  unfold performBranch
  simp only [holds_connect, stackPair_connect]
  split
  · split
    · exact ret_connect l h
    · rfl
  · exact performPop_connect l h i
  · split <;> rfl
  · next hz => exact performControl_connect l h i (hport hz)
  · split
    · exact call_connect l h _
    · rfl
  · split
    · exact push_connect l h _
    · exact call_connect l h _
  · exact accumulate_connect l _ _
  · exact call_connect l h _

theorem performBase_connect (h : s.Portless) (i : Instruction)
    (hport : Opcode.x i.opcode = 3 → Opcode.z i.opcode = 3 →
      Opcode.y i.opcode = 2 ∨ Opcode.y i.opcode = 3 → ¬ s.ports.IsPort i.byte.toNat) :
    (s.connect l).performBase i = (s.performBase i).connect l := by
  unfold performBase
  split
  · exact performMixed_connect l h i
  · exact performLoad_connect l h i
  · rw [operandAddress_connect, get_connect l h, accumulate_connect]
  · next h0 h1 h2 =>
    have hx : Opcode.x i.opcode = 3 := by grind [Opcode.x_lt i.opcode]
    exact performBranch_connect l h i (hport hx)

theorem performBits_connect (h : s.Portless) (i : Instruction) :
    (s.connect l).performBits i = (s.performBits i).connect l := by
  have hset (t : Z80) (ht : t.Portless) (v : UInt8) (p q : Place) :
      (if i.index = .hl ∨ Opcode.z i.opcode = 6 then (t.connect l).set v p
        else ((t.connect l).set v p).set v q) =
      (if i.index = .hl ∨ Opcode.z i.opcode = 6 then t.set v p
        else (t.set v p).set v q).connect l := by
    rw [set_connect l ht, set_connect l (portless_set ht v p)]
    split <;> rfl
  unfold performBits
  simp only [operandAddress_connect, get_connect l h, connect_flags]
  split
  · apply hset
    exact h
  · rfl
  · exact hset s h _ _ _
  · exact hset s h _ _ _

theorem performInput_connect (h : s.Portless) (hport : ¬ s.ports.IsPort s.c.toNat) (y : Nat) :
    (s.connect l).performInput y = (s.performInput y).connect l := by
  simp only [performInput, input_c_connect l hport, connect_flags]
  split
  · rfl
  · apply set_connect
    exact h

theorem rotateDigit_connect (h : s.Portless) (left : Bool) :
    (s.connect l).rotateDigit left = (s.rotateDigit left).connect l := by
  simp only [rotateDigit, hl_connect, read_connect l h, write_connect l h]
  rfl

theorem addPairCarry_connect (p q : Nat) :
    (s.connect l).addPairCarry p q = (s.addPairCarry p q).connect l := by
  simp only [addPairCarry, pair_connect]
  rfl

theorem performSpecial_connect (h : s.Portless) (y : Nat) :
    (s.connect l).performSpecial y = (s.performSpecial y).connect l := by
  unfold performSpecial
  split
  · rfl
  · rfl
  · rfl
  · rfl
  · exact rotateDigit_connect l h false
  · exact rotateDigit_connect l h true
  · rfl

theorem blockTransfer_connect (h : s.Portless) (y : Nat) :
    (s.connect l).blockTransfer y = ((s.blockTransfer y).1, (s.blockTransfer y).2.connect l) := by
  simp only [blockTransfer, hl_connect, de_connect, read_connect l h, write_connect l h]
  rfl

theorem blockCompare_connect (h : s.Portless) (y : Nat) :
    (s.connect l).blockCompare y = ((s.blockCompare y).1, (s.blockCompare y).2.connect l) := by
  simp only [blockCompare, hl_connect, read_connect l h]
  rfl

theorem blockInput_connect (h : s.Portless) (hport : ¬ s.ports.IsPort s.c.toNat) (y : Nat) :
    (s.connect l).blockInput y = ((s.blockInput y).1, (s.blockInput y).2.connect l) := by
  simp only [blockInput, input_c_connect l hport, hl_connect, write_connect l h]
  rfl

theorem blockOutput_connect (h : s.Portless) (hport : ¬ s.ports.IsPort s.c.toNat) (y : Nat) :
    (s.connect l).blockOutput y = ((s.blockOutput y).1, (s.blockOutput y).2.connect l) := by
  have houtput (v : UInt8) :
      { s.connect l with b := (s.connect l).b - 1 }.output (s.connect l).c v =
        ({ s with b := s.b - 1 }.output s.c v).connect l :=
    @output_connect { s with b := s.b - 1 } l s.c hport v
  simp only [blockOutput, hl_connect, read_connect l h, houtput]
  rfl

/-- Of the block operations those of the last two columns access a port. -/
theorem performBlock_connect (h : s.Portless) (y : Nat) {z : Nat}
    (hport : 2 ≤ z → ¬ s.ports.IsPort s.c.toNat) :
    (s.connect l).performBlock y z = (s.performBlock y z).connect l := by
  match z with
  | 0 =>
    simp only [performBlock, blockTransfer_connect l h]
    split <;> rfl
  | 1 =>
    simp only [performBlock, blockCompare_connect l h]
    split <;> rfl
  | 2 =>
    simp only [performBlock, blockInput_connect l h (hport (by omega))]
    split <;> rfl
  | z + 3 =>
    simp only [performBlock, blockOutput_connect l h (hport (by omega))]
    split <;> rfl

theorem performExtended_connect (h : s.Portless) (i : Instruction) (hpage : i.page = .extended)
    (hport : ∀ port ∈ i.port? s.c, ¬ s.ports.IsPort port.toNat) :
    (s.connect l).performExtended i = (s.performExtended i).connect l := by
  unfold performExtended
  simp only [pair_connect, get_connect l h]
  split
  · next hx hz =>
    have hc : s.c ∈ i.port? s.c := by simp [Instruction.port?, hpage, hx, hz]
    exact performInput_connect l h (hport s.c hc) _
  · next hx hz =>
    have hc : s.c ∈ i.port? s.c := by simp [Instruction.port?, hpage, hx, hz]
    exact output_connect l (hport s.c hc) _
  · exact addPairCarry_connect l _ _
  · split
    · exact writeWord_connect l h _ _
    · rw [readWord_connect l h]
      exact setPair_connect l _ _ _
  · rfl
  · rw [ret_connect l h]
    rfl
  · rfl
  · exact performSpecial_connect l h _
  · next hx =>
    split
    · next hblock =>
      obtain ⟨hy, hz⟩ : 4 ≤ Opcode.y i.opcode ∧ Opcode.z i.opcode ≤ 3 := by simpa using hblock
      apply performBlock_connect l h
      intro htwo
      have hc : s.c ∈ i.port? s.c := by
        have hcolumn : Opcode.z i.opcode = 2 ∨ Opcode.z i.opcode = 3 := by omega
        rcases hcolumn with hz | hz <;> simp [Instruction.port?, hpage, hx, hz, hy]
      exact hport s.c hc
    · rfl
  · rfl

/-- An instruction that accesses storage alone does not depend on the registers behind the ports,
nor does it change them. -/
theorem perform_connect (h : s.Portless) (i : Instruction)
    (hport : ∀ port ∈ i.port? s.c, ¬ s.ports.IsPort port.toNat) :
    (s.connect l).perform i = (s.perform i).connect l := by
  unfold perform
  split
  · next hpage =>
    apply performBase_connect l h
    intro hx hz hy
    exact hport i.byte (by simp [Instruction.port?, hpage, hx, hz, hy])
  · exact performBits_connect l h i
  · next hpage => exact performExtended_connect l h i hpage hport
  · rfl

theorem step_connect (h : s.Portless) (hport : ∀ port ∈ s.port?, ¬ s.ports.IsPort port.toNat) :
    (s.connect l).step = s.step.connect l := by
  simp only [step, read_connect l h]
  exact @perform_connect (s.pass (Instruction.fetch s.read s.pc)) l h _ hport

end Connect

end EightBit.Z80
