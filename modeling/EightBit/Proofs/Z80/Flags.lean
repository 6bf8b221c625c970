import EightBit.Proofs.Z80.Boundary
import Mathlib.Tactic.IntervalCases

/-!
The Z80 instructions that leave the flags as they are.

Every opcode stands for an operation, whatever index prefix is in front of it, and the listing names
the operation. Arithmetic, rotations, tests, block operations and what is read through BC leave
flags of their own. All other operations move data, the stack pointer, the program counter or the
interrupt state, and the flags are as they were.
-/

namespace EightBit.Z80

/-- What an instruction does, told apart as far as the flags are concerned. -/
inductive Operation where
  /-- Sixteen or eight bits from one place to another. -/
  | load
  /-- The accumulator from the interrupt or the refresh register. -/
  | loadSpecial
  | push
  /-- A pair other than accumulator and flags. -/
  | popPair
  | popFlags
  | exchange
  /-- Accumulator and flags with their alternates. -/
  | exchangeFlags
  | countPair
  | countByte
  | addPair
  | arithmetic
  /-- The one-byte operations on accumulator and carry. -/
  | adjust
  | negate
  | rotate
  | rotateDigit
  | testBit
  /-- One bit set or reset. -/
  | assignBit
  | jump
  | jumpCounting
  | call
  | ret
  | restart
  /-- The accumulator from the port of the immediate byte. -/
  | inputImmediate
  | input
  | output
  | block
  /-- Interrupts enabled or disabled. -/
  | switch
  | mode
  | halt
  | nop
  /-- No instruction: an index prefix alone, or an extended opcode that stands for none. -/
  | undefined
  deriving DecidableEq

namespace Operation

/-- The names that an operation is listed under; what is none has no name. -/
@[simp]
def mnemonics : Operation → List String
  | load | loadSpecial => ["ld"]
  | push => ["push"]
  | popPair | popFlags => ["pop"]
  | exchange => ["ex", "exx"]
  | exchangeFlags => ["ex"]
  | countPair | countByte => ["inc", "dec"]
  | addPair => ["add", "adc", "sbc"]
  | arithmetic => Lister.operations
  | adjust => Lister.accumulatorOperations
  | negate => ["neg"]
  | rotate => Lister.rotations
  | rotateDigit => ["rrd", "rld"]
  | testBit => ["bit"]
  | assignBit => ["res", "set"]
  | jump => ["jp", "jr"]
  | jumpCounting => ["djnz"]
  | call => ["call"]
  | ret => ["ret", "reti", "retn"]
  | restart => ["rst"]
  | inputImmediate | input => ["in"]
  | output => ["out"]
  | block => Lister.blocks
  | switch => ["di", "ei"]
  | mode => ["im"]
  | halt => ["halt"]
  | nop => ["nop"]
  | undefined => []

/-- Whether this is how an operation is listed: under a name of its own, or by its bytes. -/
@[simp]
def Listed (o : Operation) (mnemonic : String) : Prop :=
  mnemonic ∈ o.mnemonics ∨ ∃ bytes, mnemonic = "?" ++ bytes

def flagless : List Operation :=
  [load, push, popPair, exchange, countPair, assignBit, jump, jumpCounting, call, ret, restart,
    inputImmediate, output, switch, mode, halt, nop, undefined]

/-- The operation of a base opcode. The prefixes are among these opcodes but stand for none. -/
def ofBase (op : UInt8) : Operation :=
  let y := Opcode.y op
  let p := Opcode.p op
  let q := Opcode.q op
  match Opcode.x op, Opcode.z op with
  | 0, 0 =>
    match y with
    | 0 => nop
    | 1 => exchangeFlags
    | 2 => jumpCounting
    | _ => jump
  | 0, 1 => if q = 0 then load else addPair
  | 0, 2 => load
  | 0, 3 => countPair
  | 0, 4 => countByte
  | 0, 5 => countByte
  | 0, 6 => load
  | 0, _ => adjust
  | 1, z => if y = 6 ∧ z = 6 then halt else load
  | 2, _ => arithmetic
  | _, 0 => ret
  | _, 1 =>
    if q = 0 then if p = 3 then popFlags else popPair
    else match p with
      | 0 => ret
      | 1 => exchange
      | 2 => jump
      | _ => load
  | _, 2 => jump
  | _, 3 =>
    match y with
    | 0 => jump
    | 1 => undefined
    | 2 => output
    | 3 => inputImmediate
    | 4 => exchange
    | 5 => exchange
    | _ => switch
  | _, 4 => call
  | _, 5 => if q = 0 then push else if p = 0 then call else undefined
  | _, 6 => arithmetic
  | _, _ => restart

def ofBits (op : UInt8) : Operation :=
  match Opcode.x op with
  | 0 => rotate
  | 1 => testBit
  | _ => assignBit

def ofExtended (op : UInt8) : Operation :=
  let y := Opcode.y op
  match Opcode.x op, Opcode.z op with
  | 1, 0 => input
  | 1, 1 => output
  | 1, 2 => addPair
  | 1, 3 => load
  | 1, 4 => negate
  | 1, 5 => ret
  | 1, 6 => mode
  | 1, _ =>
    match y with
    | 0 => load
    | 1 => load
    | 2 => loadSpecial
    | 3 => loadSpecial
    | 4 => rotateDigit
    | 5 => rotateDigit
    | _ => undefined
  | 2, z => if 4 ≤ y ∧ z ≤ 3 then block else undefined
  | _, _ => undefined

end Operation

def Instruction.operation (i : Instruction) : Operation :=
  match i.page with
  | .base => .ofBase i.opcode
  | .bits => .ofBits i.opcode
  | .extended => .ofExtended i.opcode
  | .lone => .undefined

section Data

variable (s : Z80)

@[simp] theorem f_setBC (w : UInt16) : (s.setBC w).f = s.f := rfl

@[simp] theorem f_setDE (w : UInt16) : (s.setDE w).f = s.f := rfl

@[simp] theorem f_setHL (w : UInt16) : (s.setHL w).f = s.f := rfl

@[simp] theorem f_write (addr : UInt16) (v : UInt8) : (s.write addr v).f = s.f := rfl

@[simp] theorem f_writeWord (addr w : UInt16) : (s.writeWord addr w).f = s.f := rfl

@[simp] theorem f_output (port v : UInt8) : (s.output port v).f = s.f := rfl

@[simp] theorem f_push (w : UInt16) : (s.push w).f = s.f := rfl

@[simp] theorem f_call (addr : UInt16) : (s.call addr).f = s.f := rfl

@[simp] theorem f_ret : s.ret.f = s.f := rfl

@[simp] theorem f_exchangeAlternates : s.exchangeAlternates.f = s.f := rfl

@[simp] theorem f_setIndex (w : UInt16) (i : Index) : (s.setIndex w i).f = s.f := by
  cases i <;> rfl

@[simp] theorem f_set (v : UInt8) (p : Place) : (s.set v p).f = s.f := by
  cases p with
  | high i | low i => exact f_setIndex s _ i
  | _ => rfl

@[simp] theorem f_setPair (p : Nat) (i : Index) (w : UInt16) : (s.setPair p i w).f = s.f := by
  unfold setPair
  split <;> first | rfl | exact f_setIndex s w i

@[simp] theorem f_jumpRelative (taken : Bool) (distance : UInt8) :
    (s.jumpRelative taken distance).f = s.f := by
  cases taken <;> rfl

@[simp] theorem f_performIndirect (i : Instruction) : (s.performIndirect i).f = s.f := by
  unfold performIndirect
  split <;> first | rfl | exact f_setIndex s _ i.index

@[simp] theorem f_performLoad (i : Instruction) : (s.performLoad i).f = s.f := by
  unfold performLoad
  simp only
  split
  · rfl
  · exact f_set s _ _

@[simp] theorem f_performControl (i : Instruction) : (s.performControl i).f = s.f := by
  unfold performControl
  split <;> first | rfl | simp

end Data

section Perform

variable (s : Z80) (i : Instruction)

theorem f_performRelative (hx : Opcode.x i.opcode = 0) (hz : Opcode.z i.opcode = 0)
    (h : Operation.ofBase i.opcode ∈ Operation.flagless) : (s.performRelative i).f = s.f := by
  unfold performRelative
  split
  · rfl
  · next hy => simp [Operation.ofBase, hx, hz, hy, Operation.flagless] at h
  · exact f_jumpRelative _ _ _
  · exact f_jumpRelative _ _ _
  · exact f_jumpRelative _ _ _

theorem f_performMixed (hx : Opcode.x i.opcode = 0)
    (h : Operation.ofBase i.opcode ∈ Operation.flagless) : (s.performMixed i).f = s.f := by
  unfold performMixed
  simp only
  -- Where flags are written, the fields of the opcode name an operation that `h` rules out.
  split
  · next hz => exact f_performRelative s i hx hz h
  · next hz =>
    split
    · exact f_setPair s _ _ _
    · next hq => simp [Operation.ofBase, hx, hz, hq, Operation.flagless] at h
  · exact f_performIndirect s i
  · exact f_setPair s _ _ _
  · next hz => simp [Operation.ofBase, hx, hz, Operation.flagless] at h
  · next hz => simp [Operation.ofBase, hx, hz, Operation.flagless] at h
  · exact f_set s _ _
  · next h0 h1 h2 h3 h4 h5 h6 => simp [Operation.ofBase, hx, Operation.flagless] at h

theorem f_performPop (hx : Opcode.x i.opcode = 3) (hz : Opcode.z i.opcode = 1)
    (h : Operation.ofBase i.opcode ∈ Operation.flagless) : (s.performPop i).f = s.f := by
  unfold performPop
  simp only
  split
  · next hq =>
    have hp : Opcode.p i.opcode ≠ 3 := by
      intro hp
      simp [Operation.ofBase, hx, hz, hq, hp, Operation.flagless] at h
    rw [setStackPair, if_neg hp, f_setPair]
    rfl
  · split <;> rfl

theorem f_performBranch (hx : Opcode.x i.opcode = 3)
    (h : Operation.ofBase i.opcode ∈ Operation.flagless) : (s.performBranch i).f = s.f := by
  unfold performBranch
  simp only
  split
  · split <;> rfl
  · next hz => exact f_performPop s i hx hz h
  · split <;> rfl
  · exact f_performControl s i
  · split <;> rfl
  · split <;> rfl
  · next hz => simp [Operation.ofBase, hx, hz, Operation.flagless] at h
  · rfl

theorem f_performBase (h : Operation.ofBase i.opcode ∈ Operation.flagless) :
    (s.performBase i).f = s.f := by
  unfold performBase
  split
  · next hx => exact f_performMixed s i hx h
  · exact f_performLoad s i
  · next hx => simp [Operation.ofBase, hx, Operation.flagless] at h
  · next h0 h1 h2 =>
    have hx : Opcode.x i.opcode = 3 := by grind [Opcode.x_lt i.opcode]
    exact f_performBranch s i hx h

theorem f_performBits (h : Operation.ofBits i.opcode ∈ Operation.flagless) :
    (s.performBits i).f = s.f := by
  unfold performBits
  simp only
  split
  · next hx => simp [Operation.ofBits, hx, Operation.flagless] at h
  · next hx => simp [Operation.ofBits, hx, Operation.flagless] at h
  · split <;> simp only [f_set]
  · split <;> simp only [f_set]

theorem f_performSpecial (hx : Opcode.x i.opcode = 1) (hz : Opcode.z i.opcode = 7)
    (h : Operation.ofExtended i.opcode ∈ Operation.flagless) :
    (s.performSpecial (Opcode.y i.opcode)).f = s.f := by
  unfold performSpecial
  split
  · rfl
  · rfl
  · next hy => simp [Operation.ofExtended, hx, hz, hy, Operation.flagless] at h
  · next hy => simp [Operation.ofExtended, hx, hz, hy, Operation.flagless] at h
  · next hy => simp [Operation.ofExtended, hx, hz, hy, Operation.flagless] at h
  · next hy => simp [Operation.ofExtended, hx, hz, hy, Operation.flagless] at h
  · rfl

theorem f_performExtended (h : Operation.ofExtended i.opcode ∈ Operation.flagless) :
    (s.performExtended i).f = s.f := by
  unfold performExtended
  simp only
  split
  · next hx hz => simp [Operation.ofExtended, hx, hz, Operation.flagless] at h
  · rfl
  · next hx hz => simp [Operation.ofExtended, hx, hz, Operation.flagless] at h
  · split
    · rfl
    · exact f_setPair s _ _ _
  · next hx hz => simp [Operation.ofExtended, hx, hz, Operation.flagless] at h
  · rfl
  · rfl
  · next hx h0 h1 h2 h3 h4 h5 h6 =>
    have hz : Opcode.z i.opcode = 7 := by grind [Opcode.z_lt i.opcode]
    exact f_performSpecial s i hx hz h
  · next hx =>
    split
    · next hblock =>
      have hrow : 4 ≤ Opcode.y i.opcode ∧ Opcode.z i.opcode ≤ 3 := by simpa using hblock
      simp [Operation.ofExtended, hx, hrow, Operation.flagless] at h
    · rfl
  · rfl

theorem f_perform (h : i.operation ∈ Operation.flagless) : (s.perform i).f = s.f := by
  unfold Instruction.operation at h
  unfold perform
  split
  · next hpage =>
    rw [hpage] at h
    exact f_performBase s i h
  · next hpage =>
    rw [hpage] at h
    exact f_performBits s i h
  · next hpage =>
    rw [hpage] at h
    exact f_performExtended s i h
  · rfl

end Perform

namespace Lister

theorem name_mem {table : List String} {n : Nat} (h : n < table.length) :
    name table n ∈ table := by
  rw [name, List.getD_eq_getElem?_getD, List.getElem?_eq_getElem h, Option.getD_some]
  exact List.getElem_mem h

section Base

variable (code : Code) (addr skipped : Nat) (i : Index)

theorem listed_readMixed (hx : Opcode.x (code addr) = 0) :
    (Operation.ofBase (code addr)).Listed (readMixed code addr skipped i).mnemonic := by
  unfold readMixed
  simp only
  split
  · next hz => split <;> simp [Operation.ofBase, *]
  · next hz => split <;> simp [Operation.ofBase, *]
  · next hz => split <;> simp [Operation.ofBase, hx, hz]
  · next hz => split <;> simp [Operation.ofBase, hx, hz]
  · next hz => simp [Operation.ofBase, hx, hz]
  · next hz => simp [Operation.ofBase, hx, hz]
  · next hz => simp [Operation.ofBase, hx, hz]
  · have hname : name accumulatorOperations (Opcode.y (code addr)) ∈ accumulatorOperations :=
      name_mem (Opcode.y_lt _)
    simp [Operation.ofBase, hx, hname]

theorem listed_readLoad (hx : Opcode.x (code addr) = 1) :
    (Operation.ofBase (code addr)).Listed (readLoad code addr skipped i).mnemonic := by
  unfold readLoad
  simp only
  split
  · next hhalt => simp [Operation.ofBase, hx, hhalt]
  · next hhalt => simp [Operation.ofBase, hx, hhalt]

theorem listed_readBranch (hx : Opcode.x (code addr) = 3) :
    (Operation.ofBase (code addr)).Listed (readBranch code addr skipped i).mnemonic := by
  unfold readBranch
  simp only
  split
  · next hz => simp [Operation.ofBase, hx, hz]
  · next hz =>
    by_cases hq : Opcode.q (code addr) = 0
    · by_cases hp : Opcode.p (code addr) = 3 <;> simp [Operation.ofBase, hx, hz, hq, hp]
    · split <;> simp_all [Operation.ofBase]
  · next hz => simp [Operation.ofBase, hx, hz]
  · next hz => split <;> simp [Operation.ofBase, *]
  · next hz => simp [Operation.ofBase, hx, hz]
  · next hz =>
    by_cases hq : Opcode.q (code addr) = 0
    · simp [Operation.ofBase, hx, hz, hq]
    · split <;> simp_all [Operation.ofBase]
  · next hz =>
    have hop : Operation.ofBase (code addr) = .arithmetic := by simp [Operation.ofBase, hx, hz]
    rw [hop]
    exact .inl (name_mem (Opcode.y_lt _))
  · simp [Operation.ofBase, hx]

theorem listed_readBase :
    (Operation.ofBase (code addr)).Listed (readBase code addr skipped i).mnemonic := by
  unfold readBase
  split
  · next hx => exact listed_readMixed code addr skipped i hx
  · next hx => exact listed_readLoad code addr skipped i hx
  · next hx =>
    have hop : Operation.ofBase (code addr) = .arithmetic := by simp [Operation.ofBase, hx]
    rw [hop]
    exact .inl (name_mem (Opcode.y_lt _))
  · have hx : Opcode.x (code addr) = 3 := by grind [Opcode.x_lt (code addr)]
    exact listed_readBranch code addr skipped i hx

end Base

theorem listed_readBits (op : UInt8) (target : String) (indexed : Bool) (length : Nat) :
    (Operation.ofBits op).Listed (readBits op target indexed length).mnemonic := by
  have hname : name rotations (Opcode.y op) ∈ rotations := name_mem (Opcode.y_lt _)
  unfold readBits
  simp only
  split <;> simp [Operation.ofBits, *]

theorem listed_extended_bytes (o : Operation) (op : UInt8) :
    o.Listed ("?ed" ++ Numeral.hexPair op) :=
  .inr ⟨"ed" ++ Numeral.hexPair op, by rw [← String.append_assoc]; rfl⟩

theorem listed_readExtended (code : Code) (addr : Nat) :
    (Operation.ofExtended (code (addr + 1))).Listed (readExtended code addr).mnemonic := by
  have hy := Opcode.y_lt (code (addr + 1))
  unfold readExtended
  simp only
  split
  · next hx hz => simp [Operation.ofExtended, hx, hz]
  · next hx hz => simp [Operation.ofExtended, hx, hz]
  · next hx hz => split <;> simp [Operation.ofExtended, hx, hz]
  · next hx hz => simp [Operation.ofExtended, hx, hz]
  · next hx hz => simp [Operation.ofExtended, hx, hz]
  · next hx hz => split <;> simp [Operation.ofExtended, hx, hz]
  · next hx hz => simp [Operation.ofExtended, hx, hz]
  · next hx h0 h1 h2 h3 h4 h5 h6 =>
    interval_cases hrow : Opcode.y (code (addr + 1))
    case «6» | «7» => exact listed_extended_bytes _ _
    all_goals simp [Operation.ofExtended, specials, hx, hrow]
  · next hx =>
    split
    · next hblock =>
      have hrow : (Opcode.y (code (addr + 1)) - 4) * 4 + Opcode.z (code (addr + 1)) <
          blocks.length := by
        simp only [blocks, List.length_cons, List.length_nil]
        omega
      have hop : Operation.ofExtended (code (addr + 1)) = .block := by
        simp [Operation.ofExtended, hx, hblock]
      rw [hop]
      exact .inl (name_mem hrow)
    · exact listed_extended_bytes _ _
  · exact listed_extended_bytes _ _

end Lister

section Listing

variable {code : Code} {pc : UInt16}

theorem listed_readIndexed (hpc : pc.toNat ≤ 0xfffc) {i : Index} (hi : i ≠ .hl) :
    (Instruction.fetchIndexed (fun addr => code addr.toNat) ⟨pc, 0, 0⟩ i).operation.Listed
      (Lister.readIndexed code pc.toNat i).mnemonic := by
  have hone : (pc + 1).toNat = pc.toNat + 1 := toNat_add_ofNat (k := 1) (by omega)
  have hthree : (pc + 1 + 1 + 1).toNat = pc.toNat + 3 := by
    rw [UInt16.add_assoc, UInt16.add_assoc]
    exact toNat_add_ofNat (k := 3) (by omega)
  rw [Lister.readIndexed_eq, Instruction.fetchIndexed]
  simp only [Fetch.opcode_eq, Nat.zero_add, hone]
  by_cases hvoids : Instruction.voids (code (pc.toNat + 1)) = true
  · rw [if_pos hvoids, if_pos hvoids]
    exact .inr ⟨_, rfl⟩
  · rw [if_neg hvoids, if_neg hvoids]
    split
    · have hbits : (Instruction.fetchBits (fun addr => code addr.toNat)
          ⟨pc + 1, 1, 1⟩ i).operation = .ofBits (code (pc.toNat + 3)) := by
        rw [fetchBits_of_ne _ _ hi, ← hthree]
        rfl
      rw [hbits]
      exact Lister.listed_readBits _ _ _ _
    · split
      · obtain ⟨hpage, hopcode⟩ := page_fetchBase (fun addr => code addr.toNat) ⟨pc + 1, 1, 1⟩ i
        simp only [hone] at hopcode
        rw [Instruction.operation, hpage, hopcode]
        exact Lister.listed_readBase _ _ _ _
      · exact .inr ⟨_, String.append_assoc⟩

theorem listed_read (hpc : pc.toNat ≤ 0xfffc) :
    (Instruction.fetch (fun addr => code addr.toNat) pc).operation.Listed
      (Lister.read code pc.toNat).mnemonic := by
  have hone : (pc + 1).toNat = pc.toNat + 1 := toNat_add_ofNat (k := 1) (by omega)
  unfold Lister.read Instruction.fetch
  simp only
  split
  · rw [← hone]
    exact Lister.listed_readBits _ _ _ _
  · split
    · have h := Lister.listed_readExtended code pc.toNat
      rw [← hone] at h
      exact h
    · split
      · exact listed_readIndexed hpc (by decide)
      · split
        · exact listed_readIndexed hpc (by decide)
        · obtain ⟨hpage, hopcode⟩ := page_fetchBase (fun addr => code addr.toNat) ⟨pc, 0, 0⟩ .hl
          rw [Instruction.operation, hpage, hopcode]
          exact Lister.listed_readBase _ _ _ _

end Listing

/-- What is executed is listed under its own name, or only by its bytes: no prefix turns one
operation into another. -/
theorem listed_statement (s : Z80) (hpc : s.pc.toNat ≤ 0xfffc) :
    s.instruction.operation.Listed s.statement.mnemonic :=
  listed_read hpc

/-- A step whose operation has nothing to do with the flags leaves all eight of them as they were,
in every state, whatever memory answers and whichever prefix is in front. -/
theorem f_step_of_flagless (s : Z80) (h : s.instruction.operation ∈ Operation.flagless) :
    s.step.f = s.f := by
  rw [step_eq, f_perform _ _ h]
  rfl

theorem operation_of_indexed_bits {s : Z80} (hfirst : s.read s.pc = 0xdd)
    (hbits : s.read (s.pc + 1) = 0xcb) :
    s.instruction.operation = .ofBits (s.read (s.pc + 3)) := by
  have hinstruction : s.instruction = Instruction.fetchBits s.read ⟨s.pc + 1, 1, 1⟩ .ix := by
    simp [instruction, Instruction.fetch, Instruction.fetchIndexed, hfirst, hbits,
      Instruction.voids]
  have hthree : s.pc + 1 + 1 + 1 = s.pc + 3 := by
    rw [UInt16.add_assoc, UInt16.add_assoc]
    rfl
  rw [hinstruction, ← hthree]
  rfl

/-- Setting a bit behind both prefixes is among these operations. -/
theorem f_step_of_indexed_set :
    (holding 0x100 [0xdd, 0xcb, 0x05, 0xc6]).instruction.operation = .assignBit ∧
      (holding 0x100 [0xdd, 0xcb, 0x05, 0xc6]).step.f =
        (holding 0x100 [0xdd, 0xcb, 0x05, 0xc6]).f := by
  have hopcode : (holding 0x100 [0xdd, 0xcb, 0x05, 0xc6]).read (0x100 + 3) = 0xc6 :=
    read_holding (k := 3) (by decide) (by decide)
  have hoperation : (holding 0x100 [0xdd, 0xcb, 0x05, 0xc6]).instruction.operation =
      .assignBit := by
    rw [operation_of_indexed_bits (s := holding 0x100 [0xdd, 0xcb, 0x05, 0xc6])
      (read_holding (k := 0) (by decide) (by decide))
      (read_holding (k := 1) (by decide) (by decide))]
    exact congrArg Operation.ofBits hopcode
  exact ⟨hoperation, f_step_of_flagless _ (by rw [hoperation]; decide)⟩

end EightBit.Z80
