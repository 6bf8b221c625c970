import EightBit.Mos6502.Step
import EightBit.Proofs.Ports

/-!
The bytes of memory that a 6502 instruction reads or writes.

Where none of them is a port, the instruction does the same whatever the registers behind the ports
hold, and leaves those registers alone: a step and a change of the registers can change places.
-/

namespace EightBit.Mos6502

/-- The bytes that finding an operand reads: those of the program, then the pointer if there is
one. -/
def operandAccesses (s : Mos6502) : Mode → List UInt16
  | .implied | .accumulator => []
  | .immediate | .relative | .zeroPage | .zeroPageX | .zeroPageY => [s.pc]
  | .absolute | .absoluteX | .absoluteY => [s.pc, s.pc + 1]
  | .indirect =>
    let (addr, _) := s.fetchWord
    [s.pc, s.pc + 1, addr, word (Word.high addr) (Word.low addr + 1)]
  | .indirectX =>
    let zp := s.read s.pc + s.x
    [s.pc, zp.toUInt16, (zp + 1).toUInt16]
  | .indirectY =>
    let zp := s.read s.pc
    [s.pc, zp.toUInt16, (zp + 1).toUInt16]

def Operand.accesses : Operand → List UInt16
  | .address addr => [addr]
  | _ => []

/-- The bytes that performing an instruction reads or writes. Only the address of its operand, not
the byte that is there, counts for a jump. -/
def dataAccesses (s : Mos6502) (o : Operand) : Mnemonic → List UInt16
  | .jmp => []
  | .jsr => [stackAddress s.sp, stackAddress (s.sp - 1)]
  | .pha | .php => [stackAddress s.sp]
  | .pla | .plp => [stackAddress (s.sp + 1)]
  | .rts => [stackAddress (s.sp + 1), stackAddress (s.sp + 1 + 1)]
  | .rti =>
    [stackAddress (s.sp + 1), stackAddress (s.sp + 1 + 1), stackAddress (s.sp + 1 + 1 + 1)]
  | .brk =>
    [s.pc, stackAddress s.sp, stackAddress (s.sp - 1), stackAddress (s.sp - 1 - 1),
      UInt16.ofNat irqVector, UInt16.ofNat (irqVector + 1)]
  | _ => o.accesses

def accesses (s : Mos6502) : List UInt16 :=
  let (code, t) := s.fetch
  s.pc :: match Opcode.decode code with
    | none => []
    | some ⟨mnemonic, mode⟩ =>
      let (o, u) := t.operand mode
      t.operandAccesses mode ++ u.dataAccesses o mnemonic

/-- A software interrupt skips a byte, pushes three and reads the vector. -/
theorem accesses_brk {s : Mos6502} (h : s.read s.pc = 0) :
    s.accesses = [s.pc, s.pc + 1, stackAddress s.sp, stackAddress (s.sp - 1),
      stackAddress (s.sp - 1 - 1), UInt16.ofNat irqVector, UInt16.ofNat (irqVector + 1)] := by
  have hdecode : Opcode.decode 0 = some ⟨.brk, .implied⟩ := by decide +kernel
  unfold accesses
  simp only [fetch, h, hdecode, operand, operandAccesses, dataAccesses, List.nil_append]

theorem accesses_powerOn {mem : Memory} {l : Latches} (h : mem.read l (0 : UInt16).toNat = 0) :
    (powerOn mem l).accesses = [0, 1, 0x01fd, 0x01fc, 0x01fb, 0xfffe, 0xffff] := by
  have hread : (powerOn mem l).read (powerOn mem l).pc = 0 := h
  rw [accesses_brk hread]
  simp only [powerOn]
  decide

def connect (s : Mos6502) (l : Latches) : Mos6502 := { s with latches := l }

def Stores (s : Mos6502) (addrs : List UInt16) : Prop := ∀ addr ∈ addrs, ¬ s.mem.IsPort addr.toNat

section Connect

variable {s : Mos6502} (l : Latches)

@[simp] theorem stores_cons {addr : UInt16} {addrs : List UInt16} :
    s.Stores (addr :: addrs) ↔ ¬ s.mem.IsPort addr.toNat ∧ s.Stores addrs := List.forall_mem_cons

@[simp] theorem stores_append {addrs more : List UInt16} :
    s.Stores (addrs ++ more) ↔ s.Stores addrs ∧ s.Stores more := List.forall_mem_append

@[simp] theorem stores_nil : s.Stores [] := nofun

@[simp] theorem flag_connect (mask : UInt8) : (s.connect l).flag mask = s.flag mask := rfl

theorem connect_ite (p : Prop) [Decidable p] (t : Mos6502) :
    (if p then s else t).connect l = if p then s.connect l else t.connect l :=
  apply_ite (connect · l) p s t

theorem read_connect {addr : UInt16} (h : ¬ s.mem.IsPort addr.toNat) :
    (s.connect l).read addr = s.read addr := Memory.read_of_not_isPort h l s.latches

theorem write_connect {addr : UInt16} (h : ¬ s.mem.IsPort addr.toNat) (v : UInt8) :
    (s.connect l).write addr v = (s.write addr v).connect l := by
  simp only [write, connect, Memory.write_of_not_isPort h l s.latches]

theorem fetch_connect (h : ¬ s.mem.IsPort s.pc.toNat) :
    (s.connect l).fetch = (s.fetch.1, s.fetch.2.connect l) :=
  Prod.ext (read_connect l h) rfl

theorem fetchWord_connect (h : s.Stores [s.pc, s.pc + 1]) :
    (s.connect l).fetchWord = (s.fetchWord.1, s.fetchWord.2.connect l) := by
  obtain ⟨hlow, hhigh, -⟩ : ¬ s.mem.IsPort s.pc.toNat ∧ ¬ s.mem.IsPort (s.pc + 1).toNat ∧
      s.Stores [] := by simpa using h
  have hsecond : ¬ s.fetch.2.mem.IsPort s.fetch.2.pc.toNat := hhigh
  simp only [fetchWord, fetch_connect l hlow, fetch_connect l hsecond]

theorem zeroPageWord_connect {zp : UInt8} (hlow : ¬ s.mem.IsPort zp.toUInt16.toNat)
    (hhigh : ¬ s.mem.IsPort (zp + 1).toUInt16.toNat) :
    (s.connect l).zeroPageWord zp = s.zeroPageWord zp := by
  rw [zeroPageWord, read_connect l hhigh, read_connect l hlow, zeroPageWord]

theorem pageWord_connect {addr : UInt16} (hlow : ¬ s.mem.IsPort addr.toNat)
    (hhigh : ¬ s.mem.IsPort (word (Word.high addr) (Word.low addr + 1)).toNat) :
    (s.connect l).pageWord addr = s.pageWord addr := by
  rw [pageWord, read_connect l hhigh, read_connect l hlow, pageWord]

theorem operand_connect {mode : Mode} (h : s.Stores (s.operandAccesses mode)) :
    (s.connect l).operand mode = ((s.operand mode).1, (s.operand mode).2.connect l) := by
  cases mode with
  | implied | accumulator => rfl
  | immediate | relative | zeroPage =>
    simp only [operand, fetch_connect l (stores_cons.mp h).1]
  | zeroPageX | zeroPageY =>
    simp only [operand, fetch_connect l (stores_cons.mp h).1]
    rfl
  | absolute => simp only [operand, fetchWord_connect l h]
  | absoluteX | absoluteY =>
    simp only [operand, fetchWord_connect l h]
    rfl
  | indirect =>
    obtain ⟨hlow, hrest⟩ := stores_cons.mp h
    obtain ⟨hhigh, hrest⟩ := stores_cons.mp hrest
    obtain ⟨haddr, hrest⟩ := stores_cons.mp hrest
    have hpointer : (s.fetchWord.2.connect l).pageWord s.fetchWord.1 =
        s.fetchWord.2.pageWord s.fetchWord.1 :=
      pageWord_connect l haddr (stores_cons.mp hrest).1
    have hword : s.Stores [s.pc, s.pc + 1] :=
      stores_cons.mpr ⟨hlow, stores_cons.mpr ⟨hhigh, stores_nil⟩⟩
    simp only [operand, fetchWord_connect l hword, hpointer]
  | indirectX =>
    obtain ⟨hpc, hrest⟩ := stores_cons.mp h
    obtain ⟨hlow, hrest⟩ := stores_cons.mp hrest
    have hpointer : (s.fetch.2.connect l).zeroPageWord (s.fetch.1 + s.x) =
        s.fetch.2.zeroPageWord (s.fetch.1 + s.x) :=
      zeroPageWord_connect l hlow (stores_cons.mp hrest).1
    simp only [operand, fetch_connect l hpc]
    exact Prod.ext (congrArg Operand.address hpointer) rfl
  | indirectY =>
    obtain ⟨hpc, hrest⟩ := stores_cons.mp h
    obtain ⟨hlow, hrest⟩ := stores_cons.mp hrest
    have hpointer : (s.fetch.2.connect l).zeroPageWord s.fetch.1 =
        s.fetch.2.zeroPageWord s.fetch.1 :=
      zeroPageWord_connect l hlow (stores_cons.mp hrest).1
    simp only [operand, fetch_connect l hpc, hpointer]
    rfl

theorem operandValue_connect {o : Operand} (h : s.Stores o.accesses) :
    (s.connect l).operandValue o = s.operandValue o := by
  cases o with
  | address addr => exact read_connect l (stores_cons.mp h).1
  | _ => rfl

theorem store_connect {o : Operand} (h : s.Stores o.accesses) (v : UInt8) :
    (s.connect l).store v o = (s.store v o).connect l := by
  cases o with
  | address addr => exact write_connect l (stores_cons.mp h).1 v
  | _ => rfl

theorem modify_connect {o : Operand} (h : s.Stores o.accesses) (f : UInt8 → UInt8 → Outcome) :
    (s.connect l).modify o f = (s.modify o f).connect l := by
  simp only [modify, operandValue_connect l h]
  exact @store_connect { s with sr := (f s.sr (s.operandValue o)).flags } l o h _

theorem addWithCarry_connect (v : UInt8) :
    (s.connect l).addWithCarry v = (s.addWithCarry v).connect l := by
  simp only [addWithCarry, flag_connect, connect_ite]
  rfl

theorem subtractWithBorrow_connect (v : UInt8) :
    (s.connect l).subtractWithBorrow v = (s.subtractWithBorrow v).connect l := by
  simp only [subtractWithBorrow, flag_connect, connect_ite]
  rfl

theorem branch_connect (taken : Bool) (o : Operand) :
    (s.connect l).branch taken o = (s.branch taken o).connect l := by
  cases o with
  | immediate v => cases taken <;> rfl
  | _ => rfl

theorem jump_connect (o : Operand) : (s.connect l).jump o = (s.jump o).connect l := by
  cases o <;> rfl

@[simp] theorem isPort_push (v : UInt8) (addr : Nat) :
    (s.push v).mem.IsPort addr ↔ s.mem.IsPort addr :=
  Memory.isPort_write s.mem s.latches _ addr v

theorem push_connect (h : ¬ s.mem.IsPort (stackAddress s.sp).toNat) (v : UInt8) :
    (s.connect l).push v = (s.push v).connect l :=
  congrArg (fun t : Mos6502 => { t with sp := t.sp - 1 }) (write_connect l h v)

theorem pushWord_connect (h : s.Stores [stackAddress s.sp, stackAddress (s.sp - 1)])
    (w : UInt16) : (s.connect l).pushWord w = (s.pushWord w).connect l := by
  obtain ⟨hhigh, hrest⟩ := stores_cons.mp h
  have hlow : ¬ (s.push (Word.high w)).mem.IsPort (stackAddress (s.sp - 1)).toNat := by
    simpa only [isPort_push] using (stores_cons.mp hrest).1
  rw [pushWord, push_connect l hhigh, push_connect l hlow, pushWord]

theorem pull_connect (h : ¬ s.mem.IsPort (stackAddress (s.sp + 1)).toNat) :
    (s.connect l).pull = (s.pull.1, s.pull.2.connect l) :=
  Prod.ext (read_connect l h) rfl

theorem pullWord_connect
    (h : s.Stores [stackAddress (s.sp + 1), stackAddress (s.sp + 1 + 1)]) :
    (s.connect l).pullWord = (s.pullWord.1, s.pullWord.2.connect l) := by
  obtain ⟨hlow, hrest⟩ := stores_cons.mp h
  have hhigh : ¬ s.pull.2.mem.IsPort (stackAddress (s.pull.2.sp + 1)).toNat :=
    (stores_cons.mp hrest).1
  simp only [pullWord, pull_connect l hlow, pull_connect l hhigh]

theorem pullStatus_connect (h : ¬ s.mem.IsPort (stackAddress (s.sp + 1)).toNat) :
    (s.connect l).pullStatus = s.pullStatus.connect l := by
  simp only [pullStatus, pull_connect l h]
  rfl

theorem vector_connect {addr : Nat} (hlow : ¬ s.mem.IsPort addr)
    (hhigh : ¬ s.mem.IsPort (addr + 1)) : (s.connect l).vector addr = s.vector addr := by
  have hlowByte := Memory.read_of_not_isPort hlow l s.latches
  have hhighByte := Memory.read_of_not_isPort hhigh l s.latches
  simp only [vector, Memory.readWord, connect, hlowByte, hhighByte]

theorem enter_connect {addr : Nat}
    (h : s.Stores [stackAddress s.sp, stackAddress (s.sp - 1), stackAddress (s.sp - 1 - 1)])
    (hlow : ¬ s.mem.IsPort addr) (hhigh : ¬ s.mem.IsPort (addr + 1)) (status : UInt8) :
    (s.connect l).enter status addr = (s.enter status addr).connect l := by
  obtain ⟨hfirst, hrest⟩ := stores_cons.mp h
  obtain ⟨hsecond, hrest⟩ := stores_cons.mp hrest
  have hpushed : (s.connect l).pushWord (s.connect l).pc = (s.pushWord s.pc).connect l :=
    pushWord_connect l (stores_cons.mpr ⟨hfirst, stores_cons.mpr ⟨hsecond, stores_nil⟩⟩) s.pc
  have hthird : ¬ (s.pushWord s.pc).mem.IsPort (stackAddress (s.sp - 1 - 1)).toNat := by
    simpa only [pushWord, isPort_push] using (stores_cons.mp hrest).1
  obtain ⟨t, ht⟩ : ∃ t, (s.pushWord s.pc).push status = t := ⟨_, rfl⟩
  have hport (other : Nat) : t.mem.IsPort other ↔ s.mem.IsPort other := by
    simp only [← ht, pushWord, isPort_push]
  have hvector : (({ t with sr := t.sr ||| flagI } : Mos6502).connect l).vector addr =
      ({ t with sr := t.sr ||| flagI } : Mos6502).vector addr :=
    vector_connect l (mt (hport _).mp hlow) (mt (hport _).mp hhigh)
  simp only [enter, hpushed, push_connect l hthird, ht]
  exact congrArg (fun pc => { t with sr := t.sr ||| flagI, pc, latches := l }) hvector

theorem perform_connect {o : Operand} {m : Mnemonic} (h : s.Stores (s.dataAccesses o m)) :
    (s.connect l).perform o m = (s.perform o m).connect l := by
  cases m with
  | adc => simp only [perform, operandValue_connect l h, addWithCarry_connect]
  | sbc => simp only [perform, operandValue_connect l h, subtractWithBorrow_connect]
  | and | ora | eor | bit | cmp | cpx | cpy | lda | ldx | ldy =>
    simp only [perform, operandValue_connect l h]
    rfl
  | asl | lsr | rol | ror | inc | dec =>
    simp only [perform, flag_connect, modify_connect l h]
  | sta | stx | sty => exact store_connect l h _
  | bcc | bcs | bne | beq | bpl | bmi | bvc | bvs => exact branch_connect l _ o
  | jmp => exact jump_connect l o
  | jsr =>
    have hpushed := pushWord_connect l h (s.pc - 1)
    have hpc : (s.connect l).pc = s.pc := rfl
    simp only [perform, hpc, hpushed, jump_connect]
  | pha | php => exact push_connect l (stores_cons.mp h).1 _
  | pla =>
    simp only [perform, pull_connect l (stores_cons.mp h).1]
    rfl
  | plp => exact pullStatus_connect l (stores_cons.mp h).1
  | rts =>
    simp only [perform, pullWord_connect l h]
    rfl
  | rti =>
    obtain ⟨hstatus, hpc⟩ := stores_cons.mp h
    have hword : s.pullStatus.Stores
        [stackAddress (s.pullStatus.sp + 1), stackAddress (s.pullStatus.sp + 1 + 1)] := hpc
    simp only [perform, pullStatus_connect l hstatus, pullWord_connect l hword]
    rfl
  | brk =>
    simp only [dataAccesses, stores_cons] at h
    obtain ⟨hpc, hfirst, hsecond, hthird, hlow, hhigh, -⟩ := h
    have hstack : s.fetch.2.Stores
        [stackAddress s.sp, stackAddress (s.sp - 1), stackAddress (s.sp - 1 - 1)] :=
      stores_cons.mpr ⟨hfirst, stores_cons.mpr ⟨hsecond, stores_cons.mpr ⟨hthird, stores_nil⟩⟩⟩
    simp only [perform, softwareInterrupt, fetch_connect l hpc]
    exact enter_connect l hstack hlow hhigh _
  | _ => rfl

theorem mem_operand (mode : Mode) : (s.operand mode).2.mem = s.mem := by
  cases mode <;> rfl

/-- A step that keeps to storage does not depend on the registers behind the ports, nor does it
change them. -/
theorem step_connect (h : s.Stores s.accesses) : (s.connect l).step = s.step.connect l := by
  unfold accesses at h
  simp only [stores_cons] at h
  obtain ⟨hcode, hrest⟩ := h
  unfold step
  simp only [fetch_connect l hcode]
  split
  · rfl
  · next mnemonic mode hdecode =>
    simp only [hdecode, stores_append] at hrest
    obtain ⟨hoperand, hdata⟩ := hrest
    have hfetched : s.fetch.2.Stores (s.fetch.2.operandAccesses mode) := hoperand
    have hfound : (s.fetch.2.operand mode).2.Stores
        ((s.fetch.2.operand mode).2.dataAccesses (s.fetch.2.operand mode).1 mnemonic) := by
      rw [Stores, mem_operand]
      exact hdata
    simp only [operand_connect l hfetched]
    exact perform_connect l hfound

end Connect

end EightBit.Mos6502
