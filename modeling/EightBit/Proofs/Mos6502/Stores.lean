import EightBit.Proofs.Stacks

/-!
The bytes of memory that a 6502 instruction can change.

They are the byte that a storing instruction works on, and the bytes that are pushed. Where these
are is told in numbers, so that every index, pointer and stack address shows how far it wraps
around.
-/

namespace EightBit.Mos6502

namespace Mnemonic

def stores : Mnemonic → Bool
  | .sta | .stx | .sty | .inc | .dec | .asl | .lsr | .rol | .ror => true
  | _ => false

def pushes : Mnemonic → Nat
  | .pha | .php => 1
  | .jsr => 2
  | .brk => 3
  | _ => 0

end Mnemonic

def byteAt (s : Mos6502) (addr : Nat) : Nat := (s.mem.read s.latches addr).toNat

/-- The address that is stored in page zero from an offset on. -/
def pointerAt (s : Mos6502) (zp : Nat) : Nat := s.byteAt ((zp + 1) % 0x100) * 0x100 + s.byteAt zp

/-- The address that the next instruction works on in this mode, if it is one that addresses
memory. -/
def effective? (s : Mos6502) (mode : Mode) : Option Nat :=
  let low := s.byteAt ((s.pc.toNat + 1) % 0x10000)
  let addr := s.byteAt ((s.pc.toNat + 2) % 0x10000) * 0x100 + low
  match mode with
  | .implied | .accumulator | .immediate | .relative => none
  | .zeroPage => some low
  | .zeroPageX => some ((low + s.x.toNat) % 0x100)
  | .zeroPageY => some ((low + s.y.toNat) % 0x100)
  | .absolute => some addr
  | .absoluteX => some ((addr + s.x.toNat) % 0x10000)
  | .absoluteY => some ((addr + s.y.toNat) % 0x10000)
  | .indirect =>
    some (s.byteAt (addr / 0x100 * 0x100 + (addr + 1) % 0x100) * 0x100 + s.byteAt addr)
  | .indirectX => some (s.pointerAt ((low + s.x.toNat) % 0x100))
  | .indirectY => some ((s.pointerAt low + s.y.toNat) % 0x10000)

def Operand.address? : Operand → Option UInt16
  | .address addr => some addr
  | _ => none

section Effective

variable (s : Mos6502)

theorem toNat_read (addr : UInt16) : (s.read addr).toNat = s.byteAt addr.toNat := rfl

theorem toNat_read_low :
    (s.fetch.2.read s.fetch.2.pc).toNat = s.byteAt ((s.pc.toNat + 1) % 0x10000) := by
  have hpc : s.fetch.2.pc.toNat = (s.pc.toNat + 1) % 0x10000 := UInt16.toNat_add _ _
  rw [toNat_read, hpc]
  rfl

theorem toNat_read_high :
    (s.fetch.2.fetch.2.read s.fetch.2.fetch.2.pc).toNat =
      s.byteAt ((s.pc.toNat + 2) % 0x10000) := by
  have htwo : s.pc + 1 + 1 = s.pc + 2 := by rw [UInt16.add_assoc]; rfl
  have hpc : s.fetch.2.fetch.2.pc.toNat = (s.pc.toNat + 2) % 0x10000 :=
    (congrArg UInt16.toNat htwo).trans (UInt16.toNat_add _ _)
  rw [toNat_read, hpc]
  rfl

theorem toNat_zeroPageWord (zp : UInt8) : (s.zeroPageWord zp).toNat = s.pointerAt zp.toNat := by
  have hnext : (zp + 1).toUInt16.toNat = (zp.toNat + 1) % 0x100 := UInt8.toNat_add _ _
  rw [zeroPageWord, toNat_word, toNat_read, toNat_read, hnext, UInt8.toNat_toUInt16, pointerAt]

theorem toNat_pageWord (addr : UInt16) :
    (s.pageWord addr).toNat =
      s.byteAt (addr.toNat / 0x100 * 0x100 + (addr.toNat + 1) % 0x100) * 0x100 +
        s.byteAt addr.toNat := by
  have hone : (1 : UInt8).toNat = 1 := rfl
  have hnext : (word (Word.high addr) (Word.low addr + 1)).toNat =
      addr.toNat / 0x100 * 0x100 + (addr.toNat + 1) % 0x100 := by
    rw [toNat_word, UInt8.toNat_add, Word.toNat_high, Word.toNat_low, hone]
    omega
  rw [pageWord, toNat_word, toNat_read, toNat_read, hnext]

theorem toNat_fetchWord :
    s.fetch.2.fetchWord.1.toNat =
      s.byteAt ((s.pc.toNat + 2) % 0x10000) * 0x100 + s.byteAt ((s.pc.toNat + 1) % 0x10000) := by
  rw [← toNat_read_low, ← toNat_read_high]
  exact toNat_word _ _

/-- The operand that execution finds has the address that the numbers tell. -/
theorem effective?_eq (mode : Mode) :
    s.effective? mode = (s.fetch.2.operand mode).1.address?.map UInt16.toNat := by
  -- An index wraps around in eight bits where the operand is one byte, and else in sixteen.
  have hlow := toNat_read_low s
  have hword := toNat_fetchWord s
  have hinPage (i : UInt8) : (s.fetch.2.read s.fetch.2.pc + i).toNat =
      (s.byteAt ((s.pc.toNat + 1) % 0x10000) + i.toNat) % 0x100 := by
    rw [UInt8.toNat_add, hlow]
  have hindexed (i : UInt8) : (s.fetch.2.fetchWord.1 + i.toUInt16).toNat =
      (s.byteAt ((s.pc.toNat + 2) % 0x10000) * 0x100 + s.byteAt ((s.pc.toNat + 1) % 0x10000) +
        i.toNat) % 0x10000 := by
    rw [UInt16.toNat_add, hword, UInt8.toNat_toUInt16]
  have hpointer := toNat_zeroPageWord s
  cases mode with
  | implied | accumulator | immediate | relative => rfl
  | zeroPage => exact congrArg some hlow.symm
  | zeroPageX => exact congrArg some (hinPage s.x).symm
  | zeroPageY => exact congrArg some (hinPage s.y).symm
  | absolute => exact congrArg some hword.symm
  | absoluteX => exact congrArg some (hindexed s.x).symm
  | absoluteY => exact congrArg some (hindexed s.y).symm
  | indirect =>
    rw [effective?, ← hword]
    exact congrArg some (toNat_pageWord _ _).symm
  | indirectX =>
    rw [effective?, ← hinPage, ← hpointer]
    rfl
  | indirectY =>
    rw [effective?, ← hlow]
    simp only [← hpointer]
    exact congrArg some (UInt16.toNat_add (s.zeroPageWord _) s.y.toUInt16).symm

end Effective

section Perform

variable {s : Mos6502} {o : Operand} {m : Mnemonic}

theorem push_passed (s : Mos6502) (pc : UInt16) (v : UInt8) :
    { s with pc }.push v = { s.push v with pc } := rfl

/-- A storing instruction does no more to memory than storing a byte where its operand is. -/
theorem perform_of_stores (s : Mos6502) (o : Operand) (h : m.stores = true) :
    ∃ sr v, s.perform o m = { s with sr }.store v o := by
  cases m <;> first | contradiction | exact ⟨_, _, rfl⟩

/-- Any other instruction does no more to memory than pushing its bytes. -/
theorem perform_of_pushes (s : Mos6502) (o : Operand) (h : m.stores = false) :
    ∃ vs : List UInt8, vs.length = m.pushes ∧ (s.perform o m).mem = (vs.foldl push s).mem ∧
      (s.perform o m).latches = (vs.foldl push s).latches := by
  cases m with
  | sta | stx | sty | inc | dec | asl | lsr | rol | ror => contradiction
  | pha => exact ⟨[s.a], rfl, rfl, rfl⟩
  | php => exact ⟨[s.sr ||| flagB ||| flagU], rfl, rfl, rfl⟩
  | jsr =>
    refine ⟨[Word.high (s.pc - 1), Word.low (s.pc - 1)], rfl, ?_⟩
    cases o <;> exact ⟨rfl, rfl⟩
  | brk =>
    refine ⟨[Word.high (s.pc + 1), Word.low (s.pc + 1), s.sr ||| flagB ||| flagU], rfl, ?_⟩
    -- Here the program counter has moved on, and comparing three pushes by unfolding takes long.
    have hfetch : s.fetch.2 = { s with pc := s.pc + 1 } := rfl
    simp only [perform, softwareInterrupt, enter_entered, entered, pushWord, hfetch, push_passed]
    exact ⟨rfl, rfl⟩
  | adc | sbc =>
    refine ⟨[], rfl, ?_⟩
    simp only [perform, addWithCarry, subtractWithBorrow]
    split <;> exact ⟨rfl, rfl⟩
  | bcc | bcs | bne | beq | bpl | bmi | bvc | bvs =>
    refine ⟨[], rfl, ?_⟩
    simp only [perform]
    cases o with
    | immediate v =>
      simp only [branch]
      split <;> exact ⟨rfl, rfl⟩
    | _ => exact ⟨rfl, rfl⟩
  | jmp =>
    refine ⟨[], rfl, ?_⟩
    cases o <;> exact ⟨rfl, rfl⟩
  | _ => exact ⟨[], rfl, rfl, rfl⟩

end Perform

section Storage

variable {s : Mos6502} (hs : s.mem.InstanceOf (Memory.ram 0x10000))
include hs

theorem read_store (v : UInt8) {o : Operand} {addr : UInt16} (h : o.address? ≠ some addr) :
    (s.store v o).read addr = s.read addr := by
  cases o with
  | address other =>
    have hne : addr ≠ other := fun heq => h (congrArg some heq.symm)
    rw [store, read_write hs, if_neg hne]
  | _ => rfl

theorem read_pushes {vs : List UInt8} {addr : UInt16}
    (h : ∀ k < vs.length, addr ≠ stackAddress (s.sp - UInt8.ofNat k)) :
    (vs.foldl push s).read addr = s.read addr := by
  -- Behind the first push, the others go to the addresses that are left.
  induction vs generalizing s with
  | nil => rfl
  | cons v vs ih =>
    have hzero : s.sp - UInt8.ofNat 0 = s.sp := UInt8.sub_zero _
    have hfirst := h 0 (Nat.zero_lt_succ _)
    rw [hzero] at hfirst
    rw [List.foldl_cons, ih (instanceOf_push hs v), read_push hs, if_neg hfirst]
    intro k hk
    have hpointer : (s.push v).sp = s.sp - 1 := rfl
    rw [hpointer, sub_one_sub_ofNat]
    exact h (k + 1) (Nat.succ_lt_succ hk)

end Storage

theorem mem_store (s : Mos6502) (v : UInt8) {o : Operand} (h : o.address? = none) :
    (s.store v o).mem = s.mem := by
  cases o with
  | address addr => contradiction
  | _ => rfl

section Step

variable {s : Mos6502} {m : Mnemonic} {mode : Mode}

theorem step_of_stores (h : Opcode.decode (s.read s.pc) = some ⟨m, mode⟩)
    (hm : m.stores = true) :
    ∃ pc sr v, s.step = { s with pc, sr }.store v (s.fetch.2.operand mode).1 := by
  obtain ⟨pc, hpassed⟩ := operand_eq s.fetch.2 mode
  obtain ⟨sr, v, hstore⟩ :=
    perform_of_stores { s.fetch.2 with pc } (s.fetch.2.operand mode).1 hm
  rw [step_of_decode h, hpassed, hstore]
  exact ⟨pc, sr, v, rfl⟩

theorem step_of_pushes (h : Opcode.decode (s.read s.pc) = some ⟨m, mode⟩)
    (hm : m.stores = false) :
    ∃ (pc : UInt16) (vs : List UInt8), vs.length = m.pushes ∧
      s.step.mem = (vs.foldl push { s with pc }).mem ∧
      s.step.latches = (vs.foldl push { s with pc }).latches := by
  obtain ⟨pc, hpassed⟩ := operand_eq s.fetch.2 mode
  obtain ⟨vs, hlength, hmem, hlatches⟩ :=
    perform_of_pushes { s.fetch.2 with pc } (s.fetch.2.operand mode).1 hm
  rw [step_of_decode h, hpassed]
  exact ⟨pc, vs, hlength, hmem, hlatches⟩

theorem read_step_of_stores (hs : s.mem.InstanceOf (Memory.ram 0x10000))
    (h : Opcode.decode (s.read s.pc) = some ⟨m, mode⟩) (hm : m.stores = true) {addr : UInt16}
    (haddr : s.effective? mode ≠ some addr.toNat) : s.step.read addr = s.read addr := by
  obtain ⟨pc, sr, v, hstep⟩ := step_of_stores h hm
  have hother : (s.fetch.2.operand mode).1.address? ≠ some addr := by
    intro hsame
    rw [effective?_eq, hsame] at haddr
    exact haddr rfl
  rw [hstep]
  exact read_store (s := { s with pc, sr }) hs v hother

theorem read_step_of_pushes (hs : s.mem.InstanceOf (Memory.ram 0x10000))
    (h : Opcode.decode (s.read s.pc) = some ⟨m, mode⟩) (hm : m.stores = false) {addr : UInt16}
    (haddr : ∀ k < m.pushes, addr ≠ stackAddress (s.sp - UInt8.ofNat k)) :
    s.step.read addr = s.read addr := by
  obtain ⟨pc, vs, hlength, hmem, hlatches⟩ := step_of_pushes h hm
  rw [← hlength] at haddr
  rw [read, hmem, hlatches]
  exact read_pushes (s := { s with pc }) hs haddr

theorem mem_step_of_neither (h : Opcode.decode (s.read s.pc) = some ⟨m, mode⟩)
    (hpushes : m.pushes = 0) (hstores : m.stores = true → s.effective? mode = none) :
    s.step.mem = s.mem := by
  cases hm : m.stores with
  | true =>
    obtain ⟨pc, sr, v, hstep⟩ := step_of_stores h hm
    have hnone : (s.fetch.2.operand mode).1.address? = none := by
      have heffective := hstores hm
      rw [effective?_eq] at heffective
      exact Option.map_eq_none_iff.mp heffective
    rw [hstep, mem_store _ v hnone]
  | false =>
    obtain ⟨pc, vs, hlength, hmem, -⟩ := step_of_pushes h hm
    rw [hpushes] at hlength
    rw [hmem, List.eq_nil_of_length_eq_zero hlength]
    rfl

end Step

theorem effective?_lt_page (s : Mos6502) {mode : Mode}
    (hmode : mode ∈ [Mode.zeroPage, .zeroPageX, .zeroPageY]) {addr : Nat}
    (haddr : addr ∈ s.effective? mode) : addr < 0x100 := by
  simp only [List.mem_cons, List.not_mem_nil, or_false] at hmode
  rcases hmode with rfl | rfl | rfl <;> cases haddr
  · exact UInt8.toNat_lt _
  · exact Nat.mod_lt _ (by decide)
  · exact Nat.mod_lt _ (by decide)

theorem toNat_stackAddress_sub (sp : UInt8) {k : Nat} (hk : k ≤ 0x100) :
    (stackAddress (sp - UInt8.ofNat k)).toNat = 0x100 + (sp.toNat + 0x100 - k) % 0x100 := by
  have hsp := sp.toNat_lt
  rw [toNat_stackAddress, UInt8.toNat_sub, UInt8.toNat_ofNat']
  omega

theorem byteAt_eq (s : Mos6502) {addr : Nat} (haddr : addr < 0x10000) :
    s.byteAt addr = (s.read (UInt16.ofNat addr)).toNat := by
  rw [toNat_read, UInt16.toNat_ofNat_of_lt' haddr]

theorem pushes_le (m : Mnemonic) : m.pushes ≤ 3 := by
  cases m <;> decide

/-- A step over storage changes memory at most where its operand is, if it stores a byte there, and
where it pushes bytes. The operand is below `$0100` where the mode says so, however far the index
goes, and a step that neither stores nor pushes leaves memory as it is. -/
theorem step_changes_memory {s : Mos6502} (hs : s.mem.InstanceOf (Memory.ram 0x10000)) :
    (∀ m mode, Opcode.decode (s.read s.pc) = some ⟨m, mode⟩ →
      (m.stores = true → ∀ addr < 0x10000, s.effective? mode ≠ some addr →
        s.step.byteAt addr = s.byteAt addr) ∧
      (m.stores = false → ∀ addr < 0x10000,
        (∀ k < m.pushes, addr ≠ 0x100 + (s.sp.toNat + 0x100 - k) % 0x100) →
        s.step.byteAt addr = s.byteAt addr) ∧
      (m.pushes = 0 → (m.stores = true → s.effective? mode = none) → s.step.mem = s.mem)) ∧
    (Opcode.decode (s.read s.pc) = none → s.step.mem = s.mem) ∧
    ∀ mode ∈ [Mode.zeroPage, .zeroPageX, .zeroPageY], ∀ addr ∈ s.effective? mode,
      addr < 0x100 := by
  refine ⟨fun m mode h => ⟨?_, ?_, ?_⟩, ?_, ?_⟩
  · intro hm addr haddr hother
    have hword : (UInt16.ofNat addr).toNat = addr := UInt16.toNat_ofNat_of_lt' haddr
    rw [← hword] at hother
    rw [byteAt_eq _ haddr, byteAt_eq _ haddr, read_step_of_stores hs h hm hother]
  · intro hm addr haddr hother
    have hspared : ∀ k < m.pushes, UInt16.ofNat addr ≠ stackAddress (s.sp - UInt8.ofNat k) := by
      intro k hk hsame
      have hle := pushes_le m
      have hnumber := congrArg UInt16.toNat hsame
      rw [UInt16.toNat_ofNat_of_lt' haddr, toNat_stackAddress_sub _ (by omega)] at hnumber
      exact hother k hk hnumber
    rw [byteAt_eq _ haddr, byteAt_eq _ haddr, read_step_of_pushes hs h hm hspared]
  · exact mem_step_of_neither h
  · intro h
    rw [step_of_undefined h]
    rfl
  · exact fun _ hmode _ haddr => s.effective?_lt_page hmode haddr

/-- An index that goes beyond page zero comes back to its start, so that the store leaves the byte
at `$0101` zero. -/
theorem step_changes_memory_in_page_zero :
    let s := { holding 0x80 [0x95, 0xff] with a := 0x5a, x := 2 }
    s.effective? .zeroPageX = some 1 ∧ s.step.byteAt 0x101 = 0 := by
  have hm := instanceOf_holding 0x80 [0x95, 0xff]
  have hpc : (holding 0x80 [0x95, 0xff]).pc = 0x80 := rfl
  have hlength : (0x80 : UInt16).toNat + [(0x95 : UInt8), 0xff].length ≤ 0x10000 := by decide
  have hcode : (holding 0x80 [0x95, 0xff]).read 0x80 = 0x95 := read_holding hlength
  have hoperand : (holding 0x80 [0x95, 0xff]).byteAt ((0x80 : UInt16).toNat + 1) = 0xff := by
    rw [byteAt, mem_holding, Memory.read_holding hlength _ (by decide)]
    rfl
  have hbehind : (holding 0x80 [0x95, 0xff]).byteAt 0x101 = 0 := by
    rw [byteAt, mem_holding, Memory.read_holding_behind hlength _ (by decide) (by decide)]
    rfl
  generalize holding 0x80 [0x95, 0xff] = t at hm hpc hcode hoperand hbehind ⊢
  intro s
  have heffective : s.effective? .zeroPageX = some 1 := by
    have hlow : s.byteAt ((s.pc.toNat + 1) % 0x10000) = 0xff := by
      rw [show s.pc = 0x80 from hpc]
      exact hoperand
    have hx : s.x.toNat = 2 := rfl
    simp only [effective?, hlow, hx]
  have hdecode : Opcode.decode (s.read s.pc) = some ⟨.sta, .zeroPageX⟩ := by
    rw [show s.pc = 0x80 from hpc, show s.read 0x80 = 0x95 from hcode]
    decide +kernel
  obtain ⟨hdecoded, -⟩ := step_changes_memory (s := s) hm
  obtain ⟨hstores, -⟩ := hdecoded _ _ hdecode
  have helsewhere : s.effective? .zeroPageX ≠ some 0x101 := by
    rw [heffective]
    decide
  refine ⟨heffective, ?_⟩
  rw [hstores rfl 0x101 (by decide) helsewhere]
  exact hbehind

end EightBit.Mos6502
