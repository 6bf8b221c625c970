import EightBit.Proofs.Flags
import EightBit.Proofs.Mos6502.Interrupts

/-!
The status flags that each instruction of the 6502 can change.
-/

namespace EightBit.Mos6502

open Byte FlagLayout

def Mnemonic.affects : Mnemonic → UInt8
  | .adc | .sbc => flagN ||| flagV ||| flagZ ||| flagC
  | .bit => flagN ||| flagV ||| flagZ
  | .asl | .lsr | .rol | .ror | .cmp | .cpx | .cpy => flagN ||| flagZ ||| flagC
  | .and | .ora | .eor | .inc | .dec | .inx | .iny | .dex | .dey | .lda | .ldx | .ldy | .tax | .tay
  | .txa | .tya | .tsx | .pla => flagN ||| flagZ
  | .clc | .sec => flagC
  | .cld | .sed => flagD
  | .cli | .sei | .brk => flagI
  | .clv => flagV
  | .plp | .rti => 0xff
  | .sta | .stx | .sty | .bcc | .bcs | .bne | .beq | .bpl | .bmi | .bvc | .bvs | .jmp | .jsr | .rts
  | .pha | .php | .txs | .nop => 0

def mnemonic? (s : Mos6502) : Option Mnemonic :=
  (Opcode.decode (s.read s.pc)).map (·.mnemonic)

section Perform

variable (s : Mos6502)

theorem sr_push (v : UInt8) : (s.push v).sr = s.sr := rfl

theorem sr_setA (r : Outcome) : (s.setA r).sr = r.flags := rfl

theorem sr_store (v : UInt8) (o : Operand) : (s.store v o).sr = s.sr := by
  cases o <;> rfl

theorem sr_jump (o : Operand) : (s.jump o).sr = s.sr := by
  cases o <;> rfl

theorem sr_branch (taken : Bool) (o : Operand) : (s.branch taken o).sr = s.sr := by
  cases o with
  | immediate v =>
    rw [branch]
    split <;> rfl
  | _ => rfl

theorem sr_softwareInterrupt : s.softwareInterrupt.sr = put s.sr flagI true := by
  simp only [softwareInterrupt, enter_entered, entered, pushWord, sr_push]
  rfl

theorem changesWithin_addWithCarry (v : UInt8) :
    ChangesWithin mos.sumFlags s.sr (s.addWithCarry v).sr := by
  rw [addWithCarry]
  split
  · rw [sr_setA]
    exact (mos.changesWithin_addDecimal s.sr s.a v _).mono (by decide)
  · rw [sr_setA]
    exact mos.changesWithin_add s.sr s.a v _

theorem changesWithin_subtractWithBorrow (v : UInt8) :
    ChangesWithin mos.sumFlags s.sr (s.subtractWithBorrow v).sr := by
  rw [subtractWithBorrow]
  split
  · rw [sr_setA]
    exact mos.changesWithin_subDecimal s.sr s.a v _
  · rw [sr_setA]
    exact mos.changesWithin_sub s.sr s.a v _

theorem changesWithin_testBits (v : UInt8) :
    ChangesWithin (flagZ ||| flagN ||| flagV) s.sr (s.testBits v).sr :=
  ((changesWithin_put s.sr flagZ _).put flagN _).put flagV _

theorem changesWithin_modify {mask : UInt8} {f : UInt8 → UInt8 → Outcome}
    (hf : ∀ sr v, ChangesWithin mask sr (f sr v).flags) (o : Operand) :
    ChangesWithin mask s.sr (s.modify o f).sr := by
  rw [modify, sr_store]
  exact hf _ _

/-- An instruction changes no more than its flags. -/
theorem changesWithin_perform (o : Operand) (m : Mnemonic) :
    ChangesWithin m.affects s.sr (s.perform o m).sr := by
  have hunchanged {t : Mos6502} (h : t.sr = s.sr) : ChangesWithin 0 s.sr t.sr := by
    rw [h]
    exact .refl _ _
  -- The masks of the layout are closed, so `decide` finds them among the flags of the instruction.
  cases m with
  | adc => exact (s.changesWithin_addWithCarry _).mono (by decide)
  | sbc => exact (s.changesWithin_subtractWithBorrow _).mono (by decide)
  | bit => exact (s.changesWithin_testBits _).mono (by decide)
  | asl =>
    have hshift (sr v : UInt8) := mos.changesWithin_shiftLeft sr v false
    exact (s.changesWithin_modify hshift o).mono (by decide)
  | rol =>
    have hshift (sr v : UInt8) := mos.changesWithin_shiftLeft sr v (s.flag flagC)
    exact (s.changesWithin_modify hshift o).mono (by decide)
  | lsr =>
    have hshift (sr v : UInt8) := mos.changesWithin_shiftRight sr v false
    exact (s.changesWithin_modify hshift o).mono (by decide)
  | ror =>
    have hshift (sr v : UInt8) := mos.changesWithin_shiftRight sr v (s.flag flagC)
    exact (s.changesWithin_modify hshift o).mono (by decide)
  | inc => exact (s.changesWithin_modify mos.changesWithin_increment o).mono (by decide)
  | dec => exact (s.changesWithin_modify mos.changesWithin_decrement o).mono (by decide)
  | cmp | cpx | cpy => exact (mos.changesWithin_compare s.sr _ _).mono (by decide)
  | and => exact (mos.changesWithin_and s.sr s.a _).mono (by decide)
  | ora => exact (mos.changesWithin_or s.sr s.a _).mono (by decide)
  | eor => exact (mos.changesWithin_xor s.sr s.a _).mono (by decide)
  | inx | iny => exact (mos.changesWithin_increment s.sr _).mono (by decide)
  | dex | dey => exact (mos.changesWithin_decrement s.sr _).mono (by decide)
  | lda | ldx | ldy | tax | tay | txa | tya | tsx | pla =>
    exact (mos.changesWithin_pass s.sr _).mono (by decide)
  | clc | sec | cld | sed | cli | sei | clv => exact changesWithin_put s.sr _ _
  | brk =>
    rw [perform, sr_softwareInterrupt]
    exact changesWithin_put s.sr flagI true
  | plp | rti => exact .all _ _
  | bcc | bcs | bne | beq | bpl | bmi | bvc | bvs => exact hunchanged (sr_branch s _ o)
  | sta | stx | sty => exact hunchanged (sr_store s _ o)
  | jmp => exact hunchanged (sr_jump s o)
  | jsr => exact hunchanged (sr_jump _ o)
  | rts | pha | php | txs | nop => exact hunchanged rfl

end Perform

/-- The bits of the status register that the next step can change, none if its opcode is
undefined. -/
def affected (s : Mos6502) : UInt8 := s.mnemonic?.elim 0 Mnemonic.affects

theorem changesWithin_step (s : Mos6502) : ChangesWithin s.affected s.sr s.step.sr := by
  rw [affected, mnemonic?]
  cases h : Opcode.decode (s.read s.pc) with
  | none =>
    rw [step_of_undefined h]
    exact .refl _ _
  | some opcode =>
    obtain ⟨pc, hpassed⟩ := operand_eq s.fetch.2 opcode.mode
    rw [step_of_decode h, hpassed]
    exact changesWithin_perform { s.fetch.2 with pc } _ _

/-- A flag changes only in a step of an instruction that affects it. -/
theorem mem_of_flag_step_ne {s : Mos6502} {mask : UInt8} {k : Nat} (hk : k < 8)
    (hmask : mask.toNat = 2 ^ k) {ms : List Mnemonic}
    (hms : ∀ m : Mnemonic, bit m.affects k = true → m ∈ ms)
    (h : s.step.flag mask ≠ s.flag mask) : ∃ m ∈ s.mnemonic?, m ∈ ms := by
  have hbit : bit s.step.sr k ≠ bit s.sr k := by
    rwa [flag, flag, and_mask_eq_mask _ hmask, and_mask_eq_mask _ hmask] at h
  have haffected : bit s.affected k = true :=
    Bool.of_not_eq_false (mt (s.changesWithin_step k hk) hbit)
  rw [affected] at haffected
  cases hm : s.mnemonic? with
  | none =>
    rw [hm] at haffected
    exact absurd ((bit_zero k).symm.trans haffected) Bool.false_ne_true
  | some m =>
    rw [hm] at haffected
    exact ⟨m, rfl, hms m haffected⟩

/-- The instructions that leave the status alone: stores, branches, jumps, calls and returns from
them, pushes, setting the stack pointer, and the one that does nothing. -/
def plain : List Mnemonic :=
  [.sta, .stx, .sty, .bcc, .bcs, .bne, .beq, .bpl, .bmi, .bvc, .bvs, .jmp, .jsr, .rts, .pha, .php,
    .txs, .nop]

/-- A step changes the decimal flag, the interrupt flag, overflow and carry only for the
instructions that are made for it, whatever the mode, and stores, branches, jumps, pushes and
undefined opcodes leave the status as it is. -/
theorem step_changes_flags (s : Mos6502) :
    (s.step.flag flagD ≠ s.flag flagD →
      ∃ m ∈ s.mnemonic?, m ∈ [Mnemonic.sed, .cld, .plp, .rti]) ∧
    (s.step.flag flagI ≠ s.flag flagI →
      ∃ m ∈ s.mnemonic?, m ∈ [Mnemonic.sei, .cli, .brk, .plp, .rti]) ∧
    (s.step.flag flagV ≠ s.flag flagV →
      ∃ m ∈ s.mnemonic?, m ∈ [Mnemonic.adc, .sbc, .bit, .clv, .plp, .rti]) ∧
    (s.step.flag flagC ≠ s.flag flagC →
      ∃ m ∈ s.mnemonic?, m ∈ [Mnemonic.adc, .sbc, .asl, .lsr, .rol, .ror, .cmp, .cpx, .cpy, .sec,
        .clc, .plp, .rti]) ∧
    ((∀ m ∈ s.mnemonic?, m ∈ plain) → s.step.sr = s.sr) := by
  refine ⟨?_, ?_, ?_, ?_, ?_⟩
  · exact mem_of_flag_step_ne (k := 3) (by decide) rfl (by intro m; cases m <;> decide)
  · exact mem_of_flag_step_ne (k := 2) (by decide) rfl (by intro m; cases m <;> decide)
  · exact mem_of_flag_step_ne (k := 6) (by decide) rfl (by intro m; cases m <;> decide)
  · exact mem_of_flag_step_ne (k := 0) (by decide) rfl (by intro m; cases m <;> decide)
  · intro hplain
    have hnone : ∀ m ∈ plain, m.affects = 0 := by decide
    have hstep := s.changesWithin_step
    rw [affected] at hstep
    cases hm : s.mnemonic? with
    | none =>
      rw [hm] at hstep
      exact hstep.eq_of_zero
    | some m =>
      rw [hm, Option.elim_some, hnone m (hplain m hm)] at hstep
      exact hstep.eq_of_zero

/-- Adding in decimal mode leaves the mode and the interrupt flag as they are. -/
theorem step_changes_flags_of_decimal_sum :
    let s := { holding 0x200 [0x69, 0x01] with a := 0x99, sr := flagD ||| flagI ||| flagU }
    s.mnemonic? = some .adc ∧ s.step.flag flagD = true ∧ s.step.flag flagI = true := by
  have hpc : (holding 0x200 [0x69, 0x01]).pc = 0x200 := rfl
  have hcode : (holding 0x200 [0x69, 0x01]).read 0x200 = 0x69 := read_holding (by decide)
  generalize holding 0x200 [0x69, 0x01] = t at hpc hcode ⊢
  intro s
  have hdecode : Opcode.decode (s.read s.pc) = some ⟨.adc, .immediate⟩ := by
    rw [show s.pc = 0x200 from hpc, show s.read 0x200 = 0x69 from hcode]
    decide +kernel
  have hmnemonic : s.mnemonic? = some .adc := by
    rw [mnemonic?, hdecode]
    rfl
  have hkept {mask : UInt8} {ms : List Mnemonic} (hms : Mnemonic.adc ∉ ms)
      (h : s.step.flag mask ≠ s.flag mask → ∃ m ∈ s.mnemonic?, m ∈ ms) :
      s.step.flag mask = s.flag mask := by
    by_contra hchanged
    obtain ⟨m, hm, hlisted⟩ := h hchanged
    rw [hmnemonic] at hm
    cases hm
    exact hms hlisted
  obtain ⟨hdecimal, hinterrupt, -⟩ := step_changes_flags s
  have hset : s.flag flagD = true ∧ s.flag flagI = true := by
    change ((flagD ||| flagI ||| flagU) &&& flagD == flagD) = true ∧
      ((flagD ||| flagI ||| flagU) &&& flagI == flagI) = true
    decide
  exact ⟨hmnemonic, (hkept (by decide) hdecimal).trans hset.1,
    (hkept (by decide) hinterrupt).trans hset.2⟩

end EightBit.Mos6502
