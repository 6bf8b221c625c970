import EightBit.Proofs.Z80.Blocks
import EightBit.Proofs.Z80.Storage

/-!
The repeating block transfer of the Z80.

Bytes are copied one by one, so that a destination just ahead of the source takes the same bytes
again and again. Whatever the overlap, a transfer whose destination does not cover the instruction
itself comes to its end.
-/

namespace EightBit.Z80

open Byte

/-- Memory after `k` bytes were copied one by one. -/
def copied (down : Bool) (src dst : UInt16) (m : UInt16 → UInt8) : Nat → UInt16 → UInt8
  | 0 => m
  | k + 1 =>
    let m := copied down src dst m k
    Function.update m (further down dst k) (m (further down src k))

section Copied

variable (down : Bool) (src dst : UInt16) (m : UInt16 → UInt8)

theorem copied_of_ne {addr : UInt16} {n : Nat} (h : ∀ k < n, further down dst k ≠ addr) :
    copied down src dst m n addr = m addr := by
  induction n with
  | zero => rfl
  | succ n ih =>
    rw [copied, Function.update_of_ne (h n (Nat.lt_succ_self n)).symm]
    exact ih fun k hk => h k (Nat.lt_succ_of_lt hk)

/-- How far the destination is ahead of the source in the direction of the transfer. -/
def lead : Nat := (if down then src - dst else dst - src).toNat

theorem further_lead (k : Nat) : further down dst k = further down src (lead down src dst + k) := by
  rw [further_add]
  congr 1
  unfold further lead
  cases down <;> simp only [if_true, if_false, Bool.false_eq_true, UInt16.ofNat_toNat] <;> grind

/-- A destination that is ahead of the source by fewer bytes than are copied takes what was copied
before, so that the first bytes of the block repeat. Otherwise the block moves as it was. -/
theorem copied_further {n k : Nat} (hn : n ≤ 0x10000) (hk : k < n) :
    copied down src dst m n (further down dst k) =
      m (further down src (k % lead down src dst)) := by
  have hlead : lead down src dst < 0x10000 := UInt16.toNat_lt _
  induction n generalizing k with
  | zero => contradiction
  | succ n ih =>
    have hbefore {j : Nat} (hj : j < n) : copied down src dst m n (further down dst j) = _ :=
      ih (by omega) hj
    rw [copied]
    rcases Nat.lt_succ_iff_lt_or_eq.mp hk with hlt | rfl
    · have hne : further down dst k ≠ further down dst n := fun h =>
        hlt.ne (further_inj down dst (by omega) (by omega) h)
      rw [Function.update_of_ne hne, hbefore hlt]
    · rw [Function.update_self]
      by_cases hwithin : lead down src dst ≤ k ∧ 0 < lead down src dst
      · -- The byte to be copied was written `lead` bytes before.
        have hsrc := further_lead down src dst (k - lead down src dst)
        rw [Nat.add_sub_of_le hwithin.1] at hsrc
        rw [← hsrc, hbefore (by omega), ← Nat.mod_eq_sub_mod hwithin.1]
      · have hmod : k % lead down src dst = k := by
          rcases Nat.eq_zero_or_pos (lead down src dst) with hzero | hpos
          · rw [hzero, Nat.mod_zero]
          · exact Nat.mod_eq_of_lt (by omega)
        rw [hmod]
        apply copied_of_ne
        intro j hj h
        rw [further_lead down src dst] at h
        have hnat := congrArg UInt16.toNat h
        have hw := src.toNat_lt
        rw [toNat_further, toNat_further] at hnat
        cases down <;> simp only [if_true, if_false, Bool.false_eq_true] at hnat <;> omega

end Copied

section Flags

variable (s : Z80)

def transferFlags : UInt8 :=
  (s.f &&& (flagS ||| flagZ ||| flagC)) ||| maskIf (s.bc - 1 != 0) flagV |||
    blockBits (s.read s.hl + s.a)

theorem bit_transferFlags {k : Nat} (hk : bit (flag3 ||| flag5) k = false) :
    bit s.transferFlags k =
      ((bit s.f k && bit (flagS ||| flagZ ||| flagC) k) ||
        (s.bc - 1 != 0) && bit flagV k) := by
  simp only [transferFlags, bit_or, bit_and, bit_maskIf, bit_blockBits _ hk, Bool.or_false]

theorem flags_transferFlags {t : Z80} (ht : t.f = s.transferFlags) :
    (∀ mask ∈ [flagS, flagZ, flagC], t.flag mask = s.flag mask) ∧
      t.flag flagH = false ∧ t.flag flagN = false ∧ t.flag flagV = (s.bc - 1 != 0) := by
  have hflag {mask : UInt8} {k : Nat} (hmask : mask.toNat = 2 ^ k)
      (hk : bit (flag3 ||| flag5) k = false) : t.flag mask =
        ((s.flag mask && bit (flagS ||| flagZ ||| flagC) k) ||
          (s.bc - 1 != 0) && bit flagV k) := by
    rw [flag_eq_bit _ hmask, flag_eq_bit _ hmask, ht, bit_transferFlags s hk]
  refine ⟨?_, ?_, ?_, ?_⟩
  · intro mask hmask
    simp only [List.mem_cons, List.not_mem_nil, or_false] at hmask
    rcases hmask with rfl | rfl | rfl
    · rw [hflag (k := 7) rfl rfl]
      simp [bit]
    · rw [hflag (k := 6) rfl rfl]
      simp [bit]
    · rw [hflag (k := 0) rfl rfl]
      simp [bit]
  · rw [hflag (k := 4) rfl rfl]
    simp [bit]
  · rw [hflag (k := 1) rfl rfl]
    simp [bit]
  · rw [hflag (k := 2) rfl rfl]
    simp [bit]

end Flags

section Step

variable {s : Z80} {down : Bool}

theorem blockTransfer_eq (hs : s.mem.InstanceOf (Memory.ram 0x10000)) :
    s.blockByte (repeating down) 0 = (s.bc - 1 != 0,
      { ((s.setBC (s.bc - 1)).setHL (further down s.hl 1)).setDE (further down s.de 1) with
        f := s.transferFlags, mem := (s.write s.de (s.read s.hl)).mem }) := by
  have hwrite := write_eq hs s.de (s.read s.hl)
  generalize (s.write s.de (s.read s.hl)).mem = mem at hwrite ⊢
  simp only [blockByte, blockTransfer, hwrite, advance_repeating]
  rfl

/-- The repeating transfer handles one byte in a step and is left with the last one. -/
theorem step_of_transfer (hs : s.mem.InstanceOf (Memory.ram 0x10000))
    (hfirst : s.read s.pc = 0xed)
    (hsecond : s.read (s.pc + 1) = if down then 0xb8 else 0xb0) :
    s.step =
      { ((s.setBC (s.bc - 1)).setHL (further down s.hl 1)).setDE (further down s.de 1) with
        pc := if s.bc - 1 != 0 then s.pc else s.pc + 2
        f := s.transferFlags
        r := refreshed s.r 2
        mem := (s.write s.de (s.read s.hl)).mem } := by
  have hop : s.read (s.pc + 1) = blockOpcode down 0 := by
    rw [hsecond]
    cases down <;> rfl
  rw [step_of_block (by decide) hfirst hop (blockTransfer_eq hs) rfl]
  rfl

end Step

/-- The state `k` bytes into a block transfer. -/
structure Transferred (s : Z80) (down : Bool) (k : Nat) (t : Z80) : Prop where
  registers : t =
    { ((s.setBC (s.bc - UInt16.ofNat k)).setHL (further down s.hl k)).setDE
        (further down s.de k) with
      pc := t.pc, f := t.f, r := t.r, mem := t.mem }
  pc : t.pc = if k < s.repetitions then s.pc else s.pc + 2
  storage : t.mem.InstanceOf (Memory.ram 0x10000)
  mem : t.read = copied down s.hl s.de s.read k
  kept : ∀ mask ∈ [flagS, flagZ, flagC], t.flag mask = s.flag mask
  cleared : 0 < k →
    t.flag flagH = false ∧ t.flag flagN = false ∧ t.flag flagV = decide (k < s.repetitions)

section Transfer

variable {s : Z80} {down : Bool}

theorem transferred_zero (hs : s.mem.InstanceOf (Memory.ram 0x10000)) :
    s.Transferred down 0 s where
  registers := by
    rw [bc_sub_zero, further_zero, further_zero, setBC_bc, setHL_hl, setDE_de]
  pc := (if_pos s.repetitions_pos).symm
  storage := hs
  mem := rfl
  kept _ _ := rfl
  cleared h := absurd h (Nat.lt_irrefl 0)

/-- The byte at an address that the transfer spares can be fetched all along. -/
theorem Transferred.read_spared {t : Z80} {k : Nat} (h : s.Transferred down k t) {addr : UInt16}
    (hspared : ∀ j < k, further down s.de j ≠ addr) : t.read addr = s.read addr := by
  rw [h.mem]
  exact copied_of_ne _ _ _ _ hspared

theorem Transferred.step {t : Z80} {k : Nat} (h : s.Transferred down k t)
    (hk : k < s.repetitions) (hfirst : t.read t.pc = 0xed)
    (hsecond : t.read (t.pc + 1) = if down then 0xb8 else 0xb0) :
    s.Transferred down (k + 1) t.step := by
  have hstep := step_of_transfer h.storage hfirst hsecond
  have hbc : t.bc - 1 = s.bc - UInt16.ofNat (k + 1) := by
    rw [← bc_sub_succ, h.registers]
    congr 1
    exact Word.word_high_low _
  have hhl : t.hl = further down s.hl k := by
    rw [h.registers]
    exact Word.word_high_low _
  have hde : t.de = further down s.de k := by
    rw [h.registers]
    exact Word.word_high_low _
  have hagain : (t.bc - 1 != 0) = decide (k + 1 < s.repetitions) := by
    rw [hbc, bc_sub_bne_zero s (Nat.succ_pos k) hk]
  obtain ⟨hkept, hcleared⟩ := flags_transferFlags t (t := t.step) (by rw [hstep])
  have hread : t.step.read = (t.write t.de (t.read t.hl)).read := by
    rw [hstep, write_eq h.storage]
    rfl
  refine ⟨?_, ?_, ?_, ?_, ?_, ?_⟩
  · rw [hstep, hbc, further_add, further_add, ← hhl, ← hde, h.registers]
    rfl
  · rw [hstep]
    simp only [hagain, decide_eq_true_iff]
    rw [h.pc, if_pos hk]
  · rw [hstep]
    exact instanceOf_write h.storage _ _
  · rw [hread, read_write h.storage, copied, hhl, hde, h.mem]
  · intro mask hmask
    rw [hkept mask hmask, h.kept mask hmask]
  · rw [hagain] at hcleared
    exact fun _ => hcleared

/-- Up to the end of the block, every step handles the next byte. -/
theorem transferred_iterate (hs : s.mem.InstanceOf (Memory.ram 0x10000))
    (hfirst : s.read s.pc = 0xed)
    (hsecond : s.read (s.pc + 1) = if down then 0xb8 else 0xb0)
    (hspared : ∀ k < s.repetitions,
      further down s.de k ≠ s.pc ∧ further down s.de k ≠ s.pc + 1)
    {k : Nat} (hk : k ≤ s.repetitions) : s.Transferred down k (step^[k] s) := by
  induction k with
  | zero => exact transferred_zero hs
  | succ k ih =>
    have hbefore := ih (Nat.le_of_succ_le hk)
    have hpc := hbefore.pc
    rw [if_pos (Nat.lt_of_succ_le hk)] at hpc
    rw [Function.iterate_succ_apply']
    -- No byte of the instruction was copied to, so that the same one is fetched again.
    apply hbefore.step hk
    · rw [hpc, hbefore.read_spared fun j hj => (hspared j (by omega)).1, hfirst]
    · rw [hpc, hbefore.read_spared fun j hj => (hspared j (by omega)).2, hsecond]

/-- A repeating transfer that spares itself copies its block byte by byte in as many steps as it has
bytes, and goes on behind itself with the counter at zero and the pointers behind the block. -/
theorem transfer_copies_block (down : Bool) (hs : s.mem.InstanceOf (Memory.ram 0x10000))
    (hfirst : s.read s.pc = 0xed)
    (hsecond : s.read (s.pc + 1) = if down then 0xb8 else 0xb0)
    (hspared : ∀ k < s.repetitions,
      further down s.de k ≠ s.pc ∧ further down s.de k ≠ s.pc + 1) :
    let n := s.repetitions
    let t := step^[n] s
    (∀ k < n, (step^[k] s).pc = s.pc) ∧
      t = { ((s.setBC 0).setHL (further down s.hl n)).setDE (further down s.de n) with
        pc := s.pc + 2, f := t.f, r := t.r, mem := t.mem } ∧
      (t.mem.InstanceOf (Memory.ram 0x10000) ∧ t.read = copied down s.hl s.de s.read n) ∧
      (∀ k < n, t.read (further down s.de k) =
        s.read (further down s.hl (k % lead down s.hl s.de))) ∧
      (∀ addr, (∀ k < n, further down s.de k ≠ addr) → t.read addr = s.read addr) ∧
      (t.flag flagV = false ∧ t.flag flagH = false ∧ t.flag flagN = false) ∧
      ∀ mask ∈ [flagS, flagZ, flagC], t.flag mask = s.flag mask := by
  intro n t
  have hrun {k : Nat} (hk : k ≤ n) : s.Transferred down k (step^[k] s) :=
    transferred_iterate hs hfirst hsecond hspared hk
  have hend : s.Transferred down n t := hrun (le_refl n)
  have hpc : t.pc = s.pc + 2 := by
    rw [hend.pc, if_neg (Nat.lt_irrefl n)]
  have hbc : s.bc - UInt16.ofNat n = 0 :=
    (bc_sub_eq_zero_iff s s.repetitions_pos (le_refl n)).mpr rfl
  obtain ⟨hhalf, hsubtract, hoverflow⟩ := hend.cleared s.repetitions_pos
  refine ⟨?_, ?_, ⟨hend.storage, hend.mem⟩, ?_, ?_, ⟨?_, hhalf, hsubtract⟩, hend.kept⟩
  · intro k hk
    rw [(hrun hk.le).pc, if_pos hk]
  · rw [← hpc, ← hbc]
    exact hend.registers
  · intro k hk
    rw [hend.mem]
    exact copied_further _ _ _ _ s.repetitions_le hk
  · intro addr hspared
    exact hend.read_spared hspared
  · rw [hoverflow]
    exact decide_eq_false (Nat.lt_irrefl n)

end Transfer

/-- The transfer of a byte to the address behind it repeats the byte. -/
theorem transfer_copies_block_of_three :
    let s : Z80 := { holding 0x100 [0xed, 0xb0, 0x2a] with
      b := 0, c := 3, d := 0x01, e := 0x03, h := 0x01, l := 0x02 }
    (step^[2] s).pc = 0x100 ∧ (step^[3] s).pc = 0x102 ∧ (step^[3] s).bc = 0 ∧
      ∀ k < 3, (step^[3] s).read (further false 0x103 k) = 0x2a := by
  have hs := instanceOf_holding 0x100 [0xed, 0xb0, 0x2a]
  have hcode (k : Nat) (hk : k < 3) :
      (holding 0x100 [0xed, 0xb0, 0x2a]).read (0x100 + UInt16.ofNat k) = [0xed, 0xb0, 0x2a][k] :=
    read_holding (by decide) hk
  have hpc : (holding 0x100 [0xed, 0xb0, 0x2a]).pc = 0x100 := rfl
  generalize holding 0x100 [0xed, 0xb0, 0x2a] = start at hs hcode hpc ⊢
  intro s
  have hspc : s.pc = 0x100 := hpc
  have hbc : s.bc = 3 := by
    change word 0 3 = 3
    decide
  have hhl : s.hl = 0x102 := by
    change word 1 2 = 0x102
    decide
  have hde : s.de = 0x103 := by
    change word 1 3 = 0x103
    decide
  have hthree : s.repetitions = 3 := by
    rw [repetitions, hbc]
    decide
  have hblock := transfer_copies_block (s := s) false hs
    (by rw [hspc]; exact hcode 0 (by decide)) (by rw [hspc]; exact hcode 1 (by decide))
    (by rw [hthree, hspc, hde]; decide)
  simp only [hthree] at hblock
  obtain ⟨hstays, hend, -, hcopied, -⟩ := hblock
  refine ⟨?_, ?_, ?_, ?_⟩
  · rw [hstays 2 (by decide), hspc]
  · rw [hend]
    simp only [hspc]
    rfl
  · rw [hend]
    exact Word.word_high_low 0
  · intro k hk
    have hlead : lead false s.hl s.de = 1 := by
      rw [hhl, hde]
      rfl
    have hbyte : s.read 0x102 = 0x2a := hcode 2 (by decide)
    rw [← hde, hcopied k hk, hlead, Nat.mod_one, further_zero, hhl, hbyte]

end EightBit.Z80
