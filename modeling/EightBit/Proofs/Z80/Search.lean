import EightBit.Proofs.Z80.Blocks

/-!
The repeating block search of the Z80.

The accumulator is compared with the bytes of a block one after the other. There are two ways out,
an equal byte and the end of the block, and on the last byte they meet.
-/

namespace EightBit.Z80

open Byte

section Flags

variable (s : Z80)

def compareFlags : UInt8 :=
  let o := FlagLayout.zilog.sub s.f s.a (s.read s.hl) false
  let n := o.value - maskIf (o.flags &&& flagH != 0) 1
  (o.flags &&& (flagS ||| flagZ ||| flagH)) ||| flagN ||| (s.f &&& flagC) |||
    maskIf (s.bc - 1 != 0) flagV ||| blockBits n

theorem bit_compareFlags {k : Nat} (hk : bit (flag3 ||| flag5) k = false) :
    bit s.compareFlags k =
      ((((bit (FlagLayout.zilog.sub s.f s.a (s.read s.hl) false).flags k &&
        bit (flagS ||| flagZ ||| flagH) k) || bit flagN k) || (bit s.f k && bit flagC k)) ||
        (s.bc - 1 != 0) && bit flagV k) := by
  simp only [compareFlags, bit_or, bit_and, bit_maskIf, bit_blockBits _ hk, Bool.or_false]

/-- A difference is zero between equal bytes only. -/
theorem bit_zero_sub (flags a b : UInt8) :
    bit (FlagLayout.zilog.sub flags a b false).flags 6 = (a == b) := by
  have hvalue : (FlagLayout.zilog.sub flags a b false).value = a - b := by
    have ha := a.toNat_lt
    have hb := b.toNat_lt
    apply UInt8.toNat_inj.mp
    simp only [FlagLayout.sub, FlagLayout.pass, Bool.toNat_false, UInt8.toNat_ofNat',
      UInt8.toNat_sub]
    omega
  rw [bit_sub _ _ _ _ (by decide), Conditions.bit_zero, hvalue, Bool.eq_iff_iff, beq_iff_eq,
    beq_iff_eq]
  constructor <;> grind

theorem flags_compareFlags {t : Z80} (ht : t.f = s.compareFlags) :
    t.flag flagC = s.flag flagC ∧ t.flag flagZ = (s.a == s.read s.hl) ∧
      t.flag flagV = (s.bc - 1 != 0) := by
  refine ⟨?_, ?_, ?_⟩
  · rw [flag_eq_bit t (k := 0) rfl, flag_eq_bit s (k := 0) rfl, ht, bit_compareFlags s rfl]
    simp [bit]
  · rw [flag_eq_bit t (k := 6) rfl, ht, bit_compareFlags s rfl, bit_zero_sub]
    simp [bit]
  · rw [flag_eq_bit t (k := 2) rfl, ht, bit_compareFlags s rfl]
    simp [bit]

end Flags

section Step

variable {s : Z80} {down : Bool}

theorem blockCompare_eq :
    s.blockByte (repeating down) 1 = (s.bc - 1 != 0 && s.a != s.read s.hl,
      { (s.setBC (s.bc - 1)).setHL (further down s.hl 1) with f := s.compareFlags }) := by
  have hzero : ((FlagLayout.zilog.sub s.f s.a (s.read s.hl) false).flags &&& flagZ == 0) =
      (s.a != s.read s.hl) := by
    have hmask : flagZ.toNat = 2 ^ 6 := rfl
    rw [bne, ← bit_zero_sub s.f s.a, ← and_mask_ne_zero _ hmask, bne, Bool.not_not]
  simp only [blockByte, blockCompare, hzero, advance_repeating]
  rfl

/-- The repeating comparison handles one byte in a step and is left with the last one or with an
equal one. -/
theorem step_of_compare (hfirst : s.read s.pc = 0xed)
    (hsecond : s.read (s.pc + 1) = if down then 0xb9 else 0xb1) :
    s.step =
      { (s.setBC (s.bc - 1)).setHL (further down s.hl 1) with
        pc := if s.bc - 1 != 0 && s.a != s.read s.hl then s.pc else s.pc + 2
        f := s.compareFlags
        r := refreshed s.r 2 } := by
  have hop : s.read (s.pc + 1) = blockOpcode down 1 := by
    rw [hsecond]
    cases down <;> rfl
  rw [step_of_block (by decide) hfirst hop blockCompare_eq rfl]
  rfl

end Step

/-- The state `k` bytes into a block search: what it has counted is all that has changed. -/
structure Searched (s : Z80) (down : Bool) (k : Nat) (t : Z80) : Prop where
  registers : t = { (s.setBC (s.bc - UInt16.ofNat k)).setHL (further down s.hl k) with
    pc := t.pc, f := t.f, r := t.r }
  carry : t.flag flagC = s.flag flagC

section Search

variable {s : Z80} {down : Bool}

theorem searched_zero : s.Searched down 0 s where
  registers := by
    rw [bc_sub_zero, further_zero, setBC_bc, setHL_hl]
  carry := rfl

theorem Searched.read {t : Z80} {k : Nat} (h : s.Searched down k t) : t.read = s.read := by
  rw [h.registers]
  rfl

theorem Searched.bc {t : Z80} {k : Nat} (h : s.Searched down k t) :
    t.bc = s.bc - UInt16.ofNat k := by
  rw [h.registers]
  exact Word.word_high_low _

theorem Searched.hl {t : Z80} {k : Nat} (h : s.Searched down k t) :
    t.hl = further down s.hl k := by
  rw [h.registers]
  exact Word.word_high_low _

/-- The byte that is compared tells whether the search goes on. -/
theorem Searched.step {t : Z80} {k : Nat} (h : s.Searched down k t) (hpc : t.pc = s.pc)
    (hk : k < s.repetitions) (hfirst : s.read s.pc = 0xed)
    (hsecond : s.read (s.pc + 1) = if down then 0xb9 else 0xb1) :
    let byte := s.read (further down s.hl k)
    s.Searched down (k + 1) t.step ∧
      t.step.pc = (if k + 1 < s.repetitions ∧ byte ≠ s.a then s.pc else s.pc + 2) ∧
      t.step.flag flagZ = (s.a == byte) ∧
      t.step.flag flagV = decide (k + 1 < s.repetitions) := by
  intro byte
  rw [← h.read, ← hpc] at hfirst hsecond
  have hstep := step_of_compare hfirst hsecond
  have hbc : t.bc - 1 = s.bc - UInt16.ofNat (k + 1) := by
    rw [← bc_sub_succ, h.bc]
  have ha : t.a = s.a := by
    rw [h.registers]
    rfl
  have hbyte : t.read t.hl = byte := by
    rw [h.read, h.hl]
  have hagain : (t.bc - 1 != 0) = decide (k + 1 < s.repetitions) := by
    rw [hbc, bc_sub_bne_zero s (Nat.succ_pos k) hk]
  obtain ⟨hcarry, hzero, hoverflow⟩ := flags_compareFlags t (t := t.step) (by rw [hstep])
  refine ⟨⟨?_, ?_⟩, ?_, ?_, ?_⟩
  · rw [hstep, hbc, further_add, ← h.hl, h.registers]
    rfl
  · rw [hcarry, h.carry]
  · rw [hstep]
    simp only [hagain, ha, hbyte, hpc, Bool.and_eq_true, decide_eq_true_iff, bne_iff_ne, ne_comm]
  · rw [hzero, ha, hbyte]
  · rw [hoverflow, hagain]

/-- As long as the byte is not found and the block not at its end, the search goes on. -/
theorem searched_iterate (hfirst : s.read s.pc = 0xed)
    (hsecond : s.read (s.pc + 1) = if down then 0xb9 else 0xb1) {k : Nat}
    (hk : k < s.repetitions) (hmiss : ∀ j < k, s.read (further down s.hl j) ≠ s.a) :
    s.Searched down k (step^[k] s) ∧ (step^[k] s).pc = s.pc := by
  induction k with
  | zero => exact ⟨searched_zero, rfl⟩
  | succ k ih =>
    obtain ⟨hbefore, hpc⟩ := ih (by omega) fun j hj => hmiss j (by omega)
    obtain ⟨hsearched, hpc', -⟩ := hbefore.step hpc (by omega) hfirst hsecond
    rw [if_pos ⟨hk, hmiss k (by omega)⟩] at hpc'
    rw [Function.iterate_succ_apply']
    exact ⟨hsearched, hpc'⟩

/-- A repeating comparison stops behind the first byte of its block that equals the accumulator, or
else at the end of the block. The zero flag tells the one from the other, also where the last byte
is the equal one, and the overflow flag tells whether the counter has reached zero. -/
theorem compare_searches_block (down : Bool) (hfirst : s.read s.pc = 0xed)
    (hsecond : s.read (s.pc + 1) = if down then 0xb9 else 0xb1) :
    let n := s.repetitions
    let byte k := s.read (further down s.hl k)
    (∀ k < n, byte k = s.a → (∀ j < k, byte j ≠ s.a) →
      (∀ j ≤ k, s.Searched down j (step^[j] s) ∧ (step^[j] s).pc = s.pc) ∧
        let t := step^[k + 1] s
        s.Searched down (k + 1) t ∧ t.pc = s.pc + 2 ∧ t.flag flagZ = true ∧
          t.hl = further down s.hl (k + 1) ∧ t.bc.toNat = n - (k + 1) ∧
          t.flag flagV = (t.bc != 0)) ∧
      ((∀ j < n, byte j ≠ s.a) →
        (∀ j < n, s.Searched down j (step^[j] s) ∧ (step^[j] s).pc = s.pc) ∧
          let t := step^[n] s
          s.Searched down n t ∧ t.pc = s.pc + 2 ∧ t.flag flagZ = false ∧
            t.hl = further down s.hl n ∧ t.bc = 0 ∧ t.flag flagV = false) := by
  intro n byte
  constructor
  · intro k hk hfound hmiss
    have hrun {j : Nat} (hj : j ≤ k) := searched_iterate hfirst hsecond (k := j) (by omega)
      fun i hi => hmiss i (by omega)
    obtain ⟨hbefore, hpc⟩ := hrun (le_refl k)
    obtain ⟨hsearched, hpc', hzero, hoverflow⟩ := hbefore.step hpc hk hfirst hsecond
    have hcount : (s.bc - UInt16.ofNat (k + 1)).toNat = n - (k + 1) :=
      toNat_bc_sub s (Nat.succ_pos k) hk
    refine ⟨fun j hj => hrun hj, ?_⟩
    intro t
    have ht : t = (step^[k] s).step := Function.iterate_succ_apply' step k s
    rw [ht]
    refine ⟨hsearched, ?_, ?_, hsearched.hl, ?_, ?_⟩
    · rw [hpc', if_neg fun h => h.2 hfound]
    · rw [hzero, beq_iff_eq]
      exact hfound.symm
    · rw [hsearched.bc, hcount]
    · rw [hoverflow, hsearched.bc, bc_sub_bne_zero s (Nat.succ_pos k) hk]
  · intro hmiss
    have hrun {j : Nat} (hj : j < n) := searched_iterate hfirst hsecond (k := j) hj
      fun i hi => hmiss i (by omega)
    -- The search is left with the last byte, which the count of at least one provides.
    obtain ⟨m, hm⟩ := Nat.exists_eq_succ_of_ne_zero s.repetitions_pos.ne'
    have hlast : m < n := by omega
    obtain ⟨hbefore, hpc⟩ := hrun hlast
    obtain ⟨hsearched, hpc', hzero, hoverflow⟩ := hbefore.step hpc hlast hfirst hsecond
    refine ⟨fun j hj => hrun hj, ?_⟩
    intro t
    have ht : t = (step^[m] s).step := by
      rw [← Function.iterate_succ_apply' step m s, ← hm]
    have hn : n = m + 1 := hm
    rw [ht, hn]
    refine ⟨hsearched, ?_, ?_, hsearched.hl, ?_, ?_⟩
    · rw [hpc', if_neg fun h => by omega]
    · rw [hzero, beq_eq_false_iff_ne]
      exact (hmiss m hlast).symm
    · rw [hsearched.bc, bc_sub_eq_zero_iff s (Nat.succ_pos m) hlast]
      exact hn.symm
    · rw [hoverflow]
      exact decide_eq_false (by omega)

end Search

/-- A search among the three bytes at `$102`. -/
def searching (s : Z80) (a : UInt8) : Z80 := { s with a, b := 0, c := 3, h := 0x01, l := 0x02 }

theorem repetitions_searching (s : Z80) (a : UInt8) : (s.searching a).repetitions = 3 := by
  change (if word 0 3 = 0 then 0x10000 else (word 0 3).toNat) = 3
  decide

theorem further_searching (s : Z80) (a : UInt8) {k : Nat} (hk : k < 3) :
    further false (s.searching a).hl k = 0x100 + UInt16.ofNat (k + 2) := by
  change further false (word 1 2) k = 0x100 + UInt16.ofNat (k + 2)
  decide +revert

/-- The last of three bytes is found with the counter at zero, and what is not among them is not
found. -/
theorem compare_searches_block_of_three :
    let s := holding 0x100 [0xed, 0xb1, 0x05, 0x06, 0x2a]
    let found := step^[3] (s.searching 0x2a)
    let missed := step^[3] (s.searching 0x07)
    (found.pc = 0x102 ∧ found.bc = 0 ∧ found.flag flagZ = true) ∧
      missed.pc = 0x102 ∧ missed.bc = 0 ∧ missed.flag flagZ = false := by
  have hcode (k : Nat) (hk : k < 5) :
      (holding 0x100 [0xed, 0xb1, 0x05, 0x06, 0x2a]).read (0x100 + UInt16.ofNat k) =
        [0xed, 0xb1, 0x05, 0x06, 0x2a].getD k 0 := by
    rw [List.getD_eq_getElem _ _ hk]
    exact read_holding (by decide) hk
  have hpc : (holding 0x100 [0xed, 0xb1, 0x05, 0x06, 0x2a]).pc = 0x100 := rfl
  generalize holding 0x100 [0xed, 0xb1, 0x05, 0x06, 0x2a] = s at hcode hpc ⊢
  intro _ found missed
  have hpc' (a : UInt8) : (s.searching a).pc = 0x100 := hpc
  have hread (a : UInt8) : (s.searching a).read = s.read := rfl
  have hbyte (a : UInt8) {k : Nat} (hk : k < 3) :
      s.read (further false (s.searching a).hl k) = [0x05, 0x06, 0x2a].getD k 0 := by
    rw [further_searching s a hk, hcode (k + 2) (by omega)]
    rfl
  have hsearch (a : UInt8) := compare_searches_block (s := s.searching a) false
    (by rw [hpc']; exact hcode 0 (by decide)) (by rw [hpc']; exact hcode 1 (by decide))
  simp only [repetitions_searching, hpc', hread] at hsearch
  constructor
  · have hbefore : ∀ j < 2, [0x05, 0x06, 0x2a].getD j 0 ≠ (0x2a : UInt8) := by decide
    obtain ⟨-, -, hfound, hzero, -, hbc, -⟩ := (hsearch 0x2a).1 2 (by decide)
      (hbyte _ (by decide)) fun j hj => by
        rw [hbyte _ (by omega)]
        exact hbefore j hj
    have hempty : found.bc = 0 := UInt16.toNat_inj.mp hbc
    exact ⟨hfound, hempty, hzero⟩
  · have hnowhere : ∀ j < 3, [0x05, 0x06, 0x2a].getD j 0 ≠ (0x07 : UInt8) := by decide
    obtain ⟨-, -, hmissed, hzero, -, hbc, -⟩ := (hsearch 0x07).2 fun j hj => by
      rw [hbyte _ hj]
      exact hnowhere j hj
    have hempty : missed.bc = 0 := hbc
    exact ⟨hmissed, hempty, hzero⟩

end EightBit.Z80
