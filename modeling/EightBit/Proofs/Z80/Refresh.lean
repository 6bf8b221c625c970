import EightBit.Proofs.Multibyte
import EightBit.Proofs.Z80.Interrupts

/-!
How a Z80 refreshes memory.

Each byte that is fetched as an opcode counts the refresh register up in its seven low bits.
Prefixes are such bytes. Operands, displacements and the opcode behind a displacement are not.
Nothing else counts, so the register tells how many opcodes a run has fetched, as long as no
instruction and nobody from outside sets it.
-/

namespace EightBit.Z80

/-- The refresh counter counts in seven bits. -/
theorem toNat_refreshed (r : UInt8) (n : Nat) :
    (refreshed r n).toNat = 128 * (r.toNat / 128) + (r.toNat + n) % 128 := by
  have hr := r.toNat_lt
  have hhigh : (r &&& 0x80).toNat = 2 ^ 7 * (r.toNat / 128) := by
    have hmask : (0x80 : UInt8).toNat = 2 ^ 7 := rfl
    rw [Byte.toNat_and_mask r hmask, Byte.bit_seven, toNat_decide]
    split <;> omega
  have hlow : ((r + UInt8.ofNat n) &&& 0x7f).toNat = (r.toNat + n) % 128 := by
    have hmask : (0x7f : UInt8).toNat = 2 ^ 7 - 1 := rfl
    rw [UInt8.toNat_and, hmask, Nat.and_two_pow_sub_one_eq_mod, UInt8.toNat_add, UInt8.toNat_ofNat']
    omega
  have hlt : (r.toNat + n) % 128 < 2 ^ 7 := Nat.mod_lt _ (by decide)
  rw [refreshed, UInt8.toNat_or, hhigh, hlow, ← Nat.two_pow_add_eq_or_of_lt hlt]

theorem refreshed_zero (r : UInt8) : refreshed r 0 = r := by
  apply UInt8.toNat_inj.mp
  rw [toNat_refreshed]
  omega

theorem refreshed_refreshed (r : UInt8) (m n : Nat) :
    refreshed (refreshed r m) n = refreshed r (m + n) := by
  apply UInt8.toNat_inj.mp
  have hr := r.toNat_lt
  rw [toNat_refreshed, toNat_refreshed, toNat_refreshed]
  omega

/-- How many bytes are fetched as opcodes when these two come first. -/
def opcodeFetches (first second : UInt8) : Nat :=
  if first = 0xcb ∨ first = 0xed then 2
  else if first = 0xdd ∨ first = 0xfd then
    if second = 0xdd ∨ second = 0xed ∨ second = 0xfd then 1 else 2
  else 1

def fetches (s : Z80) : Act → Nat
  | .step => opcodeFetches (s.read s.pc) (s.read (s.pc + 1))
  | _ => 0

def totalFetches : Z80 → List Act → Nat
  | _, [] => 0
  | s, act :: acts => s.fetches act + totalFetches (s.act act) acts

/-- Whether an act sets the refresh register: the load from the accumulator, a reset or an edit of
the register. -/
def setsRefresh (s : Z80) : Act → Bool
  | .step => s.read s.pc == 0xed && s.read (s.pc + 1) == 0x4f
  | .reset => true
  | .edit _ name _ => name == "r"
  | _ => false

def LeavesRefresh : Z80 → List Act → Prop
  | _, [] => True
  | s, act :: acts => s.setsRefresh act = false ∧ LeavesRefresh (s.act act) acts

section Fetch

variable (code : UInt16 → UInt8) (pc : UInt16)

/-- What is fetched counts the opcodes that its bytes stand for. -/
theorem refreshes_fetch :
    (Instruction.fetch code pc).refreshes = opcodeFetches (code pc) (code (pc + 1)) := by
  have hfetched := fetched_fetch code pc
  generalize Instruction.fetch code pc = i at hfetched ⊢
  cases hfetched with
  | bits hfirst => simp [opcodeFetches, hfirst, Instruction.fetchBits, Fetch.instruction]
  | extended hfirst => simp [opcodeFetches, hfirst, refreshes_fetchExtended]
  | lone i hfirst hvoids =>
    have hnext : code (pc + 1) = 0xdd ∨ code (pc + 1) = 0xed ∨ code (pc + 1) = 0xfd := by
      simpa [Instruction.voids, or_assoc] using hvoids
    rcases hfirst with hfirst | hfirst <;> simp [opcodeFetches, hfirst, hnext]
  | indexedBits i hi hfirst hbits =>
    -- Neither the displacement nor the opcode behind it is fetched as an opcode.
    rw [fetchBits_of_ne _ _ hi]
    rcases hfirst with hfirst | hfirst <;> simp [opcodeFetches, hfirst, hbits]
  | indexed i hfirst hvoids =>
    have hnext : ¬ (code (pc + 1) = 0xdd ∨ code (pc + 1) = 0xed ∨ code (pc + 1) = 0xfd) := by
      simpa [Instruction.voids, and_assoc] using hvoids
    rw [refreshes_fetchBase]
    rcases hfirst with hfirst | hfirst <;> simp [opcodeFetches, hfirst, hnext]
  | base hbits hvoids =>
    have hfirst : (code pc ≠ 0xdd ∧ code pc ≠ 0xed) ∧ code pc ≠ 0xfd := by
      simpa [Instruction.voids] using hvoids
    rw [refreshes_fetchBase]
    simp [opcodeFetches, hbits, hfirst]

theorem extended_of_page (h : (Instruction.fetch code pc).page = .extended) : code pc = 0xed := by
  have hfetched := fetched_fetch code pc
  generalize Instruction.fetch code pc = i at h hfetched
  cases hfetched with
  | extended hfirst => exact hfirst
  | bits | lone | indexed | base => contradiction
  | indexedBits i => cases i <;> contradiction

end Fetch

section Step

variable (s : Z80)

theorem setsRefresh_of_isSpecial (h : s.instruction.isSpecial 7 1 = true) :
    s.setsRefresh .step = true := by
  simp only [Instruction.isSpecial, Bool.and_eq_true, beq_iff_eq, and_assoc] at h
  obtain ⟨hpage, hx, hz, hy⟩ := h
  have hfirst : s.read s.pc = 0xed := extended_of_page s.read s.pc hpage
  have hop : s.instruction.opcode = 0x4f := by
    rw [Opcode.eq_ofNat s.instruction.opcode, hx, hy, hz]
    rfl
  rw [instruction_of_extended hfirst] at hop
  have hsecond : s.read (s.pc + 1) = 0x4f := hop
  simp [setsRefresh, hfirst, hsecond]

/-- A step counts its opcodes and leaves the rest of the register, unless it loads the register. -/
theorem r_step (h : s.setsRefresh .step = false) : s.step.r = refreshed s.r (s.fetches .step) := by
  have hcontrols := controls_step s
  have hr : s.step.r = s.step.control.r := rfl
  rw [hr, fetches, ← refreshes_fetch]
  generalize s.step.control = c at hcontrols ⊢
  cases hcontrols with
  | loadsR hspecial =>
    rw [setsRefresh_of_isSpecial s hspecial] at h
    contradiction
  | _ => rfl

variable {s}

theorem keeps_r_table (k : RegisterClass) (r : UInt8) :
    ∀ e ∈ table k, e.1 ≠ "r" → e.2.Keeps fun s => s.r = r := by
  cases k with
  | register =>
    simp only [table, registers, List.forall_mem_cons, Accessor.Keeps]
    and_intros
    all_goals first
      | exact fun _ _ _ h => h
      | exact List.forall_mem_nil _
      | exact fun hname => absurd rfl hname
  | flag =>
    simp only [table, flags, flagEntry, List.forall_mem_cons, Accessor.Keeps]
    and_intros
    all_goals first | exact fun _ _ _ h => h | exact List.forall_mem_nil _

theorem r_act {act : Act} (h : s.setsRefresh act = false) :
    (s.act act).r = refreshed s.r (s.fetches act) := by
  have hzero : s.r = refreshed s.r 0 := (refreshed_zero s.r).symm
  cases act with
  | step => exact r_step s h
  | reset => contradiction
  | irq data => exact (congrArg Control.r (control_irq s data)).trans hzero
  | nmi => exact (congrArg Control.r (control_nmi s)).trans hzero
  | edit k name value =>
    have hother : name ≠ "r" := by simpa [setsRefresh] using h
    have hkeeps : ∀ e ∈ table k, e.1 = name → e.2.Keeps fun t => t.r = s.r :=
      fun e he hname => keeps_r_table k s.r e he (hname ▸ hother)
    exact (edit_keeps k name value hkeeps rfl).trans hzero
  | jump addr => exact hzero
  | write addr v => exact hzero
  | writePort port v => exact hzero

/-- The refresh register counts the opcodes of a whole run. -/
theorem r_run {acts : List Act} (h : s.LeavesRefresh acts) :
    (s.run acts).r = refreshed s.r (s.totalFetches acts) := by
  induction acts generalizing s with
  | nil => exact (refreshed_zero s.r).symm
  | cons act acts ih =>
    obtain ⟨hact, hacts⟩ := h
    have hrun : s.run (act :: acts) = (s.act act).run acts := rfl
    rw [hrun, ih hacts, r_act hact, refreshed_refreshed]
    rfl

end Step

/-- In every state a step other than the load from the accumulator adds the opcodes that it fetches
to the seven low bits of the refresh register and leaves its top bit alone. Over a run, whatever
else happens in it, the register counts all opcodes that were fetched. -/
theorem refresh_counts_fetches (s : Z80) :
    (¬ (s.read s.pc = 0xed ∧ s.read (s.pc + 1) = 0x4f) →
      s.step.r.toNat % 128 =
        (s.r.toNat % 128 + opcodeFetches (s.read s.pc) (s.read (s.pc + 1))) % 128 ∧
      s.step.r.toNat / 128 = s.r.toNat / 128) ∧
    ∀ acts, s.LeavesRefresh acts →
      (s.run acts).r.toNat % 128 = (s.r.toNat % 128 + s.totalFetches acts) % 128 ∧
      (s.run acts).r.toNat / 128 = s.r.toNat / 128 := by
  have hcounted (n : Nat) : (refreshed s.r n).toNat % 128 = (s.r.toNat % 128 + n) % 128 ∧
      (refreshed s.r n).toNat / 128 = s.r.toNat / 128 := by
    rw [toNat_refreshed]
    omega
  constructor
  · intro hstep
    have hleaves : s.setsRefresh .step = false := by simpa [setsRefresh] using hstep
    rw [r_step s hleaves]
    exact hcounted _
  · intro acts hacts
    rw [r_run hacts]
    exact hcounted _

/-- A block operation transfers two bytes and the halt behind it is executed twice, with an
interrupt request in between: six opcodes, on which the seven bits run over. -/
theorem refresh_counts_transfer :
    let s : Z80 := { powerOn (Memory.ram 8) (Memory.ram 0) {} with r := 0xfe }
    let acts : List Act := [.write 0 0xed, .write 1 0xb0, .write 2 0x76,
      .edit .register "bc" (.u16 2), .step, .step, .step, .irq 0xff, .step]
    s.totalFetches acts = 6 ∧
      (s.run acts).r.toNat % 128 = 4 ∧ (s.run acts).r.toNat / 128 = 1 ∧
      s.step.r.toNat % 128 = 127 := by
  intro s acts
  obtain ⟨hstep, hrun⟩ := refresh_counts_fetches s
  have htotal : s.totalFetches acts = 6 := by decide +kernel
  have hleaves : s.LeavesRefresh acts := by
    refine ⟨?_, ?_, ?_, ?_, ?_, ?_, ?_, ?_, ?_, trivial⟩ <;> decide +kernel
  obtain ⟨hlow, htop⟩ := hrun acts hleaves
  have hr : s.r.toNat = 254 := by decide +kernel
  rw [hr] at hlow htop
  refine ⟨htotal, ?_, htop, ?_⟩
  · rw [hlow, htotal]
  · rw [(hstep (by decide +kernel)).1]
    decide +kernel

end EightBit.Z80
