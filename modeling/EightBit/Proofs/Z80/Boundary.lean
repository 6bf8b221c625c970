import EightBit.Proofs.Ram
import EightBit.Proofs.Word
import EightBit.Proofs.Z80.Control
import EightBit.Z80.Lister

/-!
Listing and execution agree on where a Z80 instruction ends.

Both are a walk over prefixes, opcode, displacement and immediate bytes. The walks meet wherever
an index prefix changes the opcode behind it, or that opcode has no immediate bytes.
-/

namespace EightBit.Z80

/-- How many bytes a base instruction has behind its opcode. -/
def behindBase (i : Index) (op : UInt8) : Nat :=
  (if i ≠ .hl ∧ Opcode.pointsToByte op = true then 1 else 0) + Opcode.immediateBytes op

theorem behindBase_le (i : Index) (op : UInt8) : behindBase i op ≤ 2 := by
  unfold behindBase Opcode.pointsToByte Opcode.immediateBytes
  split
  · next hx => grind
  · next hx => grind
  · next hx => grind
  · split <;> grind

theorem immediateBytes_le (op : UInt8) : Opcode.immediateBytes op ≤ 2 :=
  Nat.le_trans (Nat.le_add_left _ _) (behindBase_le .hl op)

theorem extendedBytes_le (op : UInt8) : Opcode.extendedBytes op ≤ 2 := by
  unfold Opcode.extendedBytes
  split <;> omega

section Fetch

variable (code : UInt16 → UInt8) (t : Fetch)

@[simp] theorem Fetch.byte_eq :
    t.byte code = (code t.next, ⟨t.next + 1, t.length + 1, t.refreshes⟩) := rfl

@[simp] theorem Fetch.opcode_eq :
    t.opcode code = (code t.next, ⟨t.next + 1, t.length + 1, t.refreshes + 1⟩) := rfl

theorem Fetch.length_immediate {count : Nat} (h : count ≤ 2) :
    (t.immediate code count).2.length = t.length + count := by
  obtain rfl | rfl | rfl : count = 0 ∨ count = 1 ∨ count = 2 := by omega
  · rfl
  · rfl
  · rfl

@[simp] theorem Fetch.refreshes_immediate (count : Nat) :
    (t.immediate code count).2.refreshes = t.refreshes := by
  unfold immediate
  split <;> rfl

@[simp] theorem Fetch.length_displacement (present : Bool) :
    (t.displacement code present).2.length = t.length + present.toNat := by
  cases present <;> rfl

@[simp] theorem Fetch.refreshes_displacement (present : Bool) :
    (t.displacement code present).2.refreshes = t.refreshes := by
  cases present <;> rfl

theorem length_fetchBase (i : Index) : (Instruction.fetchBase code t i).length =
    t.length + 1 + behindBase i (code t.next) := by
  have himmediate := immediateBytes_le (code t.next)
  simp only [Instruction.fetchBase, Fetch.instruction, Fetch.opcode_eq,
    Fetch.length_immediate _ _ himmediate, Fetch.length_displacement, behindBase]
  cases i <;> cases Opcode.pointsToByte (code t.next) <;> simp [Nat.add_assoc]

theorem refreshes_fetchBase (i : Index) :
    (Instruction.fetchBase code t i).refreshes = t.refreshes + 1 := by
  simp [Instruction.fetchBase, Fetch.instruction]

theorem length_fetchExtended : (Instruction.fetchExtended code t).length =
    t.length + 2 + Opcode.extendedBytes (code (t.next + 1)) := by
  have himmediate := extendedBytes_le (code (t.next + 1))
  simp only [Instruction.fetchExtended, Fetch.instruction, Fetch.opcode_eq,
    Fetch.length_immediate _ _ himmediate]

theorem refreshes_fetchExtended :
    (Instruction.fetchExtended code t).refreshes = t.refreshes + 2 := by
  simp [Instruction.fetchExtended, Fetch.instruction]

/-- Behind an index prefix the displacement and the opcode are fetched without a refresh. -/
theorem fetchBits_of_ne {i : Index} (hi : i ≠ .hl) : Instruction.fetchBits code t i =
    { page := .bits, index := i, opcode := code (t.next + 1 + 1),
      displacement := code (t.next + 1), operand := 0, length := t.length + 3,
      refreshes := t.refreshes + 1 } := by
  cases i with
  | hl => contradiction
  | ix => rfl
  | iy => rfl

end Fetch

namespace Lister

section Base

variable (code : Code) (addr skipped : Nat) (i : Index)

theorem operandAt_snd (n : Nat) (half : Index) :
    (operandAt code addr n half i).2 = addr + 1 + (if i ≠ .hl ∧ n = 6 then 1 else 0) := by
  unfold operandAt
  by_cases hn : n = 6 <;> cases i <;> simp [hn]

theorem length_readMixed (hx : Opcode.x (code addr) = 0) :
    (readMixed code addr skipped i).length = skipped + 1 + behindBase i (code addr) := by
  have hz7 := Opcode.z_lt (code addr)
  unfold readMixed behindBase Opcode.pointsToByte Opcode.immediateBytes
  simp only [hx, operandAt_snd]
  split
  · next hz => split <;> grind
  · next hz => split <;> grind
  · next hz => split <;> grind
  · next hz => grind
  · next hz => grind
  · next hz => grind
  · next hz => grind
  · next hz => grind

theorem length_readLoad (hx : Opcode.x (code addr) = 1) :
    (readLoad code addr skipped i).length = skipped + 1 + behindBase i (code addr) := by
  unfold readLoad behindBase Opcode.pointsToByte Opcode.immediateBytes
  simp only [hx, operandAt_snd]
  split
  · next hhalt => grind
  · next hload => grind

/-- The prefixes have rows of their own in the last quarter, where nothing is listed for them. -/
theorem length_readBranch (hx : Opcode.x (code addr) = 3)
    (hplain : Instruction.voids (code addr) = false) :
    (readBranch code addr skipped i).length = skipped + 1 + behindBase i (code addr) := by
  have hop := Opcode.eq_ofNat (code addr)
  unfold readBranch behindBase Opcode.pointsToByte Opcode.immediateBytes
  simp only [hx]
  split
  · next hz => grind
  · next hz => split <;> grind
  · next hz => grind
  · next hz => split <;> grind
  · next hz => grind
  · next hz =>
    have hq := Opcode.q_lt (code addr)
    rw [hx, hz] at hop
    split
    · grind
    · grind
    · next hpush hcall =>
      have hy : Opcode.y (code addr) = 3 ∨ Opcode.y (code addr) = 5 ∨ Opcode.y (code addr) = 7 := by
        have hlt := Opcode.y_lt (code addr)
        have heq := Opcode.y_eq (code addr)
        grind
      rcases hy with hy | hy | hy <;> rw [hy] at hop <;> rw [hop] at hplain <;> contradiction
  · next hz => grind [arithmetic]
  · next hz => grind [Opcode.z_lt (code addr)]

/-- Without a prefix of its own, an opcode is listed with the bytes that are fetched with it. -/
theorem length_readBase (hplain : Instruction.voids (code addr) = false) :
    (readBase code addr skipped i).length = skipped + 1 + behindBase i (code addr) := by
  unfold readBase
  split
  · next hx => exact length_readMixed code addr skipped i hx
  · next hx => exact length_readLoad code addr skipped i hx
  · next hx =>
    unfold behindBase Opcode.pointsToByte Opcode.immediateBytes arithmetic
    simp only [hx, operandAt_snd]
    grind
  · next h0 h1 h2 =>
    have hx : Opcode.x (code addr) = 3 := by grind [Opcode.x_lt (code addr)]
    exact length_readBranch code addr skipped i hx hplain

end Base

theorem usesIndex_of_pointsToByte {op : UInt8} (h : Opcode.pointsToByte op = true) :
    usesIndex op = true := by
  have hop := Opcode.eq_ofNat op
  unfold Opcode.pointsToByte at h
  unfold usesIndex
  split at h
  · next hx => grind
  · next hx =>
    have hhalt : op ≠ 0x76 := by
      rintro rfl
      contradiction
    grind
  · next hx => grind
  · contradiction

theorem length_readBits (op : UInt8) (target : String) (indexed : Bool) (length : Nat) :
    (readBits op target indexed length).length = length := by
  unfold readBits
  simp only
  split <;> rfl

theorem length_readExtended (code : Code) (addr : Nat) :
    (readExtended code addr).length = 2 + Opcode.extendedBytes (code (addr + 1)) := by
  unfold readExtended Opcode.extendedBytes
  simp only
  split
  · grind
  · grind
  · grind
  · grind
  · grind
  · grind
  · grind
  · split <;> grind
  · split <;> grind
  · grind

end Lister

section Length

variable {code : Code} {pc : UInt16}

/-- Whether an index prefix stands before an opcode that it does not change and that has immediate
bytes. Such a pair is listed as two bytes that mean nothing. -/
def drifts (first second : UInt8) : Bool :=
  (first == 0xdd || first == 0xfd) && !Instruction.voids second && second != 0xcb &&
    !Lister.usesIndex second && Opcode.immediateBytes second != 0

/-- The bytes at which the listing gives up an index prefix are those that make it void. -/
theorem Lister.readIndexed_eq (code : Code) (addr : Nat) (i : Index) :
    readIndexed code addr i =
      if Instruction.voids (code (addr + 1)) then ⟨"?" ++ Numeral.hexPair (code addr), "", 1⟩
      else if code (addr + 1) == 0xcb then
        readBits (code (addr + 3)) (pointer i (code (addr + 2))) true 4
      else if usesIndex (code (addr + 1)) then readBase code (addr + 1) 1 i
      else ⟨"?" ++ Numeral.hexPair (code addr) ++ Numeral.hexPair (code (addr + 1)), "", 2⟩ := rfl

/-- Behind an index prefix the listing sees the instruction that is fetched, unless it drifts. -/
theorem length_readIndexed (hpc : pc.toNat ≤ 0xfffc) {i : Index} (hi : i ≠ .hl)
    (hfirst : code pc.toNat = 0xdd ∨ code pc.toNat = 0xfd)
    (hdrift : drifts (code pc.toNat) (code (pc.toNat + 1)) = false) :
    (Lister.readIndexed code pc.toNat i).length =
      (Instruction.fetchIndexed (fun addr => code addr.toNat) ⟨pc, 0, 0⟩ i).length := by
  have hone : (pc + 1).toNat = pc.toNat + 1 := toNat_add_ofNat (k := 1) (by omega)
  rw [Lister.readIndexed_eq, Instruction.fetchIndexed]
  simp only [Fetch.opcode_eq, Nat.zero_add, hone]
  by_cases hvoids : Instruction.voids (code (pc.toNat + 1)) = true
  · rw [if_pos hvoids, if_pos hvoids]
    rfl
  · rw [if_neg hvoids, if_neg hvoids]
    split
    · rw [Lister.length_readBits, fetchBits_of_ne _ _ hi]
    · next hbits =>
      rw [length_fetchBase, hone]
      split
      · next huses => exact Lister.length_readBase code _ 1 i (by simpa using hvoids)
      · next huses =>
        have hpoints : Opcode.pointsToByte (code (pc.toNat + 1)) = false :=
          Bool.eq_false_iff.mpr fun h => huses (Lister.usesIndex_of_pointsToByte h)
        have himmediate : Opcode.immediateBytes (code (pc.toNat + 1)) = 0 := by
          unfold drifts at hdrift
          rcases hfirst with h | h <;> simp_all
        simp [behindBase, hpoints, himmediate]

/-- The listing has as many bytes as are fetched, unless it drifts. -/
theorem length_read (hpc : pc.toNat ≤ 0xfffc)
    (hdrift : drifts (code pc.toNat) (code (pc.toNat + 1)) = false) :
    (Lister.read code pc.toNat).length =
      (Instruction.fetch (fun addr => code addr.toNat) pc).length := by
  unfold Lister.read Instruction.fetch
  simp only
  split
  · exact Lister.length_readBits _ _ _ _
  · split
    · have hone : (pc + 1).toNat = pc.toNat + 1 := toNat_add_ofNat (k := 1) (by omega)
      rw [Lister.length_readExtended, length_fetchExtended, ← hone]
    · split
      · next hix =>
        exact length_readIndexed hpc (by decide) (.inl (by simpa using hix)) hdrift
      · split
        · next hiy =>
          exact length_readIndexed hpc (by decide) (.inr (by simpa using hiy)) hdrift
        · next hbits hextended hix hiy =>
          have hplain : Instruction.voids (code pc.toNat) = false := by
            simp_all [Instruction.voids]
          rw [Lister.length_readBase code pc.toNat 0 .hl hplain, length_fetchBase]

end Length

section Fetch

open Instruction

variable (code : UInt16 → UInt8) (pc : UInt16)

/-- What can be fetched, with the bytes that it is fetched for. -/
inductive Instruction.Fetched : Instruction → Prop
  | bits (hfirst : code pc = 0xcb) : Fetched (fetchBits code ⟨pc, 0, 0⟩ .hl)
  | extended (hfirst : code pc = 0xed) : Fetched (fetchExtended code ⟨pc, 0, 0⟩)
  | lone (i : Index) (hfirst : code pc = 0xdd ∨ code pc = 0xfd)
      (hvoids : voids (code (pc + 1)) = true) :
      Fetched
        { page := .lone, index := i, opcode := code pc, displacement := 0, operand := 0
          length := 1, refreshes := 1 }
  | indexedBits (i : Index) (hi : i ≠ .hl) (hfirst : code pc = 0xdd ∨ code pc = 0xfd)
      (hbits : code (pc + 1) = 0xcb) : Fetched (fetchBits code ⟨pc + 1, 1, 1⟩ i)
  | indexed (i : Index) (hfirst : code pc = 0xdd ∨ code pc = 0xfd)
      (hvoids : voids (code (pc + 1)) = false) (hbits : code (pc + 1) ≠ 0xcb) :
      Fetched (fetchBase code ⟨pc + 1, 1, 1⟩ i)
  | base (hbits : code pc ≠ 0xcb) (hvoids : voids (code pc) = false) :
      Fetched (fetchBase code ⟨pc, 0, 0⟩ .hl)

theorem fetched_fetchIndexed {i : Index} (hi : i ≠ .hl)
    (hfirst : code pc = 0xdd ∨ code pc = 0xfd) :
    Fetched code pc (fetchIndexed code ⟨pc, 0, 0⟩ i) := by
  unfold fetchIndexed
  simp only [Fetch.opcode_eq, Nat.zero_add, beq_iff_eq]
  split
  · next hvoids => exact .lone i hfirst hvoids
  · next hvoids =>
    split
    · next hbits => exact .indexedBits i hi hfirst hbits
    · next hbits => exact .indexed i hfirst (by simpa using hvoids) hbits

theorem fetched_fetch : Fetched code pc (fetch code pc) := by
  unfold fetch
  simp only [beq_iff_eq]
  split
  · next hbits => exact .bits hbits
  · next hbits =>
    split
    · next hextended => exact .extended hextended
    · next hextended =>
      split
      · next hix => exact fetched_fetchIndexed code pc (by decide) (.inl hix)
      · next hix =>
        split
        · next hiy => exact fetched_fetchIndexed code pc (by decide) (.inr hiy)
        · next hiy => exact .base hbits (by simp [voids, hextended, hix, hiy])

end Fetch

def statement (s : Z80) : Statement := lister (s.mem.read s.latches) s.pc.toNat

def instruction (s : Z80) : Instruction := Instruction.fetch s.read s.pc

theorem step_eq (s : Z80) : s.step = (s.pass s.instruction).perform s.instruction := rfl

section Boundary

variable {s : Z80}

theorem length_statement (hpc : s.pc.toNat ≤ 0xfffc)
    (hdrift : drifts (s.read s.pc) (s.read (s.pc + 1)) = false) :
    s.statement.bytes.length = s.instruction.length := by
  have hone : (s.pc + 1).toNat = s.pc.toNat + 1 := toNat_add_ofNat (k := 1) (by omega)
  have hbytes : s.statement.bytes.length =
      (Lister.read (s.mem.read s.latches) s.pc.toNat).length := by
    simp [statement, lister]
  unfold read at hdrift
  rw [hone] at hdrift
  rw [hbytes, length_read hpc hdrift]
  rfl

/-- An index prefix in front of an opcode without a prefix of its own. -/
theorem instruction_of_ix (hfirst : s.read s.pc = 0xdd)
    (hvoids : Instruction.voids (s.read (s.pc + 1)) = false) (hbits : s.read (s.pc + 1) ≠ 0xcb) :
    s.instruction = Instruction.fetchBase s.read ⟨s.pc + 1, 1, 1⟩ .ix := by
  simp [instruction, Instruction.fetch, Instruction.fetchIndexed, hfirst, hvoids, hbits]

/-- An opcode without any prefix. -/
theorem instruction_of_base (hbits : s.read s.pc ≠ 0xcb)
    (hvoids : Instruction.voids (s.read s.pc) = false) :
    s.instruction = Instruction.fetchBase s.read ⟨s.pc, 0, 0⟩ .hl := by
  obtain ⟨⟨hix, hextended⟩, hiy⟩ :
      (s.read s.pc ≠ 0xdd ∧ s.read s.pc ≠ 0xed) ∧ s.read s.pc ≠ 0xfd := by
    simpa [Instruction.voids] using hvoids
  simp [instruction, Instruction.fetch, hbits, hix, hextended, hiy]

theorem instruction_of_extended (hfirst : s.read s.pc = 0xed) :
    s.instruction = Instruction.fetchExtended s.read ⟨s.pc, 0, 0⟩ := by
  simp [instruction, Instruction.fetch, hfirst]

/-- An extended instruction without immediate bytes takes two bytes, both fetched as opcodes. -/
theorem step_of_extended (hfirst : s.read s.pc = 0xed)
    (hbytes : Opcode.extendedBytes (s.read (s.pc + 1)) = 0) :
    s.step = ({ s with pc := s.pc + 2, r := refreshed s.r 2 } : Z80).performExtended
      ⟨.extended, .hl, s.read (s.pc + 1), 0, 0, 2, 2⟩ := by
  have hinstruction : s.instruction = ⟨.extended, .hl, s.read (s.pc + 1), 0, 0, 2, 2⟩ := by
    simp [instruction_of_extended hfirst, Instruction.fetchExtended, hbytes, Fetch.immediate,
      Fetch.instruction]
  rw [step_eq, hinstruction]
  rfl

theorem page_fetchBase (code : UInt16 → UInt8) (t : Fetch) (i : Index) :
    (Instruction.fetchBase code t i).page = .base ∧
      (Instruction.fetchBase code t i).opcode = code t.next := ⟨rfl, rfl⟩

theorem length_instruction_le (s : Z80) : s.instruction.length ≤ 4 := by
  have hfetched := fetched_fetch s.read s.pc
  rw [instruction]
  generalize Instruction.fetch s.read s.pc = i at hfetched
  cases hfetched with
  | bits => exact Nat.le_add_left 2 2
  | extended =>
    have himmediate := extendedBytes_le (s.read (s.pc + 1))
    rw [length_fetchExtended]
    exact Nat.add_le_add_left himmediate 2
  | lone => exact Nat.le_add_left 1 3
  | indexedBits i hi => exact Nat.le_of_eq (congrArg Instruction.length (fetchBits_of_ne _ _ hi))
  | indexed i =>
    have hbehind := behindBase_le i (s.read (s.pc + 1))
    rw [length_fetchBase]
    exact Nat.add_le_add_left hbehind 2
  | base =>
    have hbehind := behindBase_le .hl (s.read s.pc)
    rw [length_fetchBase]
    exact Nat.le_trans (Nat.add_le_add_left hbehind 1) (Nat.le_add_left 3 1)

/-- What a step does to control follows from the instruction alone. -/
theorem controls_step (s : Z80) : s.instruction.Controls (s.pass s.instruction) s.step.control :=
  controls_perform _ _

/-- Execution continues behind an instruction that does not redirect it. -/
theorem pc_step_of_not_redirects (h : s.instruction.redirects = false) :
    s.step.pc = s.pc + UInt16.ofNat s.instruction.length :=
  pc_perform_of_not_redirects (s.pass s.instruction) s.instruction h

/-- Listing and execution agree on where an instruction ends, unless the listing drifts. When the
instruction does not redirect execution, the step leads to where the listing goes on, in sixteen
bits; behind four bytes at `$fffc`, and nowhere else, that makes a difference. -/
theorem step_agrees_with_listing (s : Z80) (hpc : s.pc.toNat ≤ 0xfffc)
    (hdrift : drifts (s.read s.pc) (s.read (s.pc + 1)) = false) :
    s.statement.bytes.length = s.instruction.length ∧ s.statement.next ≤ 0x10000 ∧
      (s.statement.next = 0x10000 ↔ s.pc.toNat = 0xfffc ∧ s.instruction.length = 4) ∧
      (s.instruction.redirects = false → s.step.pc.toNat = s.statement.next % 0x10000) := by
  have hlength := length_statement hpc hdrift
  have hle := length_instruction_le s
  have hnext : s.statement.next = s.pc.toNat + s.instruction.length := by
    rw [← hlength]
    rfl
  refine ⟨hlength, ?_, ?_, ?_⟩
  · omega
  · omega
  · intro h
    rw [pc_step_of_not_redirects h, hnext, ← ofNat_toNat_add, UInt16.toNat_ofNat']

/-- The last four bytes of the address space are where the listing goes on outside of it. -/
theorem pc_step_at_end (hpc : s.pc = 0xfffc)
    (hdrift : drifts (s.read s.pc) (s.read (s.pc + 1)) = false) (hfour : s.instruction.length = 4)
    (hredirects : s.instruction.redirects = false) :
    s.step.pc = 0 ∧ s.statement.next = 0x10000 := by
  have hle : s.pc.toNat ≤ 0xfffc := by
    rw [hpc]
    decide
  have hnext : s.statement.next = s.pc.toNat + s.statement.bytes.length := rfl
  rw [pc_step_of_not_redirects hredirects, hnext, length_statement hle hdrift, hfour, hpc]
  exact ⟨rfl, rfl⟩

theorem drifts_iff {first second : UInt8} :
    drifts first second = true ↔ (first = 0xdd ∨ first = 0xfd) ∧
      Instruction.voids second = false ∧ second ≠ 0xcb ∧ Lister.usesIndex second = false ∧
      Opcode.immediateBytes second ≠ 0 := by
  simp [drifts, and_assoc]

/-- Where the listing drifts, it leaves out the immediate bytes, which are fetched all the same. -/
theorem length_of_drifts (hpc : s.pc.toNat ≤ 0xfffc)
    (hdrift : drifts (s.read s.pc) (s.read (s.pc + 1)) = true) :
    s.statement.bytes.length = 2 ∧
      s.instruction.length = 2 + Opcode.immediateBytes (s.read (s.pc + 1)) ∧
      s.statement.bytes.length < s.instruction.length := by
  have hone : (s.pc + 1).toNat = s.pc.toNat + 1 := toNat_add_ofNat (k := 1) (by omega)
  obtain ⟨hfirst, hvoids, hbits, huses, himmediate⟩ := drifts_iff.mp hdrift
  have hpoints : Opcode.pointsToByte (s.read (s.pc + 1)) = false := by
    rw [Bool.eq_false_iff]
    intro h
    rw [Lister.usesIndex_of_pointsToByte h] at huses
    contradiction
  have hfetched : s.instruction.length = 2 + Opcode.immediateBytes (s.read (s.pc + 1)) := by
    unfold instruction Instruction.fetch Instruction.fetchIndexed
    rcases hfirst with h | h <;> simp [h, hvoids, hbits, length_fetchBase, behindBase, hpoints]
  have hlisted : s.statement.bytes.length = 2 := by
    have hsecond : s.mem.read s.latches (s.pc.toNat + 1) = s.read (s.pc + 1) := by
      rw [read, hone]
    have hopcode : s.mem.read s.latches s.pc.toNat = s.read s.pc := rfl
    have hlisted : (s.read (s.pc + 1) == 0xdd || s.read (s.pc + 1) == 0xed ||
        s.read (s.pc + 1) == 0xfd) = false := hvoids
    unfold statement lister Lister.read Lister.readIndexed
    rcases hfirst with h | h <;> simp [hsecond, hopcode, h, hlisted, hbits, huses]
  refine ⟨hlisted, hfetched, ?_⟩
  omega

end Boundary

def holding (pc : UInt16) (vs : List UInt8) : Z80 :=
  { powerOn (Memory.holding 0x10000 pc.toNat vs) (Memory.ram portSpace) {} with pc }

theorem mem_holding (pc : UInt16) (vs : List UInt8) :
    (holding pc vs).mem = Memory.holding 0x10000 pc.toNat vs := rfl

theorem instanceOf_holding (pc : UInt16) (vs : List UInt8) :
    (holding pc vs).mem.InstanceOf (Memory.ram 0x10000) := by
  rw [mem_holding]
  exact Memory.instanceOf_holding _ _ _

theorem read_holding {pc : UInt16} {vs : List UInt8} (hvs : pc.toNat + vs.length ≤ 0x10000)
    {k : Nat} (hk : k < vs.length) : (holding pc vs).read (pc + UInt16.ofNat k) = vs[k] := by
  have h := Memory.read_holding hvs (holding pc vs).latches hk
  rw [read, mem_holding, toNat_add_ofNat (by omega), h]

/-- The load of a word into an index register takes four bytes and goes on behind them. -/
theorem instruction_of_ld_ix {s : Z80} (hfirst : s.read s.pc = 0xdd)
    (hsecond : s.read (s.pc + 1) = 0x21) :
    drifts (s.read s.pc) (s.read (s.pc + 1)) = false ∧ s.instruction.length = 4 ∧
      s.instruction.redirects = false := by
  have hinstruction := instruction_of_ix hfirst (by rw [hsecond]; decide) (by rw [hsecond]; decide)
  obtain ⟨hpage, hopcode⟩ := page_fetchBase s.read ⟨s.pc + 1, 1, 1⟩ .ix
  rw [hfirst, hsecond, hinstruction]
  refine ⟨by decide, ?_, ?_⟩
  · simp only [length_fetchBase, hsecond]
    decide
  · simp only [Instruction.redirects, Instruction.jumps, Instruction.halts, Instruction.repeats,
      hpage, hopcode, hsecond]
    decide

/-- Such a load is listed and executed alike in the middle of storage. -/
theorem step_agrees_with_ld_ix :
    (holding 0x100 [0xdd, 0x21, 0x34, 0x12]).statement.bytes.length = 4 ∧
      (holding 0x100 [0xdd, 0x21, 0x34, 0x12]).step.pc.toNat =
        (holding 0x100 [0xdd, 0x21, 0x34, 0x12]).statement.next % 0x10000 := by
  obtain ⟨hdrift, hfour, hredirects⟩ :=
    instruction_of_ld_ix (s := holding 0x100 [0xdd, 0x21, 0x34, 0x12])
      (read_holding (k := 0) (by decide) (by decide))
      (read_holding (k := 1) (by decide) (by decide))
  obtain ⟨hlength, -, -, hnext⟩ := step_agrees_with_listing
    (holding 0x100 [0xdd, 0x21, 0x34, 0x12]) (by decide) hdrift
  exact ⟨hlength.trans hfour, hnext hredirects⟩

/-- The prefixed load of a byte into the accumulator drifts. -/
theorem lengths_of_prefixed_ld_a {s : Z80} (hpc : s.pc.toNat ≤ 0xfffc)
    (hfirst : s.read s.pc = 0xdd) (hsecond : s.read (s.pc + 1) = 0x3e) :
    s.statement.bytes.length = 2 ∧ s.instruction.length = 3 := by
  have hdrift : drifts (s.read s.pc) (s.read (s.pc + 1)) = true := by
    rw [hfirst, hsecond]
    decide
  obtain ⟨hlisted, hfetched, -⟩ := length_of_drifts hpc hdrift
  rw [hsecond] at hfetched
  exact ⟨hlisted, hfetched⟩

/-- A prefixed load of a byte into the accumulator is listed with two bytes and executed with three,
and a load at the end of the address space leads to address zero, but the listing goes on at
`$10000`. -/
theorem listing_disagrees :
    ((holding 0x100 [0xdd, 0x3e, 0x2a]).mem.InstanceOf (Memory.ram 0x10000) ∧
      (holding 0x100 [0xdd, 0x3e, 0x2a]).pc.toNat ≤ 0xfffc ∧
      (holding 0x100 [0xdd, 0x3e, 0x2a]).statement.bytes.length = 2 ∧
      (holding 0x100 [0xdd, 0x3e, 0x2a]).instruction.length = 3) ∧
    ((holding 0xfffc [0xdd, 0x21, 0x34, 0x12]).mem.InstanceOf (Memory.ram 0x10000) ∧
      (holding 0xfffc [0xdd, 0x21, 0x34, 0x12]).pc.toNat ≤ 0xfffc ∧
      (holding 0xfffc [0xdd, 0x21, 0x34, 0x12]).instruction.redirects = false ∧
      (holding 0xfffc [0xdd, 0x21, 0x34, 0x12]).step.pc.toNat = 0 ∧
      (holding 0xfffc [0xdd, 0x21, 0x34, 0x12]).statement.next = 0x10000) := by
  constructor
  · have hlengths := lengths_of_prefixed_ld_a (s := holding 0x100 [0xdd, 0x3e, 0x2a]) (by decide)
      (read_holding (k := 0) (by decide) (by decide))
      (read_holding (k := 1) (by decide) (by decide))
    exact ⟨instanceOf_holding _ _, by decide, hlengths⟩
  · obtain ⟨hdrift, hfour, hredirects⟩ :=
      instruction_of_ld_ix (s := holding 0xfffc [0xdd, 0x21, 0x34, 0x12])
        (read_holding (k := 0) (by decide) (by decide))
        (read_holding (k := 1) (by decide) (by decide))
    obtain ⟨hstep, hnext⟩ := pc_step_at_end rfl hdrift hfour hredirects
    refine ⟨instanceOf_holding _ _, by decide, hredirects, ?_, hnext⟩
    rw [hstep]
    rfl

end EightBit.Z80
