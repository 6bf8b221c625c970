import EightBit.Proofs.Z80.Indexes
import EightBit.Proofs.Z80.Refresh

/-!
What an index prefix does to the opcode behind it.

A prefix puts IX or IY in the place of HL, and nothing else changes. Where the opcode does not use
HL, the prefix does nothing, and where it does so only by the index, the prefixed opcode is the
plain one on a state with the two registers exchanged.
-/

namespace EightBit.Z80

section Unused

variable (s : Z80) {i : Instruction} (k : Index)

theorem place_unused {n : Nat} (h : ¬ (4 ≤ n ∧ n ≤ 6)) (half half' : Index)
    (addr addr' : UInt16) : place n half addr = place n half' addr' := by
  unfold place
  split <;> first | rfl | exact absurd (by decide) h

theorem pair_unused {p : Nat} (hp : p ≠ 2) (j : Index) : s.pair p j = s.pair p k := by
  unfold pair
  split <;> first | rfl | contradiction

theorem setPair_unused {p : Nat} (hp : p ≠ 2) (j : Index) (w : UInt16) :
    s.setPair p j w = s.setPair p k w := by
  unfold setPair
  split <;> first | rfl | contradiction

theorem performIndirect_unused (hp : Opcode.p i.opcode ≠ 2) :
    s.performIndirect { i with index := k } = s.performIndirect i := by
  unfold performIndirect
  simp only
  split <;> first | rfl | contradiction

theorem performMixed_unused (hx : Opcode.x i.opcode = 0)
    (h : Lister.usesIndex i.opcode = false) :
    s.performMixed { i with index := k } = s.performMixed i := by
  have hpair (hz : 2 ≤ Opcode.z i.opcode ∧ Opcode.z i.opcode ≤ 3) : Opcode.p i.opcode ≠ 2 := by
    simp only [Lister.usesIndex, hx] at h
    grind
  have hplace (hz : 4 ≤ Opcode.z i.opcode ∧ Opcode.z i.opcode ≤ 6) (addr addr' : UInt16) :
      place (Opcode.y i.opcode) k addr = place (Opcode.y i.opcode) i.index addr' := by
    apply place_unused
    simp only [Lister.usesIndex, hx] at h
    grind
  unfold performMixed
  simp only
  split
  · rfl
  · next hz =>
    simp only [Lister.usesIndex, hx, hz, Bool.or_eq_false_iff, beq_eq_false_iff_ne] at h
    have hlt := Opcode.q_lt i.opcode
    have hq : Opcode.q i.opcode = 0 := by omega
    rw [if_pos hq, if_pos hq]
    exact setPair_unused s _ h.1 _ _
  · next hz => exact performIndirect_unused s k (hpair (by omega))
  · next hz =>
    have hp := hpair (by omega)
    rw [pair_unused s i.index hp, setPair_unused s i.index hp]
  · next hz => rw [hplace (by omega)]
  · next hz => rw [hplace (by omega)]
  · next hz =>
    rw [hplace (by omega)]
    rfl
  · rfl

theorem performLoad_unused (hx : Opcode.x i.opcode = 1)
    (h : Lister.usesIndex i.opcode = false) :
    s.performLoad { i with index := k } = s.performLoad i := by
  unfold performLoad
  simp only
  split
  · rfl
  · next hhalt =>
    have hne : i.opcode ≠ 0x76 := by
      intro hop
      rw [hop] at hhalt
      exact hhalt ⟨rfl, rfl⟩
    simp only [Lister.usesIndex, hx, Bool.and_eq_false_iff, Bool.or_eq_false_iff,
      bne_eq_false_iff_eq, decide_eq_false_iff_not] at h
    obtain ⟨hy, hz⟩ := h.resolve_left hne
    rw [place_unused (n := Opcode.y i.opcode) (by omega),
      place_unused (n := Opcode.z i.opcode) (by omega)]

theorem performPop_unused (hpop : ¬ (Opcode.q i.opcode = 0 ∧ Opcode.p i.opcode = 2))
    (hmove : ¬ (Opcode.q i.opcode = 1 ∧ 2 ≤ Opcode.p i.opcode)) :
    s.performPop { i with index := k } = s.performPop i := by
  have hq := Opcode.q_lt i.opcode
  unfold performPop
  simp only
  split
  · next heven =>
    have hp : Opcode.p i.opcode ≠ 2 := by omega
    unfold setStackPair
    rw [setPair_unused _ _ hp]
  · next hodd => split <;> first | rfl | grind

theorem performControl_unused (h : Opcode.y i.opcode ≠ 4) :
    s.performControl { i with index := k } = s.performControl i := by
  unfold performControl
  simp only
  split <;> first | rfl | contradiction

theorem performBranch_unused (hx : Opcode.x i.opcode = 3)
    (h : Lister.usesIndex i.opcode = false) :
    s.performBranch { i with index := k } = s.performBranch i := by
  have hfields := Opcode.eq_ofNat i.opcode
  rw [hx, Opcode.y_eq] at hfields
  simp only [Lister.usesIndex, hx, Bool.or_eq_false_iff, beq_eq_false_iff_ne, and_assoc] at h
  obtain ⟨hpop, hexchange, hpush, hjump, hstack⟩ := h
  unfold performBranch
  simp only
  split
  · rfl
  · next hz =>
    rw [hz] at hfields
    apply performPop_unused
    · rintro ⟨hq, hp⟩
      rw [hq, hp] at hfields
      exact hpop hfields
    · rintro ⟨hq, hp⟩
      have hlt : Opcode.p i.opcode < 4 := Nat.mod_lt _ (by decide)
      have hp' : Opcode.p i.opcode = 2 ∨ Opcode.p i.opcode = 3 := by omega
      rcases hp' with hp' | hp' <;> rw [hq, hp'] at hfields
      · exact hjump hfields
      · exact hstack hfields
  · rfl
  · next hz =>
    apply performControl_unused
    intro hy
    rw [← Opcode.y_eq, hy, hz] at hfields
    exact hexchange hfields
  · rfl
  · next hz =>
    split
    · next hq =>
      have hp : Opcode.p i.opcode ≠ 2 := by
        intro hp
        rw [hp, hq, hz] at hfields
        exact hpush hfields
      unfold stackPair
      rw [pair_unused s i.index hp]
    · rfl
  · rfl
  · rfl

/-- What the listing takes for unaffected by an index is. -/
theorem performBase_unused (h : Lister.usesIndex i.opcode = false) :
    s.performBase { i with index := k } = s.performBase i := by
  unfold performBase
  simp only
  split
  · next hx => exact performMixed_unused s k hx h
  · next hx => exact performLoad_unused s k hx h
  · next hx =>
    simp only [Lister.usesIndex, hx, Bool.and_eq_false_iff, decide_eq_false_iff_not] at h
    rw [place_unused (by omega)]
  · next hmixed hload haccumulate =>
    have hx : Opcode.x i.opcode = 3 := by grind [Opcode.x_lt i.opcode]
    exact performBranch_unused s k hx h

end Unused

/-- Performs a base opcode that was just fetched. -/
def unprefixed (s : Z80) (op : UInt8) (k : Index) : Z80 :=
  let start := s.pc - 1
  let i := Instruction.fetchBase (Function.update s.read start op) ⟨start, 0, 0⟩ k
  { s with pc := start + UInt16.ofNat i.length }.performBase i

/-- Performs an instruction of the bit table whose prefix was just fetched. -/
def prefixBits (s : Z80) (k : Index) : Z80 :=
  let start := s.pc - 1
  let i := Instruction.fetchBits s.read ⟨start, 0, 0⟩ k
  { s with pc := start + UInt16.ofNat i.length, r := refreshed s.r (i.refreshes - 1) }.performBits i

section Fetched

variable {s : Z80}

/-- What was fetched before an instruction only adds to how much there is of it. -/
theorem fetchBase_behind (code : UInt16 → UInt8) (t : Fetch) (k : Index) :
    Instruction.fetchBase code t k =
      { Instruction.fetchBase code ⟨t.next, 0, 0⟩ k with
        length := t.length + (Instruction.fetchBase code ⟨t.next, 0, 0⟩ k).length
        refreshes := t.refreshes + 1 } := by
  have hcount := immediateBytes_le (code t.next)
  unfold Instruction.fetchBase
  simp only [Fetch.opcode_eq]
  generalize Opcode.immediateBytes (code t.next) = count at hcount
  generalize (k != .hl && Opcode.pointsToByte (code t.next)) = present
  obtain rfl | rfl | rfl : count = 0 ∨ count = 1 ∨ count = 2 := by omega
  all_goals
    cases present <;>
      simp [Fetch.displacement, Fetch.immediate, Fetch.word, Fetch.instruction, Nat.add_assoc]

theorem read_fetched (pc : UInt16) (r : UInt8) : ({ s with pc, r } : Z80).read = s.read := rfl

/-- Behind any prefixes that were skipped, a base opcode is performed as one that was just
fetched. -/
theorem perform_fetchBase {start : UInt16} {skipped : Nat}
    (hstart : start = s.pc + UInt16.ofNat skipped) (k : Index) :
    let i := Instruction.fetchBase s.read ⟨start, skipped, skipped⟩ k
    (s.pass i).perform i =
      ({ s with pc := start + 1, r := refreshed s.r (skipped + 1) } : Z80).unprefixed
        (s.read start) k := by
  intro i
  have hback : start + 1 - 1 = start := UInt16.add_sub_cancel _ _
  have hi : i = _ := fetchBase_behind s.read ⟨start, skipped, skipped⟩ k
  obtain ⟨hpage, -⟩ := page_fetchBase s.read ⟨start, 0, 0⟩ k
  simp only [unprefixed, read_fetched, hback, Function.update_eq_self]
  rw [hi]
  generalize Instruction.fetchBase s.read ⟨start, 0, 0⟩ k = j at hpage
  simp only [perform, hpage, pass, UInt16.ofNat_add, hstart, UInt16.add_assoc]
  rfl

/-- An opcode without a prefix. -/
theorem step_of_base (hbits : s.read s.pc ≠ 0xcb)
    (hvoids : Instruction.voids (s.read s.pc) = false) :
    s.step = ({ s with pc := s.pc + 1, r := refreshed s.r 1 } : Z80).unprefixed
      (s.read s.pc) .hl := by
  have hstart : s.pc = s.pc + UInt16.ofNat 0 := (UInt16.add_zero s.pc).symm
  rw [step_eq, instruction_of_base hbits hvoids]
  exact perform_fetchBase hstart .hl

/-- An opcode behind an index prefix. -/
theorem step_of_indexed {k : Index}
    (hindexed : s.read s.pc = 0xdd ∧ k = .ix ∨ s.read s.pc = 0xfd ∧ k = .iy)
    (hbits : s.read (s.pc + 1) ≠ 0xcb)
    (hvoids : Instruction.voids (s.read (s.pc + 1)) = false) :
    s.step = ({ s with pc := s.pc + 2, r := refreshed s.r 2 } : Z80).unprefixed
      (s.read (s.pc + 1)) k := by
  have hinstruction : s.instruction = Instruction.fetchBase s.read ⟨s.pc + 1, 1, 1⟩ k := by
    rcases hindexed with ⟨hfirst, rfl⟩ | ⟨hfirst, rfl⟩
    · exact instruction_of_ix hfirst hvoids hbits
    · simp [instruction, Instruction.fetch, Instruction.fetchIndexed, hfirst, hvoids, hbits]
  have hbehind : s.pc + 2 = s.pc + 1 + 1 := by
    rw [UInt16.add_assoc]
    rfl
  rw [step_eq, hinstruction, hbehind]
  exact perform_fetchBase rfl k

/-- An instruction of the bit table, without an index prefix. -/
theorem step_of_bits (hfirst : s.read s.pc = 0xcb) :
    s.step = ({ s with pc := s.pc + 1, r := refreshed s.r 1 } : Z80).prefixBits .hl := by
  have hstart : s.pc + 1 - 1 = s.pc := UInt16.add_sub_cancel _ _
  have hinstruction : s.instruction = Instruction.fetchBits s.read ⟨s.pc, 0, 0⟩ .hl := by
    simp [instruction, Instruction.fetch, hfirst]
  rw [step_eq, hinstruction]
  simp only [prefixBits, read_fetched, hstart, Instruction.fetchBits, refreshed_refreshed]
  rfl

/-- An instruction of the bit table behind an index prefix. -/
theorem step_of_indexed_bits {k : Index}
    (hindexed : s.read s.pc = 0xdd ∧ k = .ix ∨ s.read s.pc = 0xfd ∧ k = .iy)
    (hbits : s.read (s.pc + 1) = 0xcb) :
    s.step = ({ s with pc := s.pc + 2, r := refreshed s.r 2 } : Z80).prefixBits k := by
  have hstart : s.pc + 2 - 1 = s.pc + 1 := by grind
  have hinstruction : s.instruction = Instruction.fetchBits s.read ⟨s.pc + 1, 1, 1⟩ k := by
    rcases hindexed with ⟨hfirst, rfl⟩ | ⟨hfirst, rfl⟩ <;>
      simp [instruction, Instruction.fetch, Instruction.fetchIndexed, hfirst, hbits,
        Instruction.voids]
  have hk : k ≠ .hl := by
    rcases hindexed with ⟨-, rfl⟩ | ⟨-, rfl⟩ <;> decide
  have hlength : s.pc + 1 + UInt16.ofNat 3 = s.pc + UInt16.ofNat 4 := UInt16.add_assoc _ _ _
  rw [step_eq, hinstruction]
  simp only [prefixBits, read_fetched, hstart, fetchBits_of_ne _ _ hk, refreshed_refreshed,
    Nat.zero_add, hlength]
  rfl

end Fetched

section Substitution

variable {σ : Equiv.Perm Index}

theorem fetchBase_rename {code : UInt16 → UInt8} {t : Fetch}
    (h : σ .hl = .hl ∨ Opcode.pointsToByte (code t.next) = false) (k : Index) :
    Instruction.fetchBase code t (σ k) = (Instruction.fetchBase code t k).rename σ := by
  have hdisplaced : (σ k != .hl && Opcode.pointsToByte (code t.next)) =
      (k != .hl && Opcode.pointsToByte (code t.next)) := by
    rcases h with hfixed | hbyte
    · congr 1
      rw [Bool.eq_iff_iff, bne_iff_ne, bne_iff_ne]
      nth_rewrite 1 [← hfixed]
      exact σ.injective.ne_iff
    · rw [hbyte, Bool.and_false, Bool.and_false]
  unfold Instruction.fetchBase
  simp only [Fetch.opcode_eq, hdisplaced]
  rfl

theorem fetchBits_rename (h : σ .hl = .hl) (code : UInt16 → UInt8) (t : Fetch) (k : Index) :
    Instruction.fetchBits code t (σ k) = (Instruction.fetchBits code t k).rename σ := by
  by_cases hk : k = .hl
  · rw [hk, h]
    simp only [Instruction.fetchBits, Fetch.instruction, Instruction.rename, h]
  · have hne : σ k ≠ .hl := by
      rw [← h]
      exact σ.injective.ne hk
    rw [fetchBits_of_ne _ _ hk, fetchBits_of_ne _ _ hne]
    rfl

/-- The substitution of the index registers for each other, with their index. -/
theorem unprefixed_permute {op : UInt8} (h : σ .hl = .hl ∨ Opcode.namesHL op = false) (s : Z80)
    (k : Index) : (s.permute σ).unprefixed op k = (s.unprefixed op (σ k)).permute σ := by
  let start := s.pc - 1
  let code := Function.update s.read start op
  let i := Instruction.fetchBase code ⟨start, 0, 0⟩ k
  have hcode : code start = op := Function.update_self _ _ _
  have hop : i.opcode = op := (page_fetchBase code ⟨start, 0, 0⟩ k).2.trans hcode
  have hbyte : σ .hl = .hl ∨ Opcode.pointsToByte (code start) = false := by
    rw [hcode]
    refine h.imp id fun hnames => ?_
    simp only [Opcode.namesHL, Bool.or_eq_false_iff] at hnames
    exact hnames.1.1
  have hrename : Instruction.fetchBase code ⟨start, 0, 0⟩ (σ k) = i.rename σ :=
    fetchBase_rename hbyte k
  rw [← hop] at h
  have hperform : (s.permute σ).unprefixed op k =
      { s.permute σ with pc := start + UInt16.ofNat i.length }.performBase i := rfl
  have hperform' : s.unprefixed op (σ k) =
      { s with pc := start + UInt16.ofNat (i.rename σ).length }.performBase (i.rename σ) := by
    rw [← hrename]
    rfl
  rw [hperform, hperform', pc_permute, performBase_permute h]
  rfl

theorem prefixBits_permute (h : σ .hl = .hl) (s : Z80) (k : Index) :
    (s.permute σ).prefixBits k = (s.prefixBits (σ k)).permute σ := by
  let i := Instruction.fetchBits s.read ⟨s.pc - 1, 0, 0⟩ k
  have hfetched (pc : UInt16) (r : UInt8) :
      { s.permute σ with pc, r } = { s with pc, r }.permute σ :=
    Plain.permute s σ (g := fun s => { s with pc, r }) fun _ _ => rfl
  have hperform : (s.permute σ).prefixBits k =
      { s.permute σ with
        pc := s.pc - 1 + UInt16.ofNat i.length
        r := refreshed s.r (i.refreshes - 1) }.performBits i := rfl
  have hrename : Instruction.fetchBits s.read ⟨s.pc - 1, 0, 0⟩ (σ k) = i.rename σ :=
    fetchBits_rename h s.read ⟨s.pc - 1, 0, 0⟩ k
  rw [hperform, hfetched, performBits_permute h, prefixBits, hrename]
  rfl

end Substitution

def exchange (s : Z80) (j k : Index) : Z80 := (s.setIndex (s.index k) j).setIndex (s.index j) k

theorem exchange_eq (s : Z80) (j k : Index) : s.exchange j k = s.permute (Equiv.swap j k) := by
  have hset (w : UInt16) (k : Index) :
      s.setIndex w k = s.withIndexes (Function.update s.index k w) := by
    rw [← setIndex_withIndexes, withIndexes_index]
  rw [exchange, hset, setIndex_withIndexes, permute]
  congr 1
  funext m
  rw [Function.update_apply, Function.update_apply, Equiv.swap_apply_def]
  split_ifs <;> grind

theorem exchange_exchange (s : Z80) (j k : Index) : (s.exchange j k).exchange j k = s := by
  rw [exchange_eq, exchange_eq, permute_permute, Equiv.swap_swap, permute_refl]

theorem unprefixed_unused {op : UInt8} (h : Lister.usesIndex op = false) (s : Z80) (k : Index) :
    s.unprefixed op k = s.unprefixed op .hl := by
  let start := s.pc - 1
  let code := Function.update s.read start op
  let i := Instruction.fetchBase code ⟨start, 0, 0⟩ .hl
  have hcode : code start = op := Function.update_self _ _ _
  have hop : i.opcode = op := (page_fetchBase code ⟨start, 0, 0⟩ .hl).2.trans hcode
  have hbyte : Opcode.pointsToByte (code start) = false := by
    rw [hcode, Bool.eq_false_iff]
    intro hbyte
    rw [Lister.usesIndex_of_pointsToByte hbyte] at h
    contradiction
  have hi : Instruction.fetchBase code ⟨start, 0, 0⟩ k = { i with index := k } := by
    simp only [i, Instruction.fetchBase, Fetch.opcode_eq, hbyte, Bool.and_false]
    rfl
  have hperform : s.unprefixed op k =
      { s with pc := start + UInt16.ofNat ({ i with index := k } : Instruction).length }.performBase
        { i with index := k } := by
    rw [← hi]
    rfl
  rw [← hop] at h
  rw [hperform, performBase_unused _ k h]
  rfl

/-- Index prefixes only substitute the register that an instruction gets at by index. -/
theorem prefixes_substitute (s : Z80) (op : UInt8) :
    (s.exchange .ix .iy).unprefixed op .iy = (s.unprefixed op .ix).exchange .ix .iy ∧
      (s.exchange .ix .iy).prefixBits .iy = (s.prefixBits .ix).exchange .ix .iy ∧
      (Lister.usesIndex op = false →
        s.unprefixed op .ix = s.unprefixed op .hl ∧ s.unprefixed op .iy = s.unprefixed op .hl) ∧
      (Opcode.pointsToByte op = false → op ≠ 0xeb → op ≠ 0xd9 →
        s.unprefixed op .ix = ((s.exchange .hl .ix).unprefixed op .hl).exchange .hl .ix) := by
  have hfixed : Equiv.swap Index.ix Index.iy .hl = .hl := rfl
  refine ⟨?_, ?_, ?_, ?_⟩
  · rw [exchange_eq, exchange_eq]
    exact unprefixed_permute (.inl hfixed) s .iy
  · rw [exchange_eq, exchange_eq]
    exact prefixBits_permute hfixed s .iy
  · intro huses
    exact ⟨unprefixed_unused huses s .ix, unprefixed_unused huses s .iy⟩
  · intro hbyte hexchange halternates
    have hnames : Opcode.namesHL op = false := by
      simp [Opcode.namesHL, hbyte, hexchange, halternates]
    have hsubstituted := unprefixed_permute (σ := Equiv.swap Index.hl Index.ix) (.inr hnames)
      (s.exchange .hl .ix) .ix
    rw [← exchange_eq, ← exchange_eq, exchange_exchange] at hsubstituted
    exact hsubstituted

/-- A sum in an index register is the one in HL on exchanged registers, and B counts up behind a
prefix as it does without. -/
theorem prefixes_substitute_in_additions :
    let s : Z80 := { holding 0x100 [0x29] with h := 0x12, l := 0x34, ix := 0x5678 }
    s.unprefixed 0x29 .ix = ((s.exchange .hl .ix).unprefixed 0x29 .hl).exchange .hl .ix ∧
      s.unprefixed 0x04 .ix = s.unprefixed 0x04 .hl := by
  intro s
  obtain ⟨-, -, -, haddition⟩ := prefixes_substitute s 0x29
  obtain ⟨-, -, hincrement, -⟩ := prefixes_substitute s 0x04
  exact ⟨haddition (by decide) (by decide) (by decide), (hincrement (by decide)).1⟩

end EightBit.Z80
