import Mathlib.Logic.Equiv.Basic
import EightBit.Proofs.Word
import EightBit.Proofs.Z80.Control

/-!
Z80 instructions and the registers HL, IX and IY.

An instruction gets at these registers by an index, so that it does the same to a state with
permuted registers as its index permuted with them. The exceptions are the instructions that name HL
itself, or that have a displacement beside the other two only.
-/

namespace EightBit.Z80

def withIndexes (s : Z80) (f : Index → UInt16) : Z80 :=
  { s with h := Word.high (f .hl), l := Word.low (f .hl), ix := f .ix, iy := f .iy }

section WithIndexes

variable (s : Z80) (f : Index → UInt16)

theorem index_withIndexes (k : Index) : (s.withIndexes f).index k = f k := by
  cases k with
  | hl => exact Word.word_high_low _
  | ix | iy => rfl

theorem withIndexes_index : s.withIndexes s.index = s := by
  simp only [withIndexes, index, hl, Word.high_word, Word.low_word]

theorem index_setIndex (w : UInt16) (k : Index) :
    (s.setIndex w k).index = Function.update s.index k w := by
  funext j
  rw [Function.update_apply]
  split
  · next hj =>
    subst hj
    cases j with
    | hl => exact Word.word_high_low w
    | ix | iy => rfl
  · next hj => cases k <;> cases j <;> first | contradiction | rfl

theorem setIndex_withIndexes (w : UInt16) (k : Index) :
    (s.withIndexes f).setIndex w k = s.withIndexes (Function.update f k w) := by
  cases k <;> rfl

theorem withIndexes_setIndex (w : UInt16) (k : Index) :
    (s.setIndex w k).withIndexes f = s.withIndexes f := by
  cases k <;> rfl

end WithIndexes

/-- An operation that neither uses HL, IX and IY nor changes them. -/
def Plain (g : Z80 → Z80) : Prop := ∀ s f, g (s.withIndexes f) = (g s).withIndexes f

theorem Plain.index {g : Z80 → Z80} (h : Plain g) (s : Z80) : (g s).index = s.index := by
  have hsame := h s s.index
  rw [withIndexes_index] at hsame
  funext k
  rw [hsame, index_withIndexes]

/-- The state in which each of HL, IX and IY holds what another one did. -/
def permute (s : Z80) (σ : Equiv.Perm Index) : Z80 := s.withIndexes fun k => s.index (σ k)

section Permute

variable (s : Z80) (σ : Equiv.Perm Index)

theorem index_permute (k : Index) : (s.permute σ).index k = s.index (σ k) :=
  index_withIndexes s _ k

theorem Plain.permute {g : Z80 → Z80} (h : Plain g) : g (s.permute σ) = (g s).permute σ := by
  rw [Z80.permute, h, Z80.permute, h.index]

theorem permute_permute (τ : Equiv.Perm Index) :
    (s.permute σ).permute τ = s.permute (τ.trans σ) := by
  unfold permute
  simp only [index_withIndexes]
  rfl

theorem permute_refl : s.permute (Equiv.refl Index) = s := withIndexes_index s

theorem setIndex_permute (w : UInt16) (k : Index) :
    (s.permute σ).setIndex w k = (s.setIndex w (σ k)).permute σ := by
  have hcomp : Function.update (fun j => s.index (σ j)) k w =
      fun j => Function.update s.index (σ k) w (σ j) :=
    (Function.update_comp_eq_of_injective s.index σ.injective k w).symm
  rw [permute, setIndex_withIndexes, hcomp, permute, withIndexes_setIndex, index_setIndex]

theorem hl_permute (h : σ .hl = .hl) : (s.permute σ).hl = s.hl := by
  have hindex := index_permute s σ .hl
  rw [h] at hindex
  exact hindex

theorem setHL_permute (h : σ .hl = .hl) (w : UInt16) :
    (s.permute σ).setHL w = (s.setHL w).permute σ := by
  have hset := setIndex_permute s σ w .hl
  rw [h] at hset
  exact hset

def Place.rename (σ : Equiv.Perm Index) : Place → Place
  | .high k => .high (σ k)
  | .low k => .low (σ k)
  | p => p

theorem get_permute (p : Place) : (s.permute σ).get p = s.get (p.rename σ) := by
  cases p with
  | high k => exact congrArg Word.high (index_permute s σ k)
  | low k => exact congrArg Word.low (index_permute s σ k)
  | _ => rfl

theorem set_permute (v : UInt8) (p : Place) :
    (s.permute σ).set v p = (s.set v (p.rename σ)).permute σ := by
  cases p with
  | high k | low k => simp only [set, Place.rename, index_permute, setIndex_permute]
  | memory addr => exact Plain.permute s σ (g := fun s => s.write addr v) fun _ _ => rfl
  | a => exact Plain.permute s σ (g := fun s => { s with a := v }) fun _ _ => rfl
  | b => exact Plain.permute s σ (g := fun s => { s with b := v }) fun _ _ => rfl
  | c => exact Plain.permute s σ (g := fun s => { s with c := v }) fun _ _ => rfl
  | d => exact Plain.permute s σ (g := fun s => { s with d := v }) fun _ _ => rfl
  | e => exact Plain.permute s σ (g := fun s => { s with e := v }) fun _ _ => rfl

theorem pair_permute (p : Nat) (k : Index) : (s.permute σ).pair p k = s.pair p (σ k) := by
  unfold pair
  split
  · rfl
  · rfl
  · exact index_permute s σ k
  · rfl

theorem setPair_permute (p : Nat) (k : Index) (w : UInt16) :
    (s.permute σ).setPair p k w = (s.setPair p (σ k) w).permute σ := by
  unfold setPair
  split
  · exact Plain.permute s σ (g := fun s => s.setBC w) fun _ _ => rfl
  · exact Plain.permute s σ (g := fun s => s.setDE w) fun _ _ => rfl
  · exact setIndex_permute s σ w k
  · exact Plain.permute s σ (g := fun s => { s with sp := w }) fun _ _ => rfl

theorem stackPair_permute (p : Nat) (k : Index) :
    (s.permute σ).stackPair p k = s.stackPair p (σ k) := by
  unfold stackPair
  split
  · rfl
  · exact pair_permute s σ p k

theorem setStackPair_permute (p : Nat) (k : Index) (w : UInt16) :
    (s.permute σ).setStackPair p k w = (s.setStackPair p (σ k) w).permute σ := by
  unfold setStackPair
  split
  · exact Plain.permute s σ (g := fun s => s.setAF w) fun _ _ => rfl
  · exact setPair_permute s σ p k w

theorem flags_permute (f : UInt8) : { s.permute σ with f } = { s with f }.permute σ :=
  Plain.permute s σ (g := fun s => { s with f }) fun _ _ => rfl

theorem pc_permute (pc : UInt16) : { s.permute σ with pc } = { s with pc }.permute σ :=
  Plain.permute s σ (g := fun s => { s with pc }) fun _ _ => rfl

theorem a_permute (a : UInt8) : { s.permute σ with a } = { s with a }.permute σ :=
  Plain.permute s σ (g := fun s => { s with a }) fun _ _ => rfl

theorem modify_permute (p : Place) (f : UInt8 → UInt8 → Outcome) :
    (s.permute σ).modify p f = (s.modify (p.rename σ) f).permute σ := by
  simp only [modify, get_permute, flags_permute, set_permute]
  rfl

/-- The instruction that does the same when the index registers are permuted back. -/
def Instruction.rename (σ : Equiv.Perm Index) (i : Instruction) : Instruction :=
  { i with index := σ i.index }

theorem opcode_rename (i : Instruction) : (i.rename σ).opcode = i.opcode := by
  rw [Instruction.rename]

theorem addPair_permute (i : Instruction) :
    (s.permute σ).addPair i = (s.addPair (i.rename σ)).permute σ := by
  simp only [addPair, index_permute, pair_permute, flags_permute, setIndex_permute]
  rfl

theorem plain_accumulate (y : Nat) (v : UInt8) : Plain fun s => s.accumulate y v := by
  intro s f
  simp only [accumulate]
  split <;> rfl

theorem plain_ret : Plain ret := fun _ _ => rfl

theorem plain_call (addr : UInt16) : Plain fun s => s.call addr := fun _ _ => rfl

theorem holds_withIndexes (f : Index → UInt16) (y : Nat) :
    (s.withIndexes f).holds y = s.holds y := by
  unfold holds
  split <;> rfl

theorem plain_jumpRelative (taken : Bool) (distance : UInt8) :
    Plain fun s => s.jumpRelative taken distance := by
  intro s f
  cases taken <;> rfl

theorem plain_performRelative (i : Instruction) : Plain fun s => s.performRelative i := by
  intro s f
  simp only [performRelative, holds_withIndexes]
  split
  · rfl
  · rfl
  · exact plain_jumpRelative _ _ { s with b := s.b - 1 } f
  · exact plain_jumpRelative _ _ s f
  · exact plain_jumpRelative _ _ s f

theorem performIndirect_permute (i : Instruction) :
    (s.permute σ).performIndirect i = (s.performIndirect (i.rename σ)).permute σ := by
  simp only [performIndirect, index_permute, opcode_rename]
  split
  · exact Plain.permute s σ (g := fun s => s.write s.bc s.a) fun _ _ => rfl
  · exact Plain.permute s σ (g := fun s => s.write s.de s.a) fun _ _ => rfl
  · exact Plain.permute s σ (g := fun s => s.writeWord i.operand _) fun _ _ => rfl
  · exact Plain.permute s σ (g := fun s => s.write i.operand s.a) fun _ _ => rfl
  · exact a_permute s σ _
  · exact a_permute s σ _
  · exact setIndex_permute s σ _ _
  · exact a_permute s σ _

end Permute

def Opcode.namesHL (op : UInt8) : Bool := pointsToByte op || op == 0xeb || op == 0xd9

section Base

variable {s : Z80} {σ : Equiv.Perm Index} {i : Instruction}

theorem operandAddress_permute (h : σ .hl = .hl) :
    (s.permute σ).operandAddress i = s.operandAddress (i.rename σ) := by
  have hindexed {t : Z80} {j : Instruction} (hj : j.index ≠ .hl) :
      t.operandAddress j = t.index j.index + Word.distance j.displacement := by
    unfold operandAddress
    split
    · contradiction
    · rfl
  by_cases hhl : i.index = .hl
  · have hrename : (i.rename σ).index = .hl := by rw [Instruction.rename, hhl, h]
    simp only [operandAddress, hhl, hrename]
    exact hl_permute s σ h
  · have hrename : (i.rename σ).index ≠ .hl := by
      rw [Instruction.rename, ← h]
      exact σ.injective.ne hhl
    rw [hindexed hhl, hindexed hrename, index_permute]
    rfl

/-- A place that is not in memory does not depend on the address. -/
theorem place_permute {n : Nat} (h : σ .hl = .hl ∨ n ≠ 6) (half : Index) :
    (place n half ((s.permute σ).operandAddress i)).rename σ =
      place n (σ half) (s.operandAddress (i.rename σ)) := by
  by_cases hn : n = 6
  · have hfixed := h.resolve_right fun hne => hne hn
    rw [operandAddress_permute hfixed, hn]
    rfl
  · unfold place
    split <;> first | contradiction | rfl

theorem performMixed_permute (hx : Opcode.x i.opcode = 0)
    (h : σ .hl = .hl ∨ Opcode.pointsToByte i.opcode = false) :
    (s.permute σ).performMixed i = (s.performMixed (i.rename σ)).permute σ := by
  have hplace (hz : 4 ≤ Opcode.z i.opcode ∧ Opcode.z i.opcode ≤ 6) :=
    place_permute (s := s) (i := i) (n := Opcode.y i.opcode) (h.imp id fun hbyte hy => by
      simp [Opcode.pointsToByte, hx, hy, hz] at hbyte) i.index
  unfold performMixed
  simp only [opcode_rename]
  split
  · exact Plain.permute s σ (plain_performRelative i)
  · split
    · exact setPair_permute s σ _ _ _
    · exact addPair_permute s σ i
  · exact performIndirect_permute s σ i
  · rw [pair_permute, setPair_permute]
    rfl
  · next hz =>
    rw [modify_permute, hplace (by omega)]
    rfl
  · next hz =>
    rw [modify_permute, hplace (by omega)]
    rfl
  · next hz =>
    rw [set_permute, hplace (by omega)]
    rfl
  · split
    · exact Plain.permute s σ (g := fun s => s.setA (decimalAdjust s.f s.a)) fun _ _ => rfl
    · exact Plain.permute s σ (g := fun s => s.setA (accumulatorOutcome _ s.f s.a)) fun _ _ => rfl

theorem performLoad_permute (hx : Opcode.x i.opcode = 1)
    (h : σ .hl = .hl ∨ Opcode.pointsToByte i.opcode = false) :
    (s.permute σ).performLoad i = (s.performLoad (i.rename σ)).permute σ := by
  unfold performLoad
  simp only [opcode_rename]
  split
  · exact Plain.permute s σ (g := fun s => { s with halted := true, pc := s.pc - 1 })
      fun _ _ => rfl
  · next hhalt =>
    have hbyte : σ .hl = .hl ∨ (Opcode.y i.opcode ≠ 6 ∧ Opcode.z i.opcode ≠ 6) := by
      refine h.imp id fun hbyte => ?_
      simp only [Opcode.pointsToByte, hx] at hbyte
      grind
    have hhalf : σ (if Opcode.y i.opcode = 6 ∨ Opcode.z i.opcode = 6 then .hl else i.index) =
        if Opcode.y i.opcode = 6 ∨ Opcode.z i.opcode = 6 then .hl else (i.rename σ).index := by
      rcases hbyte with hfixed | hregisters
      · split
        · exact hfixed
        · rfl
      · rw [if_neg (not_or.mpr hregisters), if_neg (not_or.mpr hregisters)]
        rfl
    rw [get_permute, set_permute, place_permute (hbyte.imp id And.left),
      place_permute (hbyte.imp id And.right), hhalf]

theorem performControl_permute (h : σ .hl = .hl ∨ Opcode.y i.opcode ≠ 5) :
    (s.permute σ).performControl i = (s.performControl (i.rename σ)).permute σ := by
  unfold performControl
  simp only [opcode_rename]
  split
  · exact pc_permute s σ _
  · exact Plain.permute s σ (g := fun s => s.output i.byte s.a) fun _ _ => rfl
  · exact a_permute s σ _
  · have hwrite : (s.permute σ).writeWord (s.permute σ).sp (s.index (σ i.index)) =
        (s.writeWord s.sp (s.index (σ i.index))).permute σ :=
      Plain.permute s σ (g := fun s => s.writeWord s.sp _) fun _ _ => rfl
    rw [index_permute, hwrite, setIndex_permute]
    rfl
  · next hy =>
    have hfixed := h.resolve_right fun hne => hne hy
    have hexchange : (s.permute σ).setDE s.hl = (s.setDE s.hl).permute σ :=
      Plain.permute s σ (g := fun s => s.setDE _) fun _ _ => rfl
    rw [hl_permute s σ hfixed, hexchange]
    exact setHL_permute _ σ hfixed s.de
  · exact Plain.permute s σ (g := fun s => { s with iff1 := false, iff2 := false }) fun _ _ => rfl
  · exact Plain.permute s σ (g := fun s => { s with iff1 := true, iff2 := true }) fun _ _ => rfl
  · rfl

theorem exchangeAlternates_permute (h : σ .hl = .hl) :
    (s.permute σ).exchangeAlternates = s.exchangeAlternates.permute σ := by
  have hpairs : ((s.permute σ).setBC s.bcAlt).setDE s.deAlt =
      ((s.setBC s.bcAlt).setDE s.deAlt).permute σ :=
    Plain.permute s σ (g := fun s => (s.setBC _).setDE _) fun _ _ => rfl
  have hhl := setHL_permute ((s.setBC s.bcAlt).setDE s.deAlt) σ h s.hlAlt
  have halternates : (s.permute σ).exchangeAlternates =
      { (((s.permute σ).setBC s.bcAlt).setDE s.deAlt).setHL s.hlAlt with
        bcAlt := s.bc, deAlt := s.de, hlAlt := (s.permute σ).hl } := rfl
  rw [halternates, hl_permute s σ h, hpairs, hhl]
  exact Plain.permute _ σ (g := fun s => { s with bcAlt := _, deAlt := _, hlAlt := _ })
    fun _ _ => rfl

theorem performPop_permute
    (h : σ .hl = .hl ∨ ¬ (Opcode.q i.opcode = 1 ∧ Opcode.p i.opcode = 1)) :
    (s.permute σ).performPop i = (s.performPop (i.rename σ)).permute σ := by
  have hq := Opcode.q_lt i.opcode
  unfold performPop
  simp only [opcode_rename]
  split
  · have hpop : (s.permute σ).pop = (s.pop.1, s.pop.2.permute σ) :=
      Prod.ext rfl (Plain.permute s σ (g := fun s => s.pop.2) fun _ _ => rfl)
    rw [hpop]
    exact setStackPair_permute _ σ _ _ _
  · next hodd =>
    split
    · exact Plain.permute s σ plain_ret
    · next hp => exact exchangeAlternates_permute (h.resolve_right fun hne => hne (by omega))
    · rw [index_permute]
      exact pc_permute s σ _
    · rw [index_permute]
      exact Plain.permute s σ (g := fun s => { s with sp := _ }) fun _ _ => rfl

theorem performBranch_permute (hx : Opcode.x i.opcode = 3)
    (h : σ .hl = .hl ∨ (i.opcode ≠ 0xeb ∧ i.opcode ≠ 0xd9)) :
    (s.permute σ).performBranch i = (s.performBranch (i.rename σ)).permute σ := by
  have hfields := Opcode.eq_ofNat i.opcode
  have hholds (y : Nat) : (s.permute σ).holds y = s.holds y := holds_withIndexes s _ y
  unfold performBranch
  simp only [opcode_rename, hholds]
  split
  · split
    · exact Plain.permute s σ plain_ret
    · rfl
  · next hz =>
    refine performPop_permute (h.imp id fun hne hexx => ?_)
    rw [hx, Opcode.y_eq, hexx.1, hexx.2, hz] at hfields
    exact hne.2 hfields
  · split
    · exact pc_permute s σ _
    · rfl
  · next hz =>
    refine performControl_permute (h.imp id fun hne hy => ?_)
    rw [hx, hy, hz] at hfields
    exact hne.1 hfields
  · split
    · exact Plain.permute s σ (plain_call _)
    · rfl
  · split
    · rw [stackPair_permute]
      exact Plain.permute s σ (g := fun s => s.push _) fun _ _ => rfl
    · exact Plain.permute s σ (plain_call _)
  · exact Plain.permute s σ (plain_accumulate _ _)
  · exact Plain.permute s σ (plain_call _)

/-- A base instruction does the same with permuted index registers when its index is permuted with
them, unless it names HL and HL is not in its place. -/
theorem performBase_permute (h : σ .hl = .hl ∨ Opcode.namesHL i.opcode = false) :
    (s.permute σ).performBase i = (s.performBase (i.rename σ)).permute σ := by
  have hlt := Opcode.x_lt i.opcode
  simp only [Opcode.namesHL, Bool.or_eq_false_iff, beq_eq_false_iff_ne, and_assoc] at h
  have hbyte : σ .hl = .hl ∨ Opcode.pointsToByte i.opcode = false := h.imp id And.left
  unfold performBase
  simp only [opcode_rename]
  split
  · next hx => exact performMixed_permute hx hbyte
  · next hx => exact performLoad_permute hx hbyte
  · next hx =>
    have hsource : σ .hl = .hl ∨ Opcode.z i.opcode ≠ 6 := by
      simpa [Opcode.pointsToByte, hx] using hbyte
    rw [get_permute, place_permute hsource]
    exact Plain.permute s σ (plain_accumulate _ _)
  · next hmixed hload haccumulate =>
    have hx : Opcode.x i.opcode = 3 := by grind
    exact performBranch_permute hx (h.imp id And.right)

theorem rename_place (h : σ .hl = .hl) (n : Nat) (addr : UInt16) :
    (place n .hl addr).rename σ = place n .hl addr := by
  unfold place
  split <;> simp only [Place.rename, h]

/-- An instruction of the bit table names HL beside an index register, but nothing else. -/
theorem performBits_permute (h : σ .hl = .hl) :
    (s.permute σ).performBits i = (s.performBits (i.rename σ)).permute σ := by
  have hindex : (i.rename σ).index = .hl ↔ i.index = .hl := by
    rw [Instruction.rename, ← h, σ.injective.eq_iff, h]
  have hsource (addr : UInt16) :
      (if i.index = .hl then place (Opcode.z i.opcode) .hl addr else .memory addr).rename σ =
        if i.index = .hl then place (Opcode.z i.opcode) .hl addr else .memory addr := by
    split
    · exact rename_place h _ _
    · rfl
  have hflags : (s.permute σ).f = s.f := rfl
  unfold performBits
  simp only [opcode_rename, hindex, hflags, operandAddress_permute h, get_permute, hsource]
  split
  · simp only [flags_permute, set_permute, hsource, rename_place h]
    split <;> rfl
  · exact flags_permute s σ _
  · simp only [set_permute, hsource, rename_place h]
    split <;> rfl
  · simp only [set_permute, hsource, rename_place h]
    split <;> rfl

end Base

end EightBit.Z80
