import EightBit.Proofs.Flags
import EightBit.Proofs.RoundTrip
import Mathlib.Tactic.LinearCombination

/-!
Arithmetic on numbers of many bytes, as programs do it: byte by byte from the low end, each step
with the carry or the borrow that the step before has left in the flags.
-/

namespace EightBit

open Byte

theorem toNat_decide (p : Prop) [Decidable p] : (decide p).toNat = if p then 1 else 0 :=
  apply_ite Bool.toNat p true false

def signed (bs : List UInt8) : Int := Int.bmod (ofLittleEndian bs) (256 ^ bs.length)

def FitsSigned (n : Nat) (x : Int) : Prop := -(256 ^ n : Nat) ≤ 2 * x ∧ 2 * x < (256 ^ n : Nat)

instance (n : Nat) (x : Int) : Decidable (FitsSigned n x) := inferInstanceAs (Decidable (_ ∧ _))

theorem ofLittleEndian_lt_pow (bs : List UInt8) : ofLittleEndian bs < 256 ^ bs.length := by
  have h := ofLittleEndian_lt bs
  rwa [Nat.one_shiftLeft, Nat.pow_mul] at h

theorem signed_eq (bs : List UInt8) :
    signed bs = if 2 * ofLittleEndian bs < 256 ^ bs.length then (ofLittleEndian bs : Int)
      else ofLittleEndian bs - (256 ^ bs.length : Nat) := by
  have hlt := ofLittleEndian_lt_pow bs
  have hmod : (ofLittleEndian bs : Int) % (256 ^ bs.length : Nat) = ofLittleEndian bs :=
    Int.emod_eq_of_lt (by omega) (by exact_mod_cast hlt)
  rw [signed, Int.bmod_def, hmod]
  split <;> split <;> omega

theorem signed_cons (b : UInt8) {bs : List UInt8} (h : bs ≠ []) :
    signed (b :: bs) = b.toNat + 256 * signed bs := by
  have hb := b.toNat_lt
  have hlt := ofLittleEndian_lt_pow bs
  have hlength : 0 < bs.length := List.length_pos_iff.mpr h
  obtain ⟨k, hk⟩ : ∃ k, bs.length = k + 1 := ⟨bs.length - 1, by omega⟩
  rw [signed_eq, signed_eq, ofLittleEndian, List.length_cons]
  rw [hk] at hlt ⊢
  split <;> split <;> omega

theorem fitsSigned_cons {n : Nat} (hn : 0 < n) {v : Nat} (hv : v < 256) (x : Int) :
    FitsSigned (n + 1) (v + 256 * x) ↔ FitsSigned n x := by
  obtain ⟨k, rfl⟩ : ∃ k, n = k + 1 := ⟨n - 1, by omega⟩
  unfold FitsSigned
  omega

theorem testBit_top_cons {n : Nat} (hn : 0 < n) {v : Nat} (hv : v < 256) (w : Nat) :
    (v + 256 * w).testBit (8 * (n + 1) - 1) = w.testBit (8 * n - 1) := by
  have hshift : (v + 256 * w) >>> 8 = w := by
    rw [Nat.shiftRight_eq_div_pow]
    omega
  have hindex : 8 * (n + 1) - 1 = 8 + (8 * n - 1) := by omega
  rw [hindex, ← Nat.testBit_shiftRight, hshift]

theorem signed_singleton (a : UInt8) :
    signed [a] = if bit a 7 then (a.toNat : Int) - 256 else a.toNat := by
  have ha := a.toNat_lt
  have hvalue : ofLittleEndian [a] = a.toNat := by simp [ofLittleEndian]
  rw [signed_eq, bit_seven, hvalue, List.length_singleton]
  split <;> split <;> simp_all <;> omega

namespace FlagLayout

section Flags

variable (L : FlagLayout) (flags : UInt8)

def overflowSet : Bool := flags &&& L.overflow != 0

def signSet : Bool := flags &&& L.sign != 0

/-- Whether the flags tell of a borrow, which the 6502 shows by a clear carry. -/
def borrowSet : Bool :=
  match L.family with
  | .mos => !L.carrySet flags
  | .zilog => L.carrySet flags

end Flags

theorem addOverflows_iff (a b : UInt8) (c : Bool) :
    addOverflows a b (UInt8.ofNat (a.toNat + b.toNat + c.toNat)) = true ↔
      ¬ FitsSigned 1 (signed [a] + (signed [b] + c.toNat)) := by
  have ha := a.toNat_lt
  have hb := b.toNat_lt
  have hc := c.toNat_le
  have htop : (0x80 : UInt8).toNat = 2 ^ 7 := rfl
  rw [addOverflows, and_mask_ne_zero _ htop, bit_and, bit_not _ (by decide), bit_xor, bit_xor,
    signed_singleton, signed_singleton, bit_seven, bit_seven, bit_seven, UInt8.toNat_ofNat',
    FitsSigned]
  by_cases h1 : 128 ≤ a.toNat <;> by_cases h2 : 128 ≤ b.toNat <;> simp [h1, h2] <;> omega

theorem subtractOverflows_iff (a b : UInt8) (c : Bool) :
    subtractOverflows a b (UInt8.ofNat (a.toNat + 512 - (b.toNat + c.toNat))) = true ↔
      ¬ FitsSigned 1 (signed [a] - (signed [b] + c.toNat)) := by
  have ha := a.toNat_lt
  have hb := b.toNat_lt
  have hc := c.toNat_le
  have htop : (0x80 : UInt8).toNat = 2 ^ 7 := rfl
  rw [subtractOverflows, and_mask_ne_zero _ htop, bit_and, bit_xor, bit_xor,
    signed_singleton, signed_singleton, bit_seven, bit_seven, bit_seven, UInt8.toNat_ofNat',
    FitsSigned]
  by_cases h1 : 128 ≤ a.toNat <;> by_cases h2 : 128 ≤ b.toNat <;> simp [h1, h2] <;> omega

/-- What is asked of an operation on bytes so that it can be chained: with the sign `σ` in front of
the second operand and the carry, a carry out counts 256, and overflow and sign are flagged. -/
structure Chains (L : FlagLayout) (op : UInt8 → UInt8 → UInt8 → Bool → Outcome)
    (next : UInt8 → Bool) (σ : Int) : Prop where
  value : ∀ flags a b c, (a.toNat : Int) + σ * (b.toNat + c.toNat) =
    (op flags a b c).value.toNat + σ * (256 * (next (op flags a b c).flags).toNat)
  overflow : ∀ flags a b c, L.overflowSet (op flags a b c).flags = true ↔
    ¬ FitsSigned 1 (signed [a] + σ * (signed [b] + c.toNat))
  sign : ∀ flags a b c, L.signSet (op flags a b c).flags = bit (op flags a b c).value 7

section Layouts

variable {L : FlagLayout} (hL : L = mos ∨ L = zilog)
include hL

theorem carrySet_eq (flags : UInt8) : L.carrySet flags = bit flags 0 := by
  have hcarry : L.carry.toNat = 2 ^ 0 := by rcases hL with rfl | rfl <;> rfl
  rw [carrySet, and_mask_ne_zero _ hcarry]

theorem overflowSet_eq (flags : UInt8) :
    L.overflowSet flags = bit flags (match L.family with | .mos => 6 | .zilog => 2) := by
  rcases hL with rfl | rfl
  · exact and_mask_ne_zero _ rfl
  · exact and_mask_ne_zero _ rfl

theorem signSet_eq (flags : UInt8) : L.signSet flags = bit flags 7 := by
  have hsign : L.sign.toNat = 2 ^ 7 := by rcases hL with rfl | rfl <;> rfl
  rw [signSet, and_mask_ne_zero _ hsign]

theorem carrySet_add (flags a b : UInt8) (c : Bool) :
    L.carrySet (L.add flags a b c).flags = decide (256 ≤ a.toNat + b.toNat + c.toNat) := by
  rw [carrySet_eq hL, bit_add L _ _ _ _ (by decide)]
  rcases hL with rfl | rfl <;> rfl

theorem borrowSet_sub (flags a b : UInt8) (c : Bool) :
    L.borrowSet (L.sub flags a b c).flags = decide (a.toNat < b.toNat + c.toNat) := by
  rw [borrowSet, carrySet_eq hL, bit_sub _ _ _ _ _ (by decide)]
  rcases hL with rfl | rfl
  · exact Bool.not_not _
  · rfl

theorem chains_add : L.Chains L.add L.carrySet 1 where
  value flags a b c := by
    have hvalue : (L.add flags a b c).value.toNat = (a.toNat + b.toNat + c.toNat) % 256 :=
      UInt8.toNat_ofNat'
    have ha := a.toNat_lt
    have hb := b.toNat_lt
    have hc := c.toNat_le
    rw [carrySet_add hL, hvalue]
    by_cases h : 256 ≤ a.toNat + b.toNat + c.toNat <;> simp [h] <;> omega
  overflow flags a b c := by
    rw [overflowSet_eq hL, one_mul, ← addOverflows_iff]
    rcases hL with rfl | rfl <;> rw [bit_add _ _ _ _ _ (by decide)] <;> rfl
  sign flags a b c := by
    have htop : ((L.add flags a b c).value &&& 0x80 != 0) = bit (L.add flags a b c).value 7 :=
      and_mask_ne_zero _ rfl
    rw [signSet_eq hL, bit_add _ _ _ _ _ (by decide), ← htop]
    rcases hL with rfl | rfl <;> rfl

theorem chains_sub : L.Chains L.sub L.borrowSet (-1) where
  value flags a b c := by
    have hvalue : (L.sub flags a b c).value.toNat =
        (a.toNat + 512 - (b.toNat + c.toNat)) % 256 := UInt8.toNat_ofNat'
    have ha := a.toNat_lt
    have hb := b.toNat_lt
    have hc := c.toNat_le
    rw [borrowSet_sub hL, hvalue]
    by_cases h : a.toNat < b.toNat + c.toNat <;> simp [h] <;> omega
  overflow flags a b c := by
    rw [overflowSet_eq hL, neg_one_mul, ← sub_eq_add_neg, ← subtractOverflows_iff]
    rcases hL with rfl | rfl <;> rw [bit_sub _ _ _ _ _ (by decide)] <;> rfl
  sign flags a b c := by
    have htop : ((L.sub flags a b c).value &&& 0x80 != 0) = bit (L.sub flags a b c).value 7 :=
      and_mask_ne_zero _ rfl
    rw [signSet_eq hL, bit_sub _ _ _ _ _ (by decide), ← htop]
    rcases hL with rfl | rfl <;> rfl

end Layouts

/-- Applies an operation to the bytes of two numbers from the low end, each time with the carry that
`next` reads in the flags left by the time before. -/
def chain (op : UInt8 → UInt8 → UInt8 → Bool → Outcome) (next : UInt8 → Bool) :
    UInt8 → Bool → List UInt8 → List UInt8 → List UInt8 × UInt8
  | flags, c, a :: as, b :: bs =>
    let o := op flags a b c
    let (vs, flags) := chain op next o.flags (next o.flags) as bs
    (o.value :: vs, flags)
  | flags, _, _, _ => ([], flags)

structure Sums (L : FlagLayout) (next : UInt8 → Bool) (σ : Int) (as bs : List UInt8) (c : Bool)
    (result : List UInt8 × UInt8) : Prop where
  length : result.1.length = as.length
  value : (ofLittleEndian as : Int) + σ * (ofLittleEndian bs + c.toNat) =
    ofLittleEndian result.1 + σ * ((256 ^ as.length : Nat) * (next result.2).toNat)
  overflow : L.overflowSet result.2 = true ↔
    ¬ FitsSigned as.length (signed as + σ * (signed bs + c.toNat))
  sign : L.signSet result.2 = (ofLittleEndian result.1).testBit (8 * as.length - 1)

variable {L : FlagLayout} {op : UInt8 → UInt8 → UInt8 → Bool → Outcome} {next : UInt8 → Bool}
  {σ : Int}

theorem Chains.sums_singleton (h : L.Chains op next σ) (flags : UInt8) (c : Bool) (a b : UInt8) :
    L.Sums next σ [a] [b] c (chain op next flags c [a] [b]) where
  length := rfl
  value := by simpa [ofLittleEndian, chain] using h.value flags a b c
  overflow := h.overflow flags a b c
  sign := by
    have hsign := h.sign flags a b c
    rw [bit, ← BitVec.testBit_toNat] at hsign
    simpa [ofLittleEndian, chain] using hsign

/-- One byte more at the low end hands its carry on to the others. -/
theorem Chains.sums_cons (h : L.Chains op next σ) (flags : UInt8) (c : Bool) (a b : UInt8)
    {as bs : List UInt8} (has : as ≠ []) (hbs : bs ≠ [])
    (hrest : let o := op flags a b c
      L.Sums next σ as bs (next o.flags) (chain op next o.flags (next o.flags) as bs)) :
    L.Sums next σ (a :: as) (b :: bs) c (chain op next flags c (a :: as) (b :: bs)) := by
  have hdigit := h.value flags a b c
  have hvalue := hrest.value
  have hlength : 0 < as.length := List.length_pos_iff.mpr has
  have hlow := (op flags a b c).value.toNat_lt
  refine ⟨congrArg (· + 1) hrest.length, ?_, ?_, ?_⟩
  · simp only [chain, ofLittleEndian, List.length_cons, Nat.pow_succ]
    push_cast at hvalue ⊢
    linear_combination hdigit + 256 * hvalue
  · have hsum : signed (a :: as) + σ * (signed (b :: bs) + c.toNat) =
        (op flags a b c).value.toNat +
          256 * (signed as + σ * (signed bs + (next (op flags a b c).flags).toNat)) := by
      rw [signed_cons a has, signed_cons b hbs]
      linear_combination hdigit
    rw [hsum, List.length_cons, fitsSigned_cons hlength hlow]
    exact hrest.overflow
  · simp only [chain, ofLittleEndian, List.length_cons]
    rw [testBit_top_cons hlength hlow]
    exact hrest.sign

theorem Chains.sums (h : L.Chains op next σ) (flags : UInt8) (c : Bool) {as bs : List UInt8}
    (has : as ≠ []) (hlength : bs.length = as.length) :
    L.Sums next σ as bs c (chain op next flags c as bs) := by
  induction as generalizing flags c bs with
  | nil => exact absurd rfl has
  | cons a as ih =>
    obtain ⟨b, bs, rfl⟩ := List.exists_cons_of_length_eq_add_one hlength
    have hlength : bs.length = as.length := Nat.succ.inj hlength
    cases as with
    | nil =>
      rw [List.eq_nil_of_length_eq_zero hlength]
      exact h.sums_singleton flags c a b
    | cons a' as =>
      have hbs : bs ≠ [] := List.ne_nil_of_length_eq_add_one hlength
      exact h.sums_cons flags c a b (List.cons_ne_nil _ _) hbs
        (ih _ _ (List.cons_ne_nil _ _) hlength)

theorem Sums.eq_littleEndian {as bs : List UInt8} {c : Bool} {result : List UInt8 × UInt8}
    (h : L.Sums next σ as bs c result) :
    result.1 = littleEndian as.length (ofLittleEndian result.1) ∧
      ofLittleEndian result.1 < 256 ^ as.length := by
  have hbytes := littleEndian_ofLittleEndian result.1
  have hlt := ofLittleEndian_lt_pow result.1
  rw [h.length] at hbytes hlt
  exact ⟨hbytes.symm, hlt⟩

/-- Below `m` a number is told by its sum with a multiple of `m`, and so is the multiple. -/
theorem sum_of_value {x y r m : Nat} {c k : Bool} (hr : r < m)
    (h : (x : Int) + 1 * (y + c.toNat) = r + 1 * (m * k.toNat)) :
    r = (x + y + c.toNat) % m ∧ (k = true ↔ m ≤ x + y + c.toNat) := by
  have hvalue : x + y + c.toNat = r + m * k.toNat := by
    rw [one_mul, one_mul, ← add_assoc] at h
    exact_mod_cast h
  constructor
  · rw [hvalue, Nat.add_mul_mod_self_left, Nat.mod_eq_of_lt hr]
  · rw [hvalue]
    cases k <;> simp [hr]

theorem difference_of_value {x y r m : Nat} {c k : Bool} (hr : r < m)
    (h : (x : Int) + -1 * (y + c.toNat) = r + -1 * (m * k.toNat)) :
    r = (((x : Int) - y - c.toNat) % m).toNat ∧ (k = true ↔ x < y + c.toNat) := by
  have hvalue : (x : Int) - y - c.toNat = r + m * -(k.toNat : Int) := by
    linear_combination h
  constructor
  · rw [hvalue, Int.add_mul_emod_self_left, Int.emod_eq_of_lt (by omega) (by exact_mod_cast hr),
      Int.toNat_natCast]
  · cases k <;>
      simp only [Bool.toNat_false, Bool.toNat_true, Bool.false_eq_true, false_iff, true_iff]
        at hvalue ⊢ <;>
      omega

theorem Sums.sum {as bs : List UInt8} {c : Bool} {result : List UInt8 × UInt8}
    (h : L.Sums next 1 as bs c result) :
    result.1 = littleEndian as.length
        ((ofLittleEndian as + ofLittleEndian bs + c.toNat) % 256 ^ as.length) ∧
      (next result.2 = true ↔
        256 ^ as.length ≤ ofLittleEndian as + ofLittleEndian bs + c.toNat) := by
  obtain ⟨hbytes, hlt⟩ := h.eq_littleEndian
  obtain ⟨hvalue, hcarry⟩ := sum_of_value hlt h.value
  rw [hvalue] at hbytes
  exact ⟨hbytes, hcarry⟩

theorem Sums.difference {as bs : List UInt8} {c : Bool} {result : List UInt8 × UInt8}
    (h : L.Sums next (-1) as bs c result) :
    result.1 = littleEndian as.length (((ofLittleEndian as : Int) - ofLittleEndian bs - c.toNat) %
        (256 ^ as.length : Nat)).toNat ∧
      (next result.2 = true ↔ ofLittleEndian as < ofLittleEndian bs + c.toNat) := by
  obtain ⟨hbytes, hlt⟩ := h.eq_littleEndian
  obtain ⟨hvalue, hborrow⟩ := difference_of_value hlt h.value
  rw [hvalue] at hbytes
  exact ⟨hbytes, hborrow⟩

/-- Chained sums and differences are those of the whole numbers, as far as `n` bytes hold them. The
last carry tells that a sum needs more bytes, the last borrow that a difference is negative, and the
last overflow that the result of the two's complement values needs more bytes. -/
theorem multibyte_arithmetic {L : FlagLayout} (hL : L = mos ∨ L = zilog) (flags : UInt8) (c : Bool)
    {n : Nat} {as bs : List UInt8} (hn : 1 ≤ n) (has : as.length = n) (hbs : bs.length = n) :
    let A := ofLittleEndian as
    let B := ofLittleEndian bs
    let sum := chain L.add L.carrySet flags c as bs
    let difference := chain L.sub L.borrowSet flags c as bs
    (sum.1 = littleEndian n ((A + B + c.toNat) % 256 ^ n) ∧
      (L.carrySet sum.2 = true ↔ 256 ^ n ≤ A + B + c.toNat) ∧
      (L.overflowSet sum.2 = true ↔ ¬ FitsSigned n (signed as + signed bs + c.toNat)) ∧
      L.signSet sum.2 = (ofLittleEndian sum.1).testBit (8 * n - 1)) ∧
    (difference.1 = littleEndian n (((A : Int) - B - c.toNat) % (256 ^ n : Nat)).toNat ∧
      (L.borrowSet difference.2 = true ↔ A < B + c.toNat) ∧
      (L.overflowSet difference.2 = true ↔ ¬ FitsSigned n (signed as - signed bs - c.toNat)) ∧
      L.signSet difference.2 = (ofLittleEndian difference.1).testBit (8 * n - 1)) := by
  intro A B sum difference
  subst has
  have hne : as ≠ [] := List.length_pos_iff.mp hn
  have hsum := (chains_add hL).sums flags c hne hbs
  have hdifference := (chains_sub hL).sums flags c hne hbs
  obtain ⟨hbytes, hcarry⟩ := hsum.sum
  obtain ⟨hbytes', hborrow⟩ := hdifference.difference
  refine ⟨⟨hbytes, hcarry, ?_, hsum.sign⟩, hbytes', hborrow, ?_, hdifference.sign⟩
  · rw [hsum.overflow, one_mul, add_assoc]
  · rw [hdifference.overflow, neg_one_mul, ← sub_eq_add_neg, sub_add_eq_sub_sub]

/-- One more than the greatest signed word, and one less than the least by a borrow alone. -/
theorem multibyte_arithmetic_words :
    let sum := chain zilog.add zilog.carrySet 0xff false [0xff, 0x7f] [0x01, 0x00]
    let difference := chain mos.sub mos.borrowSet 0 true [0x00, 0x80] [0x00, 0x00]
    (sum.1 = [0x00, 0x80] ∧ zilog.overflowSet sum.2 = true) ∧
      difference.1 = [0xff, 0x7f] ∧ mos.borrowSet difference.2 ≠ true ∧
        mos.overflowSet difference.2 = true := by
  obtain ⟨⟨hbytes, -, hoverflow, -⟩, -⟩ :=
    multibyte_arithmetic (.inr rfl) 0xff false (show 1 ≤ 2 by decide)
      (show [0xff, 0x7f].length = 2 from rfl) (show [0x01, 0x00].length = 2 from rfl)
  obtain ⟨-, hbytes', hborrow, hoverflow', -⟩ :=
    multibyte_arithmetic (.inl rfl) 0 true (show 1 ≤ 2 by decide)
      (show [0x00, 0x80].length = 2 from rfl) (show [0x00, 0x00].length = 2 from rfl)
  exact ⟨⟨hbytes.trans (by decide), hoverflow.mpr (by decide)⟩, hbytes'.trans (by decide),
    mt hborrow.mp (by decide), hoverflow'.mpr (by decide)⟩

end FlagLayout

end EightBit
