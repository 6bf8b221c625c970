import EightBit.Proofs.Multibyte
import Mathlib.Data.Nat.Digits.Defs

/-!
Packed decimal arithmetic on numbers of many bytes.

An operation that adds or subtracts bytes of two decimal digits each, and hands on the decimal carry
or borrow, does so for numbers of any length. The 6502 has such operations.
-/

namespace EightBit

namespace Byte

def IsPacked (v : UInt8) : Prop := v.toNat / 16 ≤ 9 ∧ v.toNat % 16 ≤ 9

instance (v : UInt8) : Decidable (IsPacked v) := inferInstanceAs (Decidable (_ ∧ _))

theorem toNat_ofPackedDecimal (v : UInt8) :
    (ofPackedDecimal v).toNat = v.toNat / 16 * 10 + v.toNat % 16 := by
  have hv := v.toNat_lt
  rw [ofPackedDecimal, UInt8.toNat_ofNat']
  omega

theorem IsPacked.digits {v : UInt8} (h : IsPacked v) :
    ∃ x y, x ≤ 9 ∧ y ≤ 9 ∧ v.toNat / 16 = x ∧ v.toNat % 16 = y ∧ v.toNat = 16 * x + y :=
  ⟨_, _, h.1, h.2, rfl, rfl, (Nat.div_add_mod v.toNat 16).symm⟩

theorem ofPackedDecimal_lt {v : UInt8} (h : IsPacked v) : (ofPackedDecimal v).toNat < 100 := by
  obtain ⟨hhigh, hlow⟩ := h
  rw [toNat_ofPackedDecimal]
  omega

theorem toPackedDecimal_ofPackedDecimal {v : UInt8} (h : IsPacked v) :
    toPackedDecimal (ofPackedDecimal v) = v := by
  obtain ⟨hhigh, hlow⟩ := h
  apply UInt8.toNat_inj.mp
  rw [toPackedDecimal, UInt8.toNat_ofNat', toNat_ofPackedDecimal]
  omega

end Byte

open Byte

def ofPacked (bs : List UInt8) : Nat := Nat.ofDigits 100 (bs.map fun b => (ofPackedDecimal b).toNat)

/-- The last `2 * n` decimal digits of a number as little-endian bytes of packed decimal. -/
def packed : Nat → Nat → List UInt8
  | 0, _ => []
  | n + 1, x => toPackedDecimal (UInt8.ofNat (x % 100)) :: packed n (x / 100)

@[simp] theorem ofPacked_nil : ofPacked [] = 0 := rfl

@[simp] theorem ofPacked_cons (b : UInt8) (bs : List UInt8) :
    ofPacked (b :: bs) = (ofPackedDecimal b).toNat + 100 * ofPacked bs := Nat.ofDigits_cons

theorem ofPacked_lt_pow {bs : List UInt8} (h : ∀ b ∈ bs, IsPacked b) :
    ofPacked bs < 100 ^ bs.length := by
  have hdigits : ∀ d ∈ bs.map fun b => (ofPackedDecimal b).toNat, d < 100 :=
    List.forall_mem_map.mpr fun b hb => ofPackedDecimal_lt (h b hb)
  have hlt := Nat.ofDigits_lt_base_pow_length (by decide) hdigits
  rwa [List.length_map] at hlt

theorem packed_ofPacked {bs : List UInt8} (h : ∀ b ∈ bs, IsPacked b) :
    packed bs.length (ofPacked bs) = bs := by
  induction bs with
  | nil => rfl
  | cons b bs ih =>
    obtain ⟨hb, hbs⟩ := List.forall_mem_cons.mp h
    have hlt := ofPackedDecimal_lt hb
    have hlow : ((ofPackedDecimal b).toNat + 100 * ofPacked bs) % 100 =
        (ofPackedDecimal b).toNat := by omega
    have hrest : ((ofPackedDecimal b).toNat + 100 * ofPacked bs) / 100 = ofPacked bs := by omega
    rw [List.length_cons, packed, ofPacked_cons, hlow, hrest, ih hbs, UInt8.ofNat_toNat,
      toPackedDecimal_ofPackedDecimal hb]

namespace FlagLayout

/-- What is asked of an operation on packed bytes so that it can be chained: it stays with packed
bytes, and with the sign `σ` in front of the second operand a carry out counts 100. -/
structure DecimalChains (op : UInt8 → UInt8 → UInt8 → Bool → Outcome) (next : UInt8 → Bool)
    (σ : Int) : Prop where
  packed : ∀ flags {a b} c, IsPacked a → IsPacked b → IsPacked (op flags a b c).value
  value : ∀ flags {a b} c, IsPacked a → IsPacked b →
    ((ofPackedDecimal a).toNat : Int) + σ * ((ofPackedDecimal b).toNat + c.toNat) =
      (ofPackedDecimal (op flags a b c).value).toNat +
        σ * (100 * (next (op flags a b c).flags).toNat)

structure DecimalSums (next : UInt8 → Bool) (σ : Int) (as bs : List UInt8) (c : Bool)
    (result : List UInt8 × UInt8) : Prop where
  length : result.1.length = as.length
  packed : ∀ v ∈ result.1, IsPacked v
  value : (ofPacked as : Int) + σ * (ofPacked bs + c.toNat) =
    ofPacked result.1 + σ * ((100 ^ as.length : Nat) * (next result.2).toNat)

section Chain

variable {op : UInt8 → UInt8 → UInt8 → Bool → Outcome} {next : UInt8 → Bool} {σ : Int}

/-- One byte more at the low end hands its carry on to the others. -/
theorem DecimalChains.sums_cons (h : DecimalChains op next σ) (flags : UInt8) (c : Bool)
    {a b : UInt8} (ha : IsPacked a) (hb : IsPacked b) {as bs : List UInt8}
    (hrest : let o := op flags a b c
      DecimalSums next σ as bs (next o.flags) (chain op next o.flags (next o.flags) as bs)) :
    DecimalSums next σ (a :: as) (b :: bs) c (chain op next flags c (a :: as) (b :: bs)) where
  length := congrArg (· + 1) hrest.length
  packed := List.forall_mem_cons.mpr ⟨h.packed flags c ha hb, hrest.packed⟩
  value := by
    have hdigit := h.value flags c ha hb
    have hvalue := hrest.value
    simp only [chain, ofPacked_cons, List.length_cons, Nat.pow_succ]
    push_cast at hvalue ⊢
    linear_combination hdigit + 100 * hvalue

/-- A carry that the flags hold already is handed on even when there are no bytes. -/
theorem DecimalChains.sums_carried (h : DecimalChains op next σ) (flags : UInt8)
    {as bs : List UInt8} (has : ∀ a ∈ as, IsPacked a) (hbs : ∀ b ∈ bs, IsPacked b)
    (hlength : bs.length = as.length) :
    DecimalSums next σ as bs (next flags) (chain op next flags (next flags) as bs) := by
  induction as generalizing flags bs with
  | nil =>
    rw [List.eq_nil_of_length_eq_zero hlength]
    exact ⟨rfl, by simp [chain], by simp [chain]⟩
  | cons a as ih =>
    obtain ⟨b, bs, rfl⟩ := List.exists_cons_of_length_eq_add_one hlength
    obtain ⟨ha, has⟩ := List.forall_mem_cons.mp has
    obtain ⟨hb, hbs⟩ := List.forall_mem_cons.mp hbs
    exact h.sums_cons flags _ ha hb (ih _ has hbs (Nat.succ.inj hlength))

theorem DecimalChains.sums (h : DecimalChains op next σ) (flags : UInt8) (c : Bool)
    {as bs : List UInt8} (hne : as ≠ []) (has : ∀ a ∈ as, IsPacked a) (hbs : ∀ b ∈ bs, IsPacked b)
    (hlength : bs.length = as.length) :
    DecimalSums next σ as bs c (chain op next flags c as bs) := by
  obtain ⟨a, as, rfl⟩ := List.exists_cons_of_ne_nil hne
  obtain ⟨b, bs, rfl⟩ := List.exists_cons_of_length_eq_add_one hlength
  obtain ⟨ha, has⟩ := List.forall_mem_cons.mp has
  obtain ⟨hb, hbs⟩ := List.forall_mem_cons.mp hbs
  exact h.sums_cons flags c ha hb (h.sums_carried _ has hbs (Nat.succ.inj hlength))

variable {as bs : List UInt8} {c : Bool} {result : List UInt8 × UInt8}

theorem DecimalSums.eq_packed (h : DecimalSums next σ as bs c result) :
    result.1 = EightBit.packed as.length (ofPacked result.1) ∧
      ofPacked result.1 < 100 ^ as.length := by
  have hbytes := packed_ofPacked h.packed
  have hlt := ofPacked_lt_pow h.packed
  rw [h.length] at hbytes hlt
  exact ⟨hbytes.symm, hlt⟩

theorem DecimalSums.sum (h : DecimalSums next 1 as bs c result) :
    result.1 = EightBit.packed as.length
        ((ofPacked as + ofPacked bs + c.toNat) % 100 ^ as.length) ∧
      (next result.2 = true ↔ 100 ^ as.length ≤ ofPacked as + ofPacked bs + c.toNat) := by
  obtain ⟨hbytes, hlt⟩ := h.eq_packed
  obtain ⟨hvalue, hcarry⟩ := sum_of_value hlt h.value
  rw [hvalue] at hbytes
  exact ⟨hbytes, hcarry⟩

theorem DecimalSums.difference (h : DecimalSums next (-1) as bs c result) :
    result.1 = EightBit.packed as.length
        (((ofPacked as : Int) - ofPacked bs - c.toNat) % (100 ^ as.length : Nat)).toNat ∧
      (next result.2 = true ↔ ofPacked as < ofPacked bs + c.toNat) := by
  obtain ⟨hbytes, hlt⟩ := h.eq_packed
  obtain ⟨hvalue, hborrow⟩ := difference_of_value hlt h.value
  rw [hvalue] at hbytes
  exact ⟨hbytes, hborrow⟩

/-- The digits of a decimal sum or difference, the low one first: each is what the digits of the
operands come to, reduced to a digit, and what is left over goes to the next. -/
def DecimalDigits (op : UInt8 → UInt8 → UInt8 → Bool → Outcome) (next : UInt8 → Bool)
    (σ : Int) : Prop :=
  ∀ flags {a b} c, IsPacked a → IsPacked b →
    let low : Int := (a.toNat % 16 : Nat) + σ * ((b.toNat % 16 : Nat) + c.toNat)
    let high : Int := (a.toNat / 16 : Nat) + σ * (b.toNat / 16 : Nat) + low / 10
    ((op flags a b c).value.toNat : Int) = high % 10 * 16 + low % 10 ∧
      σ * (next (op flags a b c).flags).toNat = high / 10

theorem DecimalDigits.chains (h : DecimalDigits op next σ) : DecimalChains op next σ where
  packed flags a b c ha hb := by
    obtain ⟨hvalue, -⟩ := h flags c ha hb
    constructor <;> omega
  value flags a b c ha hb := by
    obtain ⟨hvalue, hnext⟩ := h flags c ha hb
    generalize hlow : ((a.toNat % 16 : Nat) : Int) + σ * ((b.toNat % 16 : Nat) + c.toNat) = low
      at hvalue hnext
    generalize hhigh : ((a.toNat / 16 : Nat) : Int) + σ * (b.toNat / 16 : Nat) + low / 10 = high
      at hvalue hnext
    have hdigits : (((op flags a b c).value.toNat / 16 : Nat) : Int) = high % 10 ∧
        (((op flags a b c).value.toNat % 16 : Nat) : Int) = low % 10 := by omega
    have hlow' := Int.emod_add_mul_ediv low 10
    have hhigh' := Int.emod_add_mul_ediv high 10
    simp only [toNat_ofPackedDecimal, Nat.cast_add, Nat.cast_mul, Nat.cast_ofNat, hdigits]
    linear_combination 10 * hhigh + hlow - hlow' - 10 * hhigh' - 100 * hnext

end Chain

/-- Six more for each ten makes a nibble carry where a decimal digit does. -/
theorem add_six_mod (x : Int) : (x + 6 * (x / 10)) % 16 = x % 10 := by omega

theorem add_six_add_sixty_mod (high low : Int) :
    (16 * high + low + 6 * (low / 10) + 96 * ((high + low / 10) / 10)) % 256 =
      (high + low / 10) % 10 * 16 + low % 10 := by
  obtain ⟨digit, hdigit⟩ : ∃ digit, high + low / 10 = digit := ⟨_, rfl⟩
  have hlow := Int.emod_add_mul_ediv low 10
  have hhigh := Int.emod_add_mul_ediv digit 10
  have hcarried : 16 * high + low + 6 * (low / 10) + 96 * (digit / 10) =
      digit % 10 * 16 + low % 10 + 256 * (digit / 10) := by
    linear_combination 16 * hdigit - hlow - 16 * hhigh
  rw [hdigit, hcarried, Int.add_mul_emod_self_left]
  omega

theorem decimalDigits_addDecimal : DecimalDigits mos.addDecimal mos.carrySet 1 := by
  intro flags a b c ha hb
  obtain ⟨x, y, hx, hy, hahigh, halow, -⟩ := ha.digits
  obtain ⟨x', y', hx', hy', hbhigh, hblow, -⟩ := hb.digits
  have hc := c.toNat_le
  obtain ⟨low, hlow⟩ : ∃ low, y + y' + c.toNat = low := ⟨_, rfl⟩
  obtain ⟨high, hhigh⟩ : ∃ high, x + x' + low / 10 = high := ⟨_, rfl⟩
  have hlow' : (y : Int) + 1 * (y' + c.toNat) = low := by omega
  have hhigh' : (x : Int) + 1 * x' + low / 10 = high := by omega
  have hcarry (flags : UInt8) (on : Bool) : mos.carrySet (put flags mos.carry on) = on := by
    rw [carrySet_eq (.inl rfl), bit_put _ _ _ (by decide)]
    rfl
  -- Both nibbles are treated alike: six more where the digit carries, and then the sixteenth.
  have hsix {d : Nat} (hd : d ≤ 19) : (if 9 < d then d + 6 else d) = d + 6 * (d / 10) := by
    split_ifs <;> omega
  have hnext {d : Nat} (hd : d ≤ 19) : (if 15 < d + 6 * (d / 10) then 1 else 0) = d / 10 := by
    split_ifs <;> omega
  have hlowBound : low ≤ 19 := by omega
  have hhighBound : high ≤ 19 := by omega
  simp only [addDecimal, hahigh, halow, hbhigh, hblow, hcarry, toNat_decide, UInt8.toNat_ofNat',
    hlow, hlow', hsix hlowBound, hnext hlowBound, hhigh, hhigh', hsix hhighBound,
    hnext hhighBound]
  have hlowDigit := add_six_mod low
  have hhighDigit := add_six_mod high
  clear hlow hhigh hlow' hhigh'
  constructor <;> omega

theorem decimalDigits_subDecimal : DecimalDigits mos.subDecimal mos.borrowSet (-1) := by
  intro flags a b c ha hb
  obtain ⟨x, y, hx, hy, hahigh, halow, ha⟩ := ha.digits
  obtain ⟨x', y', hx', hy', hbhigh, hblow, hb⟩ := hb.digits
  have hc := c.toNat_le
  obtain ⟨low, hlow⟩ : ∃ low : Int, (y : Int) - (y' + c.toNat : Nat) = low := ⟨_, rfl⟩
  obtain ⟨high, hhigh⟩ : ∃ high : Int, (x : Int) - x' + low / 10 = high := ⟨_, rfl⟩
  have hlow' : (y : Int) + -1 * (y' + c.toNat) = low := by omega
  have hhigh' : (x : Int) + -1 * x' + low / 10 = high := by omega
  have hpair : (if low < 0 then (low - 6, (x : Int) - x' - 1) else (low, (x : Int) - x')) =
      (low + 6 * (low / 10), high) := by
    split_ifs <;> rw [Prod.mk.injEq] <;> constructor <;> omega
  have hsix : (if high < 0 then high - 6 else high) = high + 6 * (high / 10) := by
    split_ifs <;> omega
  -- The flags are those of the binary difference, which is short exactly if the high digit is.
  have hborrow : (a.toNat < b.toNat + c.toNat) ↔ high < 0 := by omega
  simp only [subDecimal, hahigh, halow, hbhigh, hblow, hlow, hlow', hpair, hhigh', hsix,
    borrowSet_sub (.inl rfl), toNat_decide, UInt8.toNat_ofNat', add_six_mod, hborrow]
  clear hlow hlow' hhigh'
  constructor
  · omega
  · split_ifs <;> omega

end FlagLayout

end EightBit
