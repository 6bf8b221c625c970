import EightBit.Proofs.Numeral

/-!
Which texts are read as a row of bits.

A row of bits is meant to be one to eight binary digits. Reading takes all of these for the numbers
that they denote. Beyond them it takes just what denotes a number of eight bits behind a plus, or in
more than eight digits.
-/

namespace EightBit.Numeral

def bitText (bits : List Bool) : List Char := bits.map fun b => if b then '1' else '0'

def bitValue (bits : List Bool) : Nat := Nat.ofDigits 2 (bits.reverse.map Bool.toNat)

/-- The text consists of one to eight binary digits, which denote `v`. -/
def DenotesBits (text : List Char) (v : Nat) : Prop :=
  ∃ bits, text = bitText bits ∧ 1 ≤ bits.length ∧ bits.length ≤ 8 ∧ v = bitValue bits

/-- The text denotes `v`, which has eight bits, behind a plus or in more than eight digits. -/
def Tolerated (text : List Char) (v : Nat) : Prop :=
  ∃ bits, (text = '+' :: bitText bits ∨ text = bitText bits ∧ 8 < bits.length) ∧
    1 ≤ bits.length ∧ v < 256 ∧ v = bitValue bits

/-- Just the rows of one to eight bits are taken, and any other text is refused as a whole. -/
structure TakesRowsOnly (text : String) : Prop where
  accepts : ∀ v, parseBits text = .ok v ↔ DenotesBits text.toList v.toNat
  refuses : ∀ e, parseBits text = .error e ↔
    e = .invalidValue text ∧ ∀ v, ¬ DenotesBits text.toList v

theorem bitValue_lt {bits : List Bool} (h : bits.length ≤ 8) : bitValue bits < 256 := by
  have hdigits : ∀ d ∈ bits.reverse.map Bool.toNat, d < 2 := by
    intro d hd
    obtain ⟨b, -, rfl⟩ := List.mem_map.mp hd
    exact b.toNat_lt
  calc bitValue bits
    _ < 2 ^ (bits.reverse.map Bool.toNat).length :=
      Nat.ofDigits_lt_base_pow_length Nat.one_lt_two hdigits
    _ ≤ 2 ^ 8 := Nat.pow_le_pow_right Nat.two_pos (by simpa using h)

theorem length_bitText (bits : List Bool) : (bitText bits).length = bits.length :=
  List.length_map _

theorem plus_notMem_bitText (bits : List Bool) : '+' ∉ bitText bits := by
  intro h
  obtain ⟨b, -, hb⟩ := List.mem_map.mp h
  cases b <;> contradiction

theorem isDigit_two_iff {d : Nat} {c : Char} :
    IsDigit 2 d c ↔ ∃ b : Bool, d = b.toNat ∧ c = if b then '1' else '0' := by
  constructor
  · rintro ⟨hd, hc⟩
    match d, hd with
    | 0, _ => exact ⟨false, rfl, hc.elim id id⟩
    | 1, _ => exact ⟨true, rfl, hc.elim id id⟩
  · rintro ⟨b, rfl, rfl⟩
    cases b
    · exact ⟨by decide, .inl rfl⟩
    · exact ⟨by decide, .inl rfl⟩

theorem writes_two_iff {ds : List Nat} {cs : List Char} :
    Writes 2 [] ds cs ↔ ∃ bits : List Bool, ds = bits.map Bool.toNat ∧ cs = bitText bits := by
  constructor
  · intro h
    induction h with
    | nil => exact ⟨[], rfl, rfl⟩
    | digit hc _ ih =>
      obtain ⟨b, rfl, rfl⟩ := isDigit_two_iff.mp hc
      obtain ⟨bits, rfl, rfl⟩ := ih
      exact ⟨b :: bits, rfl, rfl⟩
    | group hc => contradiction
  · rintro ⟨bits, rfl, rfl⟩
    induction bits with
    | nil => exact .nil
    | cons b bits ih => exact .digit (isDigit_two_iff.mpr ⟨b, rfl, rfl⟩) ih

theorem positional_two_iff {cs : List Char} {v : Nat} :
    positional 2 0 cs = some v ↔ ∃ bits, cs = bitText bits ∧ v = bitValue bits := by
  simp only [positional_eq_some_iff (by decide : 2 ≤ 16), writes_two_iff, Nat.zero_mul,
    Nat.zero_add]
  constructor
  · rintro ⟨_, ⟨bits, rfl, rfl⟩, rfl⟩
    exact ⟨bits, rfl, by rw [bitValue, List.map_reverse]⟩
  · rintro ⟨bits, rfl, rfl⟩
    exact ⟨_, ⟨bits, rfl, rfl⟩, by rw [bitValue, List.map_reverse]⟩

def unsigned (text : List Char) : List Char :=
  match text with
  | '+' :: cs => cs
  | cs => cs

theorem unsigned_eq_bitText_iff {text : List Char} {bits : List Bool} :
    unsigned text = bitText bits ↔ text = '+' :: bitText bits ∨ text = bitText bits := by
  by_cases hplus : ∃ cs, text = '+' :: cs
  · obtain ⟨cs, rfl⟩ := hplus
    have hne : '+' :: cs ≠ bitText bits := fun h =>
      plus_notMem_bitText bits (h ▸ List.mem_cons_self)
    simp [unsigned, hne]
  · have hsame : unsigned text = text := by
      unfold unsigned
      split
      · exact absurd ⟨_, rfl⟩ hplus
      · rfl
    have hne : text ≠ '+' :: bitText bits := fun h => hplus ⟨_, h⟩
    simp [hsame, hne]

def bits? (text : List Char) : Option Nat :=
  if (unsigned text).isEmpty then none else (positional 2 0 (unsigned text)).filter (· < 256)

theorem parseBits_eq (text : String) :
    parseBits text =
      match bits? text.toList with
      | some v => .ok (UInt8.ofNat v)
      | none => .error (.invalidValue text) := rfl

theorem bits?_eq_some_iff (text : List Char) (v : Nat) :
    bits? text = some v ↔
      ∃ bits, (text = '+' :: bitText bits ∨ text = bitText bits) ∧ 1 ≤ bits.length ∧ v < 256 ∧
        v = bitValue bits := by
  have hempty {bits : List Bool} : bitText bits = [] ↔ ¬ 1 ≤ bits.length := by
    rw [← length_bitText, ← List.length_eq_zero_iff, Nat.not_le, Nat.lt_one_iff]
  simp only [bits?, List.isEmpty_iff, Option.ite_none_left_eq_some, Option.filter_eq_some_iff,
    positional_two_iff, decide_eq_true_eq, ← unsigned_eq_bitText_iff]
  constructor
  · rintro ⟨hne, ⟨bits, htext, hv⟩, hlt⟩
    exact ⟨bits, htext, not_not.mp (mt hempty.mpr (htext ▸ hne)), hlt, hv⟩
  · rintro ⟨bits, htext, hlength, hlt, hv⟩
    exact ⟨fun h => hempty.mp (htext ▸ h) hlength, ⟨bits, htext, hv⟩, hlt⟩

/-- What is read is meant to be, or it is tolerated. -/
theorem bits?_cases (text : List Char) (v : Nat) :
    bits? text = some v ↔ DenotesBits text v ∨ Tolerated text v := by
  rw [bits?_eq_some_iff]
  constructor
  · rintro ⟨bits, htext | htext, hlength, hlt, hv⟩
    · exact .inr ⟨bits, .inl htext, hlength, hlt, hv⟩
    · by_cases hshort : bits.length ≤ 8
      · exact .inl ⟨bits, htext, hlength, hshort, hv⟩
      · exact .inr ⟨bits, .inr ⟨htext, Nat.lt_of_not_le hshort⟩, hlength, hlt, hv⟩
  · rintro (⟨bits, htext, hlength, hshort, rfl⟩ | ⟨bits, htext, hlength, hlt, hv⟩)
    · exact ⟨bits, .inr htext, hlength, bitValue_lt hshort, rfl⟩
    · exact ⟨bits, htext.imp_right And.left, hlength, hlt, hv⟩

theorem Tolerated.not_denotesBits {text : List Char} {v w : Nat} (h : Tolerated text v) :
    ¬ DenotesBits text w := by
  rintro ⟨short, rfl, -, hshort, -⟩
  obtain ⟨bits, hplus | ⟨hsame, hlong⟩, -⟩ := h
  · exact plus_notMem_bitText short (hplus ▸ List.mem_cons_self)
  · have hlength := congrArg List.length hsame
    rw [length_bitText, length_bitText] at hlength
    exact Nat.not_lt_of_le hshort (hlength ▸ hlong)

theorem parseBits_eq_ok_iff (text : String) (v : UInt8) :
    parseBits text = .ok v ↔
      DenotesBits text.toList v.toNat ∨ Tolerated text.toList v.toNat := by
  rw [← bits?_cases, parseBits_eq]
  have hlt {w : Nat} (h : bits? text.toList = some w) : w < 256 := by
    obtain ⟨bits, -, -, hlt, -⟩ := (bits?_eq_some_iff _ _).mp h
    exact hlt
  cases hbits : bits? text.toList with
  | none => simp
  | some w =>
    simp only [Except.ok.injEq, Option.some.injEq, ← UInt8.toNat_inj, UInt8.toNat_ofNat']
    rw [Nat.mod_eq_of_lt (hlt hbits)]

theorem parseBits_eq_error_iff (text : String) (e : NumeralError) :
    parseBits text = .error e ↔
      e = .invalidValue text ∧
        ∀ v, ¬ DenotesBits text.toList v ∧ ¬ Tolerated text.toList v := by
  simp only [← not_or, ← bits?_cases, parseBits_eq]
  split <;> simp [*, eq_comm]

/-- A row of one to eight binary digits is read as the number that it denotes. Every other text is
refused as a whole, unless it denotes a number of eight bits behind a plus or in more than eight
digits: such a text is read as that number, so with it, and only with it, reading takes more than
rows of bits. -/
theorem parseBits_takes_rows (text : String) :
    (∀ v, parseBits text = .ok v ↔
      DenotesBits text.toList v.toNat ∨ Tolerated text.toList v.toNat) ∧
      (∀ e, parseBits text = .error e ↔
        e = .invalidValue text ∧
          ∀ v, ¬ DenotesBits text.toList v ∧ ¬ Tolerated text.toList v) ∧
      (TakesRowsOnly text ↔ ∀ v, ¬ Tolerated text.toList v) := by
  refine ⟨parseBits_eq_ok_iff text, parseBits_eq_error_iff text, ?_, ?_⟩
  · intro h v hv
    obtain ⟨bits, -, -, hlt, -⟩ := id hv
    have hv' : (UInt8.ofNat v).toNat = v := by
      rw [UInt8.toNat_ofNat', Nat.mod_eq_of_lt hlt]
    have hread := (parseBits_eq_ok_iff text (UInt8.ofNat v)).mpr (.inr (hv'.symm ▸ hv))
    exact hv.not_denotesBits ((h.accepts _).mp hread)
  · intro h
    constructor
    · intro v
      rw [parseBits_eq_ok_iff, or_iff_left (h _)]
    · intro e
      simp only [parseBits_eq_error_iff, h, not_false_iff, and_true]

/-- A plus and leading zeros are let through. -/
theorem parseBits_takes_plus :
    ¬ TakesRowsOnly "+1" ∧ ¬ TakesRowsOnly "000000001" := by
  constructor
  · intro h
    obtain ⟨bits, htext, -⟩ := (h.accepts 1).mp rfl
    exact plus_notMem_bitText bits (htext ▸ List.mem_cons_self)
  · intro h
    obtain ⟨bits, htext, -, hshort, -⟩ := (h.accepts 1).mp rfl
    rw [← length_bitText, ← htext] at hshort
    contradiction

end EightBit.Numeral
