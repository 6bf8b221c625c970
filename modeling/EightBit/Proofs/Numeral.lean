import EightBit.Numeral
import Mathlib.Data.Nat.Digits.Defs

/-!
Which texts are numerals, and of which numbers.

A numeral is a mark, which may be missing, and behind it digits of the base that the mark stands
for. Binary digits may be grouped. Reading accepts the numerals of numbers that fit and refuses
every other text as a whole.
-/

namespace EightBit.Numeral

structure IsDigit (base d : Nat) (c : Char) : Prop where
  lt : d < base
  eq : c = Nat.digitChar d ∨ c = (Nat.digitChar d).toUpper

/-- The text writes the digits, the highest first, with any grouping between and around them. -/
inductive Writes (base : Nat) (grouping : List Char) : List Nat → List Char → Prop
  | nil : Writes base grouping [] []
  | digit {d : Nat} {c : Char} {ds : List Nat} {cs : List Char} (hc : IsDigit base d c)
      (hcs : Writes base grouping ds cs) : Writes base grouping (d :: ds) (c :: cs)
  | group {c : Char} {ds : List Nat} {cs : List Char} (hc : c ∈ grouping)
      (hcs : Writes base grouping ds cs) : Writes base grouping ds (c :: cs)

/-- A way to write numbers: the mark in front, the base and the characters that may group digits. -/
structure Form where
  mark : List Char
  base : Nat
  grouping : List Char

def forms : List Form :=
  [⟨['$'], 16, []⟩, ⟨['0', 'x'], 16, []⟩, ⟨['+'], 10, []⟩, ⟨['%'], 2, ['.', ':']⟩, ⟨[], 16, []⟩]

/-- The text is a numeral in one of the forms, with at least one digit, and `v` is its positional
value. -/
def Denotes (text : List Char) (v : Nat) : Prop :=
  ∃ form ∈ forms, ∃ ds cs, text = form.mark ++ cs ∧ Writes form.base form.grouping ds cs ∧
    ds ≠ [] ∧ v = Nat.ofDigits form.base ds.reverse

structure DenotesWithin (text : List Char) (bits v : Nat) : Prop where
  denotes : Denotes text v
  lt : v < 2 ^ 32
  fits : bits < 32 → v < 2 ^ bits

theorem digitValue_digitChar : ∀ d < 16, digitValue (Nat.digitChar d) = some d ∧
    digitValue (Nat.digitChar d).toUpper = some d := by
  decide

theorem toNat_lt_of_digitValue {c : Char} {d : Nat} (h : digitValue c = some d) :
    c.toNat < 128 := by
  simp only [digitValue, Char.le_def, UInt32.le_iff_toNat_le] at h
  change c.val.toNat < 128
  split at h
  · next hc => exact Nat.lt_of_le_of_lt hc.2 (by decide)
  · split at h
    · next hc => exact Nat.lt_of_le_of_lt hc.2 (by decide)
    · split at h
      · next hc => exact Nat.lt_of_le_of_lt hc.2 (by decide)
      · contradiction

/-- Only ASCII characters count as digits, so they can be looked at one by one. -/
theorem eq_digitChar_of_digitValue {c : Char} {d : Nat} (hd : d < 16)
    (h : digitValue c = some d) : c = Nat.digitChar d ∨ c = (Nat.digitChar d).toUpper := by
  have hascii : ∀ n < 128, ∀ d ∈ digitValue (Char.ofNat n), d < 16 →
      Char.ofNat n = Nat.digitChar d ∨ Char.ofNat n = (Nat.digitChar d).toUpper := by
    decide
  have hc := hascii c.toNat (toNat_lt_of_digitValue h)
  rw [Char.ofNat_toNat] at hc
  exact hc d h hd

theorem digit_eq_some_iff {base d : Nat} {c : Char} (hbase : base ≤ 16) :
    digit base c = some d ↔ IsDigit base d c := by
  simp only [digit, Option.filter_eq_some_iff, decide_eq_true_eq]
  constructor
  · rintro ⟨hvalue, hd⟩
    exact ⟨hd, eq_digitChar_of_digitValue (hd.trans_le hbase) hvalue⟩
  · rintro ⟨hd, hc⟩
    obtain ⟨hlower, hupper⟩ := digitValue_digitChar d (hd.trans_le hbase)
    rcases hc with rfl | rfl
    · exact ⟨hlower, hd⟩
    · exact ⟨hupper, hd⟩

variable {base : Nat} {grouping : List Char} {ds : List Nat} {cs : List Char}

theorem Writes.length_eq (h : Writes base [] ds cs) : ds.length = cs.length := by
  induction h with
  | nil => rfl
  | digit _ _ ih => rw [List.length_cons, List.length_cons, ih]
  | group hc => contradiction

/-- Grouping can be dropped before the digits are read, as it is no digit itself. -/
theorem writes_iff_filter (h : ∀ c ∈ grouping, ∀ d, ¬ IsDigit base d c) :
    Writes base grouping ds cs ↔ Writes base [] ds (cs.filter (· ∉ grouping)) := by
  constructor
  · intro hcs
    induction hcs with
    | nil => exact .nil
    | digit hc _ ih =>
      have hkept : _ ∉ grouping := fun hmem => h _ hmem _ hc
      rw [List.filter_cons_of_pos (by simpa using hkept)]
      exact .digit hc ih
    | group hc _ ih =>
      rw [List.filter_cons_of_neg (by simpa using hc)]
      exact ih
  · intro hcs
    induction cs generalizing ds with
    | nil =>
      cases hcs
      exact .nil
    | cons c cs ih =>
      by_cases hc : c ∈ grouping
      · rw [List.filter_cons_of_neg (by simpa using hc)] at hcs
        exact .group hc (ih hcs)
      · rw [List.filter_cons_of_pos (by simpa using hc)] at hcs
        cases hcs with
        | digit hd hcs => exact .digit hd (ih hcs)
        | group hmem => contradiction

/-- Reading from the left adds up the positional value, each step moving what is read so far one
place up. -/
theorem positional_eq_some_iff (hbase : base ≤ 16) (acc v : Nat) :
    positional base acc cs = some v ↔
      ∃ ds, Writes base [] ds cs ∧ v = acc * base ^ ds.length + Nat.ofDigits base ds.reverse := by
  induction cs generalizing acc with
  | nil =>
    constructor
    · intro h
      obtain rfl : acc = v := Option.some.inj h
      exact ⟨[], .nil, by simp⟩
    · rintro ⟨ds, hds, rfl⟩
      cases hds
      simp [positional]
  | cons c cs ih =>
    have hstep (d : Nat) (ds : List Nat) :
        (acc * base + d) * base ^ ds.length + Nat.ofDigits base ds.reverse =
          acc * base ^ (d :: ds).length + Nat.ofDigits base (d :: ds).reverse := by
      rw [List.reverse_cons, Nat.ofDigits_append, List.length_reverse, Nat.ofDigits_singleton,
        List.length_cons]
      ring
    simp only [positional, Option.bind_eq_some_iff, digit_eq_some_iff hbase, ih]
    constructor
    · rintro ⟨d, hd, ds, hds, rfl⟩
      exact ⟨d :: ds, .digit hd hds, hstep d ds⟩
    · rintro ⟨_, hds, rfl⟩
      cases hds with
      | @digit d _ ds _ hd hds => exact ⟨d, hd, ds, hds, (hstep d ds).symm⟩
      | group hmem => contradiction

/-- What is behind a mark is read as a number if digits are left when grouping is dropped. -/
theorem positional_filter_iff (hbase : base ≤ 16) (h : ∀ c ∈ grouping, ∀ d, ¬ IsDigit base d c)
    (v : Nat) :
    cs.filter (· ∉ grouping) ≠ [] ∧ positional base 0 (cs.filter (· ∉ grouping)) = some v ↔
      ∃ ds, Writes base grouping ds cs ∧ ds ≠ [] ∧ v = Nat.ofDigits base ds.reverse := by
  simp only [positional_eq_some_iff hbase, Nat.zero_mul, Nat.zero_add]
  constructor
  · rintro ⟨hne, ds, hds, rfl⟩
    refine ⟨ds, (writes_iff_filter h).mpr hds, ?_, rfl⟩
    rintro rfl
    exact hne (List.length_eq_zero_iff.mp hds.length_eq.symm)
  · rintro ⟨ds, hds, hne, rfl⟩
    have hfiltered := (writes_iff_filter h).mp hds
    refine ⟨?_, ds, hfiltered, rfl⟩
    intro hempty
    rw [hempty] at hfiltered
    exact hne (List.length_eq_zero_iff.mp hfiltered.length_eq)

theorem base_le_of_mem_forms : ∀ form ∈ forms, form.base ≤ 16 := by
  simp [forms]

theorem not_isDigit_of_mem_forms :
    ∀ form ∈ forms, ∀ c ∈ form.grouping, ∀ d, ¬ IsDigit form.base d c := by
  have hbinary : digit 2 '.' = none ∧ digit 2 ':' = none := by decide
  have hnone : ∀ form ∈ forms, ∀ c ∈ form.grouping, digit form.base c = none := by
    simpa [forms] using hbinary
  intro form hform c hc d hd
  have hsome := (digit_eq_some_iff (base_le_of_mem_forms form hform)).mpr hd
  exact Option.some_ne_none d (hsome.symm.trans (hnone form hform c hc))

theorem filter_ungrouped (cs : List Char) : cs.filter (· ∉ ([] : List Char)) = cs :=
  List.filter_eq_self.mpr (by simp)

/-- Every text is taken for one of the forms. -/
theorem split_form (text : List Char) : ∃ form ∈ forms, ∃ cs,
    text = form.mark ++ cs ∧ split text = (form.base, cs.filter (· ∉ form.grouping)) := by
  fun_cases split text with
  | case1 cs => exact ⟨⟨['$'], 16, []⟩, by simp [forms], cs, rfl, by rw [filter_ungrouped]⟩
  | case2 cs => exact ⟨⟨['0', 'x'], 16, []⟩, by simp [forms], cs, rfl, by rw [filter_ungrouped]⟩
  | case3 cs => exact ⟨⟨['+'], 10, []⟩, by simp [forms], cs, rfl, by rw [filter_ungrouped]⟩
  | case4 cs =>
    exact ⟨⟨['%'], 2, ['.', ':']⟩, by simp [forms], cs, rfl, by simp [bne, beq_eq_decide]⟩
  | case5 => exact ⟨⟨[], 16, []⟩, by simp [forms], text, rfl, by rw [filter_ungrouped]⟩

/-- Bare digits begin with no mark: of the characters in marks only the zero is a digit. -/
theorem split_of_bare (h : Writes 16 [] ds cs) : split cs = (16, cs) := by
  have hdigit {c : Char} {ds : List Nat} {cs : List Char} (h : Writes 16 [] ds (c :: cs)) :
      digit 16 c ≠ none := by
    cases h with
    | digit hc _ => rw [(digit_eq_some_iff le_rfl).mpr hc]; exact Option.some_ne_none _
    | group hc => contradiction
  fun_cases split cs with
  | case1 cs => exact absurd (by decide) (hdigit h)
  | case2 cs =>
    cases h with
    | digit _ h => exact absurd (by decide) (hdigit h)
    | group hc => contradiction
  | case3 cs => exact absurd (by decide) (hdigit h)
  | case4 cs => exact absurd (by decide) (hdigit h)
  | case5 => rfl

/-- A mark and digits behind it are taken for the form of the mark. -/
theorem split_of_writes {form : Form} (hform : form ∈ forms)
    (h : Writes form.base form.grouping ds cs) :
    split (form.mark ++ cs) = (form.base, cs.filter (· ∉ form.grouping)) := by
  simp only [forms, List.mem_cons, List.not_mem_nil, or_false] at hform
  rcases hform with rfl | rfl | rfl | rfl | rfl
  · rw [filter_ungrouped]
    rfl
  · rw [filter_ungrouped]
    rfl
  · rw [filter_ungrouped]
    rfl
  · simp [split, bne, beq_eq_decide]
  · rw [filter_ungrouped]
    exact split_of_bare h

theorem denotes_iff (text : List Char) (v : Nat) :
    Denotes text v ↔
      (split text).2 ≠ [] ∧ positional (split text).1 0 (split text).2 = some v := by
  constructor
  · rintro ⟨form, hform, ds, cs, rfl, hcs, hne, hv⟩
    rw [split_of_writes hform hcs]
    exact (positional_filter_iff (base_le_of_mem_forms form hform)
      (not_isDigit_of_mem_forms form hform) v).mpr ⟨ds, hcs, hne, hv⟩
  · intro h
    obtain ⟨form, hform, cs, rfl, hsplit⟩ := split_form text
    rw [hsplit] at h
    obtain ⟨ds, hcs, hne, hv⟩ := (positional_filter_iff (base_le_of_mem_forms form hform)
      (not_isDigit_of_mem_forms form hform) v).mp h
    exact ⟨form, hform, ds, cs, rfl, hcs, hne, hv⟩

theorem value?_eq_some_iff (text : List Char) (bits v : Nat) :
    value? text bits = some v ↔ DenotesWithin text bits v := by
  have hfits : (v < UInt32.size && (32 ≤ bits || v < 1 <<< bits)) = true ↔
      v < 2 ^ 32 ∧ (bits < 32 → v < 2 ^ bits) := by
    rw [Bool.and_eq_true, Bool.or_eq_true, decide_eq_true_eq, decide_eq_true_eq,
      decide_eq_true_eq, Nat.one_shiftLeft, ← Nat.not_lt, ← imp_iff_not_or]
    rfl
  have hvalue : value? text bits = some v ↔
      ((split text).2 ≠ [] ∧ positional (split text).1 0 (split text).2 = some v) ∧
        v < 2 ^ 32 ∧ (bits < 32 → v < 2 ^ bits) := by
    rw [← hfits, value?]
    cases split text with
    | mk base ds =>
      simp only [List.isEmpty_iff, Option.ite_none_left_eq_some, Option.filter_eq_some_iff,
        and_assoc]
  rw [hvalue, ← denotes_iff]
  exact ⟨fun ⟨h, hlt, hfits⟩ => ⟨h, hlt, hfits⟩, fun ⟨h, hlt, hfits⟩ => ⟨h, hlt, hfits⟩⟩

theorem parse_eq_ok_iff (text : String) (bits v : Nat) :
    parse text bits = .ok v ↔ DenotesWithin text.toList bits v := by
  rw [← value?_eq_some_iff, parse]
  split <;> simp [*]

theorem parse_eq_error_iff (text : String) (bits : Nat) (e : NumeralError) :
    parse text bits = .error e ↔
      e = .invalidValue text ∧ ∀ v, ¬ DenotesWithin text.toList bits v := by
  simp only [← value?_eq_some_iff, parse]
  split <;> simp [*, eq_comm]

theorem parseAddress_eq_ok_iff (text : String) (v : Nat) :
    parseAddress text = .ok v ↔ DenotesWithin text.toList 32 v := by
  rw [← value?_eq_some_iff, parseAddress]
  split <;> simp [*]

theorem parseAddress_eq_error_iff (text : String) (e : NumeralError) :
    parseAddress text = .error e ↔
      e = .invalidAddress text ∧ ∀ v, ¬ DenotesWithin text.toList 32 v := by
  simp only [← value?_eq_some_iff, parseAddress]
  split <;> simp [*, eq_comm]

theorem Writes.forall_mem {P : Char → Prop} (h : Writes base grouping ds cs)
    (hdigit : ∀ c d, IsDigit base d c → P c) (hgroup : ∀ c ∈ grouping, P c) : ∀ c ∈ cs, P c := by
  induction h with
  | nil => exact List.forall_mem_nil P
  | digit hc _ ih => exact List.forall_mem_cons.mpr ⟨hdigit _ _ hc, ih⟩
  | group hc _ ih => exact List.forall_mem_cons.mpr ⟨hgroup _ hc, ih⟩

/-- A numeral is of ASCII characters, and the only sign that it may have is the plus that marks a
decimal one. -/
theorem Denotes.unsigned {text : List Char} {v : Nat} (h : Denotes text v) :
    (∀ c ∈ text, c.toNat < 128 ∧ c ≠ '-') ∧ '+' ∉ text.tail := by
  obtain ⟨form, hform, ds, cs, rfl, hcs, -⟩ := h
  have hsigns : digitValue '-' = none ∧ digitValue '+' = none := by decide
  have hgrouping : ∀ form ∈ forms, ∀ c ∈ form.grouping,
      (c.toNat < 128 ∧ c ≠ '-') ∧ c ≠ '+' := by simp [forms]
  have hplain : ∀ c ∈ cs, (c.toNat < 128 ∧ c ≠ '-') ∧ c ≠ '+' := by
    apply hcs.forall_mem (P := fun c => (c.toNat < 128 ∧ c ≠ '-') ∧ c ≠ '+')
    · intro c d hc
      have hdigit := (digit_eq_some_iff (base_le_of_mem_forms form hform)).mpr hc
      obtain ⟨hvalue, -⟩ := Option.filter_eq_some_iff.mp hdigit
      refine ⟨⟨toNat_lt_of_digitValue hvalue, ?_⟩, ?_⟩
      · rintro rfl
        exact Option.some_ne_none d (hvalue.symm.trans hsigns.1)
      · rintro rfl
        exact Option.some_ne_none d (hvalue.symm.trans hsigns.2)
    · exact hgrouping form hform
  have hplus : '+' ∉ cs := fun hmem => (hplain _ hmem).2 rfl
  have hmark : ∀ form ∈ forms, (∀ c ∈ form.mark, c.toNat < 128 ∧ c ≠ '-') ∧
      '+' ∉ form.mark.tail := by simp [forms]
  obtain ⟨hbefore, htail⟩ := hmark form hform
  constructor
  · intro c hc
    rcases List.mem_append.mp hc with hc | hc
    · exact hbefore c hc
    · exact (hplain c hc).1
  · cases hempty : form.mark with
    | nil => exact fun hmem => hplus (List.mem_of_mem_tail hmem)
    | cons c mark =>
      rw [hempty] at htail
      exact fun hmem => (List.mem_append.mp hmem).elim htail hplus

/-- Reading accepts just the numerals of numbers that fit and gives their value. Any other text is
refused as a whole, among them those with a sign inside and those that are not ASCII. An address is
read as a number of thirty-two bits. -/
theorem parse_accepts_numerals (text : String) :
    (∀ bits v, parse text bits = .ok v ↔ DenotesWithin text.toList bits v) ∧
      (∀ bits e, parse text bits = .error e ↔
        e = .invalidValue text ∧ ∀ v, ¬ DenotesWithin text.toList bits v) ∧
      (∀ v, parseAddress text = .ok v ↔ DenotesWithin text.toList 32 v) ∧
      (∀ e, parseAddress text = .error e ↔
        e = .invalidAddress text ∧ ∀ v, ¬ DenotesWithin text.toList 32 v) ∧
      ((∃ c ∈ text.toList, 128 ≤ c.toNat) ∨ '-' ∈ text.toList ∨ '+' ∈ text.toList.tail →
        (∀ bits, parse text bits = .error (.invalidValue text)) ∧
          parseAddress text = .error (.invalidAddress text)) := by
  refine ⟨parse_eq_ok_iff text, parse_eq_error_iff text, parseAddress_eq_ok_iff text,
    parseAddress_eq_error_iff text, ?_⟩
  intro h
  have hnone (bits v : Nat) : ¬ DenotesWithin text.toList bits v := by
    intro hdenotes
    obtain ⟨hplain, hplus⟩ := hdenotes.denotes.unsigned
    rcases h with ⟨c, hc, hcode⟩ | hminus | hinner
    · exact Nat.not_lt_of_le hcode (hplain c hc).1
    · exact (hplain _ hminus).2 rfl
    · exact hplus hinner
  exact ⟨fun bits => (parse_eq_error_iff text bits _).mpr ⟨rfl, hnone bits⟩,
    (parseAddress_eq_error_iff text _).mpr ⟨rfl, hnone 32⟩⟩

example : parse "%0000.1111:" 8 = .ok 15 := rfl

end EightBit.Numeral
