import EightBit.Memory
import EightBit.Monitor.Dump
import Mathlib.Data.List.DropRight
import Mathlib.Data.List.Forall2

/-!
What a dump shows.

A row is cut into its columns, and the rows of a dump into the addresses that they stand for. Each
byte has its two digits at a place of its own, and the digits of all rows, read in order, are those
of the memory.
-/

namespace EightBit

namespace Numeral

/-- The last digit is the remainder and the digits in front are those of the quotient. -/
theorem digits_succ {base : Nat} (hbase : 1 < base) {width : Nat} (hwidth : 0 < width) (n : Nat) :
    digits base (width + 1) n = digits base width (n / base) ++ [Nat.digitChar (n % base)] := by
  by_cases hn : n < base
  · obtain ⟨width, rfl⟩ := Nat.exists_eq_succ_of_ne_zero (Nat.ne_of_gt hwidth)
    have hzero : Nat.toDigits base 0 = ['0'] := Nat.toDigits_of_lt_base (Nat.zero_lt_of_lt hbase)
    simp only [digits, Nat.toDigits_of_lt_base hn, Nat.div_eq_of_lt hn, Nat.mod_eq_of_lt hn, hzero,
      List.length_singleton, Nat.add_sub_cancel, Nat.succ_eq_add_one, List.replicate_succ']
  · simp only [digits, Nat.toDigits_of_base_le hbase (Nat.le_of_not_lt hn), List.length_append,
      List.length_singleton, Nat.add_sub_add_right, List.append_assoc]

theorem digits_one {base d : Nat} (hd : d < base) : digits base 1 d = [Nat.digitChar d] := by
  rw [digits, Nat.toDigits_of_lt_base hd]
  rfl

end Numeral

namespace Dump

def pair (v : UInt8) : List Char :=
  [Nat.digitChar (v.toNat / 16), Nat.digitChar (v.toNat % 16)]

def quad (a : Nat) : List Char :=
  [Nat.digitChar (a / 4096 % 16), Nat.digitChar (a / 256 % 16), Nat.digitChar (a / 16 % 16),
    Nat.digitChar (a % 16)]

def character (set : CharacterSet) (v : UInt8) : Char :=
  if (set v).printable then (set v).char else '.'

/-- Where the digits of the byte `k` of a row are. -/
def digitColumn (k : Nat) : Nat := 7 + 3 * k + if 8 ≤ k then 1 else 0

def characterColumn : Nat := 57

/-- The digits of a row between its label and its characters. -/
def hexDigits (text : String) : List Char :=
  ((text.toList.take characterColumn).drop 5).filter (· != ' ')

/-- The row of `base` in a dump of the addresses from `first` to `last`. -/
structure IsRow (code : Code) (set : CharacterSet) (first last base : Nat) (text : String) :
    Prop where
  label : text.toList.take 5 = '$' :: quad base
  byte : ∀ k < width, first ≤ base + k ∧ base + k ≤ last →
    (text.toList.drop (digitColumn k)).take 2 = pair (code (base + k))
  blank : ∀ k < width, ¬ (first ≤ base + k ∧ base + k ≤ last) →
    (text.toList.drop (digitColumn k)).take 2 = [' ', ' ']
  /-- The characters, with blanks that were left out behind them. -/
  characters : ∃ blanks, (∀ c ∈ blanks, Text.isBlank c = true) ∧
    text.toList.drop characterColumn ++ blanks = (List.range width).map fun k =>
      if first ≤ base + k ∧ base + k ≤ last then character set (code (base + k)) else ' '
  trimmed : ∀ c ∈ (text.toList.drop characterColumn).getLast?, Text.isBlank c = false

theorem toList_hexPair (v : UInt8) : (Numeral.hexPair v).toList = pair v := by
  have hhigh : v.toNat / 16 < 16 := Nat.div_lt_of_lt_mul v.toNat_lt
  rw [Numeral.hexPair, String.toList_ofList, Numeral.digits_succ (by decide) (by decide),
    Numeral.digits_one hhigh]
  rfl

theorem toList_hexWord (a : Nat) :
    (Numeral.hexWord (UInt16.ofNat a)).toList = '$' :: quad a := by
  have hlow : (UInt16.ofNat a).toNat = a % 65536 := UInt16.toNat_ofNat'
  rw [Numeral.hexWord, Numeral.hex, String.toList_ofList, hlow,
    Numeral.digits_succ (by decide) (by decide), Numeral.digits_succ (by decide) (by decide),
    Numeral.digits_succ (by decide) (by decide), Numeral.digits_one (by omega)]
  have h₁ : a % 65536 / 16 / 16 / 16 = a / 4096 % 16 := by omega
  have h₂ : a % 65536 / 16 / 16 % 16 = a / 256 % 16 := by omega
  have h₃ : a % 65536 / 16 % 16 = a / 16 % 16 := by omega
  have h₄ : a % 65536 % 16 = a % 16 := by omega
  rw [h₁, h₂, h₃, h₄]
  rfl

theorem digitChar_ne_space {d : Nat} (hd : d < 16) : Nat.digitChar d ≠ ' ' := by
  have hall : ∀ d < 16, Nat.digitChar d ≠ ' ' := by decide
  exact hall d hd

theorem filter_pair (v : UInt8) : (pair v).filter (· != ' ') = pair v := by
  have hhigh : v.toNat / 16 < 16 := Nat.div_lt_of_lt_mul v.toNat_lt
  have hlow : v.toNat % 16 < 16 := Nat.mod_lt _ (by decide)
  simp [pair, digitChar_ne_space hhigh, digitChar_ne_space hlow]

section Columns

variable (code : Code) (set : CharacterSet) (first last base : Nat)

def place (k : Nat) : List Char :=
  if first ≤ base + k ∧ base + k ≤ last then pair (code (base + k)) else [' ', ' ']

def places (ks : List Nat) : List Char :=
  ks.flatMap fun k => ' ' :: (place code first last base k ++ if k = 7 then [' '] else [])

def chars : List Char :=
  (List.range width).map fun k =>
    if first ≤ base + k ∧ base + k ≤ last then character set (code (base + k)) else ' '

theorem length_place (k : Nat) : (place code first last base k).length = 2 := by
  rw [place]
  split
  · rfl
  · rfl

theorem places_append (ks ks' : List Nat) :
    places code first last base (ks ++ ks') =
      places code first last base ks ++ places code first last base ks' :=
  List.flatMap_append

/-- Three columns for each byte, and a blank more once the eighth is past. -/
theorem length_places (n : Nat) :
    (places code first last base (List.range n)).length = 3 * n + if 8 ≤ n then 1 else 0 := by
  induction n with
  | zero => rfl
  | succ n ih =>
    rw [List.range_succ, places_append, List.length_append, ih]
    simp only [places, List.flatMap_singleton, List.length_cons, List.length_append, length_place]
    split_ifs <;> simp <;> omega

theorem toList_row :
    (row code set first last base).toList =
      '$' :: quad base ++ ' ' :: (places code first last base (List.range width) ++
        ' ' :: ' ' :: Text.trimEnd (chars code set first last base)) := by
  have hcolumn (k : Nat) :
      (column k (if (decide (first ≤ base + k) && decide (base + k ≤ last)) = true
        then Numeral.hexPair (code (base + k)) else "  ")).toList =
        ' ' :: (place code first last base k ++ if k = 7 then [' '] else []) := by
    simp only [column, place, Bool.and_eq_true, decide_eq_true_eq, String.toList_append]
    split_ifs <;> simp [toList_hexPair]
  simp only [row, String.toList_append, toList_hexWord, String.toList_join, String.toList_ofList,
    List.flatMap_map, hcolumn]
  simp [places, chars, character, Glyph.shown]

/-- The front of a row ends where the characters start. -/
theorem front_row :
    (row code set first last base).toList.take characterColumn =
        '$' :: quad base ++ ' ' :: (places code first last base (List.range width) ++ [' ', ' ']) ∧
      (row code set first last base).toList.drop characterColumn =
        Text.trimEnd (chars code set first last base) := by
  have hplaces : (places code first last base (List.range width)).length = 49 :=
    length_places code first last base width
  have hlength : ('$' :: quad base ++
      ' ' :: (places code first last base (List.range width) ++ [' ', ' '])).length =
        characterColumn := by
    simp only [quad, List.length_append, List.length_cons, hplaces]
    rfl
  have hrow : (row code set first last base).toList =
      ('$' :: quad base ++
        ' ' :: (places code first last base (List.range width) ++ [' ', ' '])) ++
        Text.trimEnd (chars code set first last base) := by
    rw [toList_row]
    simp
  rw [hrow]
  exact ⟨List.take_left' hlength, List.drop_left' hlength⟩

/-- The digits of a byte are at its column, behind those of the bytes before. -/
theorem place_row {k : Nat} (hk : k < width) :
    ((row code set first last base).toList.drop (digitColumn k)).take 2 =
      place code first last base k := by
  obtain ⟨n, hn⟩ : ∃ n, width = k + (n + 1) := Nat.exists_eq_add_of_lt hk
  have hrange : List.range width = List.range k ++ k :: List.range' (k + 1) n := by
    have hsplit : List.range' 0 k ++ List.range' (0 + k) (n + 1) = List.range' 0 (k + (n + 1)) :=
      List.range'_append_1
    rw [List.range_eq_range', List.range_eq_range', hn, ← hsplit, Nat.zero_add, List.range'_succ]
  have hfront : ('$' :: quad base ++
      ' ' :: (places code first last base (List.range k) ++ [' '])).length = digitColumn k := by
    simp only [quad, List.length_append, List.length_cons, length_places, digitColumn]
    simp
    omega
  have hrow : ∃ back, (row code set first last base).toList =
      ('$' :: quad base ++ ' ' :: (places code first last base (List.range k) ++ [' '])) ++
        (place code first last base k ++ back) := by
    rw [toList_row, hrange, places_append]
    simp [places]
  obtain ⟨back, hback⟩ := hrow
  rw [hback, List.drop_left' hfront, List.take_left' (length_place code first last base k)]

theorem filter_place (k : Nat) :
    (place code first last base k).filter (· != ' ') =
      if first ≤ base + k ∧ base + k ≤ last then pair (code (base + k)) else [] := by
  rw [place]
  split
  · exact filter_pair _
  · rfl

theorem filter_places (ks : List Nat) :
    (places code first last base ks).filter (· != ' ') =
      ((ks.map (base + ·)).filter fun a => first ≤ a ∧ a ≤ last).flatMap
        fun a => pair (code a) := by
  induction ks with
  | nil => rfl
  | cons k ks ih =>
    have hgap : (if k = 7 then [' '] else []).filter (· != ' ') = [] := by
      split
      · rfl
      · rfl
    have hcons : places code first last base (k :: ks) =
        ' ' :: (place code first last base k ++ if k = 7 then [' '] else []) ++
          places code first last base ks :=
      List.flatMap_cons
    rw [hcons, List.filter_append, List.filter_cons_of_neg (by decide), List.filter_append, hgap,
      List.append_nil, filter_place, ih, List.map_cons]
    by_cases hshown : first ≤ base + k ∧ base + k ≤ last
    · rw [if_pos hshown, List.filter_cons_of_pos (by simpa using hshown), List.flatMap_cons]
    · rw [if_neg hshown, List.filter_cons_of_neg (by simpa using hshown), List.nil_append]

/-- The digits of a row are those of its addresses that are shown. -/
theorem hexDigits_row :
    hexDigits (row code set first last base) =
      ((List.range' base width).filter fun a => first ≤ a ∧ a ≤ last).flatMap
        fun a => pair (code a) := by
  have hfront : ((row code set first last base).toList.take characterColumn).drop 5 =
      ' ' :: (places code first last base (List.range width) ++ [' ', ' ']) := by
    rw [(front_row code set first last base).1]
    rfl
  have haddresses : (List.range width).map (base + ·) = List.range' base width :=
    (List.range'_eq_map_range).symm
  rw [hexDigits, hfront, List.filter_cons_of_neg (by decide), List.filter_append, filter_places,
    haddresses]
  exact List.append_nil _

/-- What a row shows. -/
theorem isRow_row : IsRow code set first last base (row code set first last base) where
  label := by
    rw [toList_row]
    rfl
  byte k hk hshown := by
    rw [place_row code set first last base hk, place, if_pos hshown]
  blank k hk hhidden := by
    rw [place_row code set first last base hk, place, if_neg hhidden]
  characters := by
    refine ⟨(chars code set first last base).rtakeWhile Text.isBlank, ?_, ?_⟩
    · intro c hc
      exact List.mem_rtakeWhile_imp hc
    · rw [(front_row code set first last base).2]
      exact List.rdropWhile_append_rtakeWhile
  trimmed := by
    intro c hc
    rw [(front_row code set first last base).2] at hc
    obtain ⟨hne, rfl⟩ := List.mem_getLast?_eq_getLast hc
    exact eq_false_of_ne_true (List.rdropWhile_last_not _ _ hne)

end Columns

/-- Rows that follow each other show the addresses of all of them. -/
theorem flatMap_range' (n count : Nat) :
    ((List.range' n count).flatMap fun n => List.range' (n * width) width) =
      List.range' (n * width) (count * width) := by
  induction count generalizing n with
  | zero => simp
  | succ count ih =>
    rw [List.range'_succ, List.flatMap_cons, ih, Nat.succ_mul n, Nat.succ_mul count,
      Nat.add_comm (count * width), List.range'_append_1]

/-- Of consecutive addresses, those that are shown. -/
theorem filter_range' {s n first last : Nat} (hfirst : s ≤ first) (hle : first ≤ last)
    (hlast : last < s + n) :
    (List.range' s n).filter (fun a => first ≤ a ∧ a ≤ last) =
      List.range' first (last - first + 1) := by
  have hsplit : List.range' s n = List.range' s (first - s) ++
      (List.range' first (last - first + 1) ++ List.range' (last + 1) (s + n - (last + 1))) := by
    have hbehind := List.range'_append_1 (s := first) (m := last - first + 1)
      (n := s + n - (last + 1))
    have hall := List.range'_append_1 (s := s) (m := first - s) (n := s + n - first)
    have hstart : s + (first - s) = first := by omega
    have hcount : first - s + (s + n - first) = n := by omega
    have hend : first + (last - first + 1) = last + 1 := by omega
    have hrest : last - first + 1 + (s + n - (last + 1)) = s + n - first := by omega
    rw [hend, hrest] at hbehind
    rw [hstart, hcount] at hall
    rw [hbehind, hall]
  have hbefore : (List.range' s (first - s)).filter (fun a => first ≤ a ∧ a ≤ last) = [] := by
    apply List.filter_eq_nil_iff.mpr
    simp only [List.mem_range'_1, decide_eq_true_eq]
    omega
  have hinside : (List.range' first (last - first + 1)).filter (fun a => first ≤ a ∧ a ≤ last) =
      List.range' first (last - first + 1) := by
    apply List.filter_eq_self.mpr
    simp only [List.mem_range'_1, decide_eq_true_eq]
    omega
  have hbehind : (List.range' (last + 1) (s + n - (last + 1))).filter
      (fun a => first ≤ a ∧ a ≤ last) = [] := by
    apply List.filter_eq_nil_iff.mpr
    simp only [List.mem_range'_1, decide_eq_true_eq]
    omega
  rw [hsplit, List.filter_append, List.filter_append, hbefore, hinside, hbehind, List.append_nil,
    List.nil_append]

section Rows

variable (code : Code) (size : Nat) (set : CharacterSet) {start stop : Nat}

/-- Where the rows of a dump start. -/
def bases (first last : Nat) : List Nat :=
  (List.range' (first / width) (last / width + 1 - first / width)).map (· * width)

theorem rows_eq_nil (h : clamp size stop < start) : rows code size set start stop = [] :=
  if_pos h

theorem rows_eq_map (h : start ≤ clamp size stop) :
    rows code size set start stop =
      (bases start (clamp size stop)).map (row code set start (clamp size stop)) := by
  rw [bases, List.map_map]
  exact if_neg (Nat.not_lt_of_le h)

theorem mem_bases {first last b : Nat} :
    b ∈ bases first last ↔ 16 ∣ b ∧ first / 16 * 16 ≤ b ∧ b ≤ last := by
  simp only [bases, width, List.mem_map, List.mem_range'_1]
  constructor
  · rintro ⟨n, hn, rfl⟩
    exact ⟨Nat.dvd_mul_left 16 n, by omega, by omega⟩
  · rintro ⟨⟨n, rfl⟩, hfirst, hlast⟩
    exact ⟨n, by omega, by omega⟩

theorem pairwise_bases (first last : Nat) : (bases first last).Pairwise (· < ·) := by
  apply List.Pairwise.map _ _ (List.pairwise_lt_range')
  intro n n' hn
  exact Nat.mul_lt_mul_of_pos_right hn (by decide)

/-- The digits of all rows are those of the addresses from first to last. -/
theorem flatMap_hexDigits (h : start ≤ clamp size stop) :
    (rows code size set start stop).flatMap hexDigits =
      (List.range' start (clamp size stop - start + 1)).flatMap fun a => pair (code a) := by
  generalize hlast : clamp size stop = last at h
  have hbases : (bases start last).flatMap (fun b => List.range' b width) =
      List.range' (start / width * width)
        ((last / width + 1 - start / width) * width) := by
    rw [bases, List.flatMap_map, flatMap_range']
  have hrows : (bases start last).flatMap
      (fun b => (List.range' b width).filter fun a => start ≤ a ∧ a ≤ last) =
        List.range' start (last - start + 1) := by
    rw [← List.filter_flatMap, hbases]
    apply filter_range'
    · exact Nat.div_mul_le_self start width
    · exact h
    · simp only [width]
      omega
  rw [rows_eq_map code size set (hlast ▸ h), hlast, List.flatMap_map]
  simp only [hexDigits_row]
  rw [← List.flatMap_assoc, hrows]

end Rows

/-- A dump has a row for each multiple of sixteen that its addresses need, in order. In its row a
byte has its digits and its character at a place of its own, and the digits of all rows are those
of the bytes from the first address to the last. -/
theorem rows_show_range (m : Memory) (l : Latches) (set : CharacterSet) (start stop : Nat) :
    let last := min stop (m.size - 1)
    let texts := rows (m.read l) m.size set start stop
    (last < start → texts = []) ∧
      (start ≤ last →
        (∃ bs : List Nat, bs.Pairwise (· < ·) ∧
          (∀ b, b ∈ bs ↔ 16 ∣ b ∧ start / 16 * 16 ≤ b ∧ b ≤ last) ∧
          List.Forall₂ (IsRow (m.read l) set start last) bs texts) ∧
        texts.flatMap hexDigits = (m.readAll l start (last - start + 1)).flatMap pair) := by
  intro last texts
  constructor
  · intro hlt
    exact rows_eq_nil _ _ _ hlt
  · intro hle
    constructor
    · refine ⟨bases start last, pairwise_bases start last, fun b => mem_bases, ?_⟩
      have htexts : texts = (bases start last).map (row (m.read l) set start last) :=
        rows_eq_map _ _ _ hle
      rw [htexts, List.forall₂_map_right_iff, List.forall₂_same]
      intro b _
      exact isRow_row (m.read l) set start last b
    · have hdigits := flatMap_hexDigits (m.read l) m.size set hle
      rw [Memory.readAll, List.flatMap_map]
      exact hdigits

/-- Two bytes in the middle of a row, the second of which cannot be printed. -/
example :
    rows (fun a => if a = 0x402 then 0x41 else 0x0a) 0x500 CharacterSet.ascii 0x402 0x403 =
      ["$0400        41 0a" ++ String.ofList (List.replicate 39 ' ') ++ "  A."] := by
  decide +kernel

end Dump

end EightBit
