import EightBit.Proofs.Words
import EightBit.Register

/-!
Numbers in print.

Every form in which a number is printed is a numeral of it, in any base, with zeros in front or
without, with its digits grouped or not. So each word of a printed number is read as that number.
-/

namespace EightBit.Numeral

/-- The text writes `n` in `count` digits. -/
def Spells (base : Nat) (grouping cs : List Char) (count n : Nat) : Prop :=
  ∃ ds, Writes base grouping ds cs ∧ ds.length = count ∧ Nat.ofDigits base ds.reverse = n

namespace Writes

variable {base : Nat} {grouping grouping' cs cs' : List Char} {ds ds' : List Nat}

theorem mono (h : Writes base grouping ds cs) (hsub : grouping ⊆ grouping') :
    Writes base grouping' ds cs := by
  induction h with
  | nil => exact .nil
  | digit hc _ ih => exact .digit hc ih
  | group hc _ ih => exact .group (hsub hc) ih

theorem append (h : Writes base grouping ds cs) (h' : Writes base grouping ds' cs') :
    Writes base grouping (ds ++ ds') (cs ++ cs') := by
  induction h with
  | nil => exact h'
  | digit hc _ ih => exact .digit hc ih
  | group hc _ ih => exact .group hc ih

end Writes

namespace Spells

variable {base count count' n n' : Nat} {grouping grouping' cs cs' : List Char}

theorem mono (h : Spells base grouping cs count n) (hsub : grouping ⊆ grouping') :
    Spells base grouping' cs count n := by
  obtain ⟨ds, hds, hcount, hn⟩ := h
  exact ⟨ds, hds.mono hsub, hcount, hn⟩

theorem group {c : Char} (h : Spells base grouping cs count n) (hc : c ∈ grouping) :
    Spells base grouping (c :: cs) count n := by
  obtain ⟨ds, hds, hcount, hn⟩ := h
  exact ⟨ds, .group hc hds, hcount, hn⟩

/-- What stands in front counts by the places behind it. -/
theorem append (h : Spells base grouping cs count n) (h' : Spells base grouping cs' count' n') :
    Spells base grouping (cs ++ cs') (count + count') (n * base ^ count' + n') := by
  obtain ⟨ds, hds, rfl, rfl⟩ := h
  obtain ⟨ds', hds', rfl, rfl⟩ := h'
  refine ⟨ds ++ ds', hds.append hds', List.length_append, ?_⟩
  rw [List.reverse_append, Nat.ofDigits_append, List.length_reverse]
  ring

/-- A mark and at least one digit behind it make a numeral. -/
theorem denotes (form : Form) (hform : form ∈ forms)
    (h : Spells form.base form.grouping cs count n) (hcount : 0 < count) :
    Denotes (form.mark ++ cs) n := by
  obtain ⟨ds, hds, rfl, rfl⟩ := h
  exact ⟨form, hform, ds, cs, rfl, hds, List.ne_nil_of_length_pos hcount, rfl⟩

end Spells

section Digits

variable {base : Nat}

theorem spells_digitChar {d : Nat} (h : d < base) : Spells base [] [Nat.digitChar d] 1 d :=
  ⟨[d], .digit ⟨h, .inl rfl⟩ .nil, rfl, by simp⟩

/-- By the recursion of division: the last digit is the remainder. -/
theorem spells_toDigits (hbase : 1 < base) (n : Nat) :
    Spells base [] (Nat.toDigits base n) (Nat.toDigits base n).length n := by
  induction n using Nat.strong_induction_on with
  | h n ih =>
    by_cases hn : n < base
    · rw [Nat.toDigits_of_lt_base hn]
      exact spells_digitChar hn
    · have hlast : Spells base [] [Nat.digitChar (n % base)] 1 (n % base) :=
        spells_digitChar (Nat.mod_lt n (Nat.zero_lt_of_lt hbase))
      have hfront := ih (n / base) (Nat.div_lt_self (by omega) hbase)
      have hboth := hfront.append hlast
      rw [pow_one, Nat.div_add_mod'] at hboth
      rw [Nat.toDigits_of_base_le hbase (Nat.le_of_not_lt hn), List.length_append]
      exact hboth

theorem spells_zeros (hbase : 1 < base) (k : Nat) :
    Spells base [] (List.replicate k '0') k 0 := by
  induction k with
  | zero => exact ⟨[], .nil, rfl, rfl⟩
  | succ k ih =>
    have hzero : Spells base [] ['0'] 1 0 := spells_digitChar (Nat.zero_lt_of_lt hbase)
    have hboth := hzero.append ih
    rwa [Nat.zero_mul, Nat.zero_add, Nat.add_comm 1 k] at hboth

theorem spells_digits (hbase : 1 < base) (width n : Nat) :
    Spells base [] (digits base width n) (digits base width n).length n := by
  have hboth := (spells_zeros hbase (width - (Nat.toDigits base n).length)).append
    (spells_toDigits hbase n)
  rw [Nat.zero_mul, Nat.zero_add] at hboth
  rw [digits, List.length_append, List.length_replicate]
  exact hboth

theorem length_digits_pos (base width n : Nat) : 0 < (digits base width n).length := by
  rw [digits, List.length_append]
  exact Nat.lt_of_lt_of_le Nat.length_toDigits_pos (Nat.le_add_left _ _)

/-- A number that needs no more places than there are gets just these. -/
theorem length_digits (hbase : 1 < base) {width n : Nat} (hwidth : 0 < width)
    (hn : n < base ^ width) : (digits base width n).length = width := by
  have hlength := (Nat.length_toDigits_le_iff hbase hwidth).mpr hn
  rw [digits, List.length_append, List.length_replicate, Nat.sub_add_cancel hlength]

theorem spells_nibble {n : Nat} (hn : n < 16) :
    Spells 2 ['.', ':'] (digits 2 4 n) 4 n := by
  have hspells := spells_digits Nat.one_lt_two 4 n
  rw [length_digits Nat.one_lt_two (by decide) hn] at hspells
  exact hspells.mono (List.nil_subset _)

theorem spells_nibbles (v : UInt8) : Spells 2 ['.', ':'] (nibbles v) 8 v.toNat := by
  have hhigh : v.toNat / 16 < 16 := Nat.div_lt_of_lt_mul v.toNat_lt
  have hboth := (spells_nibble hhigh).append
    ((spells_nibble (Nat.mod_lt v.toNat (by decide))).group (c := '.') (by decide))
  rw [show 2 ^ 4 = 16 from rfl, Nat.div_add_mod'] at hboth
  exact hboth

end Digits

theorem denotes_hex (width n : Nat) : Denotes (hex width n).toList n := by
  rw [hex, String.toList_ofList]
  exact (spells_digits (by decide : 1 < 16) width n).denotes ⟨['$'], 16, []⟩
    (by simp [forms]) (length_digits_pos 16 width n)

theorem denotes_decimal (n : Nat) : Denotes (decimal n).toList n := by
  rw [decimal, String.toList_ofList]
  exact (spells_digits (by decide : 1 < 10) 0 n).denotes ⟨['+'], 10, []⟩
    (by simp [forms]) (length_digits_pos 10 0 n)

/-- Binary digits without grouping, as many as are asked for. -/
theorem denotes_binaryDigits (width n : Nat) :
    Denotes (String.ofList ('%' :: digits 2 width n)).toList n := by
  rw [String.toList_ofList]
  exact ((spells_digits Nat.one_lt_two width n).mono (List.nil_subset _)).denotes
    ⟨['%'], 2, ['.', ':']⟩ (by simp [forms]) (length_digits_pos 2 width n)

theorem denotes_binaryByte (v : UInt8) : Denotes (binaryByte v).toList v.toNat := by
  rw [binaryByte, String.toList_ofList]
  exact (spells_nibbles v).denotes ⟨['%'], 2, ['.', ':']⟩ (by simp [forms]) (by decide)

theorem denotes_binaryWord (v : UInt16) : Denotes (binaryWord v).toList v.toNat := by
  have hhigh : (UInt8.ofNat (v.toNat / 256)).toNat = v.toNat / 256 :=
    UInt8.toNat_ofNat_of_lt' (Nat.div_lt_of_lt_mul v.toNat_lt)
  have hlow : (UInt8.ofNat v.toNat).toNat = v.toNat % 256 := UInt8.toNat_ofNat'
  have hboth := (spells_nibbles (UInt8.ofNat (v.toNat / 256))).append
    ((spells_nibbles (UInt8.ofNat v.toNat)).group (c := ':') (by decide))
  rw [hhigh, hlow, show 2 ^ 8 = 256 from rfl, Nat.div_add_mod'] at hboth
  rw [binaryWord, String.toList_ofList]
  exact hboth.denotes ⟨['%'], 2, ['.', ':']⟩ (by simp [forms]) (by decide)

theorem Denotes.parse {text : String} {n : Nat} (h : Denotes text.toList n) (hn : n < 2 ^ 32) :
    parse text 32 = .ok n :=
  (parse_eq_ok_iff text 32 n).mpr ⟨h, hn, fun hbits => absurd hbits (Nat.lt_irrefl 32)⟩

theorem Denotes.parseByte {text : String} {v : UInt8} (h : Denotes text.toList v.toNat) :
    parseByte text = .ok v := by
  have hlt : v.toNat < 2 ^ 8 := v.toNat_lt
  have hread := (parse_eq_ok_iff text 8 v.toNat).mpr
    ⟨h, hlt.trans (by decide), fun _ => hlt⟩
  rw [Numeral.parseByte, hread, Except.map, UInt8.ofNat_toNat]

theorem Denotes.parseWord {text : String} {v : UInt16} (h : Denotes text.toList v.toNat) :
    parseWord text = .ok v := by
  have hlt : v.toNat < 2 ^ 16 := v.toNat_lt
  have hread := (parse_eq_ok_iff text 16 v.toNat).mpr
    ⟨h, hlt.trans (by decide), fun _ => hlt⟩
  rw [Numeral.parseWord, hread, Except.map, UInt16.ofNat_toNat]

theorem words_describeByte (v : UInt8) :
    Text.words (describeByte v) =
      [hexByte v, decimal v.toNat, String.ofList ('%' :: digits 2 8 v.toNat)] := by
  have hline : describeByte v = Text.line
      [hexByte v, decimal v.toNat, String.ofList ('%' :: digits 2 8 v.toNat)] := by
    simp [describeByte, Text.line, String.append_assoc]
  rw [hline, Text.words_line]
  simp only [List.forall_mem_cons]
  exact ⟨(denotes_hex 2 v.toNat).isWord, (denotes_decimal v.toNat).isWord,
    (denotes_binaryDigits 8 v.toNat).isWord, List.forall_mem_nil _⟩

theorem words_describeWord (v : UInt16) :
    Text.words (describeWord v) = [hexWord v, decimal v.toNat] := by
  have hline : describeWord v = Text.line [hexWord v, decimal v.toNat] := by
    simp [describeWord, Text.line, String.append_assoc]
  rw [hline, Text.words_line]
  simp only [List.forall_mem_cons]
  exact ⟨(denotes_hex 4 v.toNat).isWord, (denotes_decimal v.toNat).isWord, List.forall_mem_nil _⟩

theorem denotes_of_mem_describeByte {v : UInt8} {word : String}
    (h : word ∈ Text.words (describeByte v)) : Denotes word.toList v.toNat := by
  rw [words_describeByte] at h
  simp only [List.mem_cons, List.not_mem_nil, or_false] at h
  rcases h with rfl | rfl | rfl
  · exact denotes_hex 2 v.toNat
  · exact denotes_decimal v.toNat
  · exact denotes_binaryDigits 8 v.toNat

theorem denotes_of_mem_describeWord {v : UInt16} {word : String}
    (h : word ∈ Text.words (describeWord v)) : Denotes word.toList v.toNat := by
  rw [words_describeWord] at h
  simp only [List.mem_cons, List.not_mem_nil, or_false] at h
  rcases h with rfl | rfl
  · exact denotes_hex 4 v.toNat
  · exact denotes_decimal v.toNat

end EightBit.Numeral
