import EightBit.Proofs.Numeral
import EightBit.Text

/-!
Lines put together from words, and the words that numerals are.

What is typed is taken apart into words again. A line of words with a space between any two of them
comes apart into these words, and every numeral is a word.
-/

namespace EightBit

namespace Text

/-- A text that is one word: it is not empty and has no blanks. -/
structure IsWord (text : String) : Prop where
  ne_nil : text.toList ≠ []
  solid : ∀ c ∈ text.toList, isBlank c = false

/-- Only the characters of the text are looked at. -/
instance (text : String) : Decidable (IsWord text) :=
  decidable_of_iff (text.toList ≠ [] ∧ text.toList.all (!isBlank ·))
    ⟨fun ⟨h, h'⟩ => ⟨h, by simpa using h'⟩, fun ⟨h, h'⟩ => ⟨h, by simpa using h'⟩⟩

def line (ws : List String) : String := " ".intercalate ws

theorem wordsFrom_append {cs : List Char} (h : ∀ c ∈ cs, isBlank c = false)
    (word rest : List Char) :
    wordsFrom word (cs ++ rest) = wordsFrom (cs.reverse ++ word) rest := by
  induction cs generalizing word with
  | nil => rfl
  | cons c cs ih =>
    obtain ⟨hc, hcs⟩ := List.forall_mem_cons.mp h
    rw [List.cons_append, wordsFrom, if_neg (by simp [hc]), ih hcs, List.reverse_cons,
      List.append_assoc, List.singleton_append]

/-- The unfinished word ends at a blank. -/
theorem wordsFrom_space {cs : List Char} (h : cs ≠ []) (rest : List Char) :
    wordsFrom cs.reverse (' ' :: rest) = cs :: wordsFrom [] rest := by
  have hblank : isBlank ' ' = true := rfl
  rw [wordsFrom, if_pos hblank, if_neg (by simpa using h), List.reverse_reverse]

theorem wordsFrom_intercalate {css : List (List Char)}
    (h : ∀ cs ∈ css, cs ≠ [] ∧ ∀ c ∈ cs, isBlank c = false) :
    wordsFrom [] ([' '].intercalate css) = css := by
  induction css with
  | nil => rfl
  | cons cs css ih =>
    obtain ⟨⟨hne, hsolid⟩, hcss⟩ := List.forall_mem_cons.mp h
    cases css with
    | nil =>
      have hword := wordsFrom_append hsolid [] []
      rw [List.append_nil, List.append_nil] at hword
      rw [List.intercalate_singleton, hword, wordsFrom, if_neg (by simpa using hne),
        List.reverse_reverse]
    | cons ds css =>
      rw [List.intercalate_cons_cons, List.append_assoc, wordsFrom_append hsolid,
        List.append_nil, List.singleton_append, wordsFrom_space hne, ih hcss]

theorem words_line {ws : List String} (h : ∀ w ∈ ws, IsWord w) : words (line ws) = ws := by
  have hsolid : ∀ cs ∈ ws.map String.toList, cs ≠ [] ∧ ∀ c ∈ cs, isBlank c = false := by
    intro cs hcs
    obtain ⟨w, hw, rfl⟩ := List.mem_map.mp hcs
    exact ⟨(h w hw).ne_nil, (h w hw).solid⟩
  have hspace : " ".toList = [' '] := rfl
  rw [words, line, String.toList_intercalate, hspace, wordsFrom_intercalate hsolid, List.map_map]
  simp

end Text

namespace Numeral

theorem isBlank_of_isDigit {base d : Nat} {c : Char} (hbase : base ≤ 16) (h : IsDigit base d c) :
    Text.isBlank c = false := by
  have hdigits : ∀ d < 16, Text.isBlank (Nat.digitChar d) = false ∧
      Text.isBlank (Nat.digitChar d).toUpper = false := by
    decide
  obtain ⟨hlower, hupper⟩ := hdigits d (h.lt.trans_le hbase)
  rcases h.eq with rfl | rfl
  · exact hlower
  · exact hupper

theorem Denotes.isWord {text : String} {v : Nat} (h : Denotes text.toList v) :
    Text.IsWord text := by
  obtain ⟨form, hform, ds, cs, htext, hcs, hne, -⟩ := h
  have hmarks : ∀ form ∈ forms, form.mark.all (!Text.isBlank ·) ∧
      form.grouping.all (!Text.isBlank ·) := by
    decide
  simp only [List.all_eq_true, Bool.not_eq_true'] at hmarks
  obtain ⟨hmark, hgrouping⟩ := hmarks form hform
  have hsolid : ∀ c ∈ cs, Text.isBlank c = false :=
    hcs.forall_mem (fun c d hc => isBlank_of_isDigit (base_le_of_mem_forms form hform) hc) hgrouping
  constructor
  · rw [htext]
    intro hempty
    rw [(List.append_eq_nil_iff.mp hempty).2] at hcs
    cases hcs
    exact hne rfl
  · rw [htext]
    intro c hc
    exact (List.mem_append.mp hc).elim (hmark c) (hsolid c)

theorem isWord_of_parseAddress {text : String} {v : Nat} (h : parseAddress text = .ok v) :
    Text.IsWord text :=
  ((parseAddress_eq_ok_iff text v).mp h).denotes.isWord

end Numeral

end EightBit
