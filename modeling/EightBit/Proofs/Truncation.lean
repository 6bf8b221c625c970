import EightBit.Proofs.Restore
import EightBit.Proofs.RoundTrip

/-!
Streams that end too early.

A buffer that is too small for the fields written to it holds the front of what they are written
as. A reader of such a front gives back the fields that are whole in it. Both report the first
field for which they run short, and do nothing from there on.
-/

namespace EightBit

open EightBit.Field (encodeAll)

namespace Writer

def bounded (limit : Nat) : Writer := ⟨{ limit := some limit }, none⟩

section Errors

variable {w : Writer} {e : StreamError}

theorem piece_of_error (h : w.error = some e) (bytes : List UInt8) : w.piece bytes = w := by
  simp only [piece, h]

theorem foldl_piece_of_error (h : w.error = some e) (pieces : List (List UInt8)) :
    pieces.foldl piece w = w := by
  induction pieces with
  | nil => rfl
  | cons bytes pieces ih => rw [List.foldl_cons, piece_of_error h, ih]

/-- A writer that has failed stays as it is. -/
theorem put_of_error (h : w.error = some e) (f : Field) : w.put f = w := by
  have hpieces := foldl_piece_of_error h f.pieces
  cases f with
  | str v =>
    simp only [put]
    split
    · exact hpieces
    · cases w
      subst h
      rfl
  | _ => exact hpieces

theorem putAll_of_error (h : w.error = some e) (fs : List Field) : w.putAll fs = w := by
  rw [putAll]
  induction fs with
  | nil => rfl
  | cons f fs ih => rw [List.foldl_cons, put_of_error h, ih]

end Errors

section Room

variable {w : Writer} (herror : w.error = none)
include herror

theorem piece_of_unlimited (h : w.sink.limit = none) (bytes : List UInt8) :
    w.piece bytes = ⟨⟨w.sink.bytes ++ bytes, none⟩, none⟩ := by
  simp [piece, Sink.write, Sink.room, h, herror]

/-- What there is room for is written even if it is not all. -/
theorem piece_of_limited {limit : Nat} (h : w.sink.limit = some limit) (bytes : List UInt8) :
    w.piece bytes = ⟨⟨w.sink.bytes ++ bytes.take (limit - w.sink.bytes.size), some limit⟩,
      if bytes.length ≤ limit - w.sink.bytes.size then none else some (.io .shortWrite)⟩ := by
  have hroom : w.sink.room bytes.length = min bytes.length (limit - w.sink.bytes.size) := by
    simp only [Sink.room, h]
  have htake : bytes.take (min bytes.length (limit - w.sink.bytes.size)) =
      bytes.take (limit - w.sink.bytes.size) := by
    rw [List.take_eq_take_iff]
    omega
  simp only [piece, herror, Sink.write, hroom, htake, h]
  split_ifs with hfits
  · rw [Nat.min_eq_left hfits, beq_self_eq_true]
  · have hshort : (min bytes.length (limit - w.sink.bytes.size) == bytes.length) = false := by
      rw [beq_eq_false_iff_ne]
      omega
    rw [hshort]

end Room

theorem putAll_append (w : Writer) (front back : List Field) :
    w.putAll (front ++ back) = (w.putAll front).putAll back :=
  List.foldl_append

theorem put_of_not_writable (w : Writer) {f : Field} (h : ¬ f.Writable) :
    (w.put f).sink = w.sink ∧ (w.put f).error ≠ none := by
  cases f with
  | str v =>
    have hv : ¬ v.utf8ByteSize < UInt32.size := h
    have hput : w.put (.str v) =
        { w with error := w.error.or (some (.lengthOverflow v.utf8ByteSize)) } := by
      simp only [put, if_neg hv]
    rw [hput]
    exact ⟨rfl, by simp⟩
  | _ => exact absurd trivial h

/-- Without a limit the fields in front of the first that is refused are written, and there is an
error if one is refused. -/
theorem putAll_written (fs : List Field) :
    ∃ written refused, fs = written ++ refused ∧ (∀ f ∈ written, f.Writable) ∧
      (({} : Writer).putAll fs).sink.bytes.toList = encodeAll written ∧
      ((({} : Writer).putAll fs).error = none → refused = []) := by
  have hsplit := fs.takeWhile_append_dropWhile (p := fun f => decide f.Writable)
  have hwritten : ∀ f ∈ fs.takeWhile fun f => decide f.Writable, f.Writable := by
    intro f hf
    exact of_decide_eq_true (List.all_eq_true.mp List.all_takeWhile f hf)
  refine ⟨_, _, hsplit.symm, hwritten, ?_⟩
  rw [← hsplit, putAll_append, hsplit, putAll_empty hwritten]
  cases hrefused : fs.dropWhile fun f => decide f.Writable with
  | nil => exact ⟨rfl, fun _ => rfl⟩
  | cons f refused =>
    have hf : ¬ f.Writable := by
      have hhead := fs.head?_dropWhile_not fun f => decide f.Writable
      rw [hrefused] at hhead
      simpa using hhead
    obtain ⟨hsink, herror⟩ :=
      (holding (encodeAll (fs.takeWhile fun f => decide f.Writable))).put_of_not_writable hf
    obtain ⟨e, he⟩ := Option.ne_none_iff_exists'.mp herror
    rw [← List.singleton_append, putAll_append, putAll_of_error (w := putAll _ [f]) he]
    exact ⟨congrArg (·.bytes.toList) hsink, fun h => absurd h herror⟩

/-- What a bounded writer has of what is written without a limit. -/
structure Fills (limit : Nat) (whole kept : Writer) : Prop where
  unlimited : whole.sink.limit = none
  limited : kept.sink.limit = some limit
  bytes : kept.sink.bytes.toList = whole.sink.bytes.toList.take limit
  error : kept.error =
    if whole.sink.bytes.toList.length ≤ limit then whole.error else some (.io .shortWrite)

namespace Fills

variable {limit : Nat} {whole kept : Writer}

theorem initial (limit : Nat) : Fills limit {} (bounded limit) := by
  constructor <;> simp [bounded]

theorem piece (h : Fills limit whole kept) (bytes : List UInt8) :
    Fills limit (whole.piece bytes) (kept.piece bytes) := by
  cases hwhole : whole.error with
  | some e =>
    obtain ⟨e', hkept⟩ : ∃ e', kept.error = some e' := by
      rw [h.error, hwhole]
      split <;> exact ⟨_, rfl⟩
    rw [piece_of_error hwhole, piece_of_error hkept]
    exact h
  | none =>
    have herror := h.error
    rw [hwhole] at herror
    rw [piece_of_unlimited hwhole h.unlimited]
    split at herror
    · next hroom =>
      -- Up to here both have the same bytes.
      have hbytes := h.bytes
      rw [List.take_of_length_le hroom] at hbytes
      have hsize : kept.sink.bytes.size = whole.sink.bytes.toList.length := by
        rw [← hbytes, Array.length_toList]
      rw [piece_of_limited herror h.limited, hsize]
      refine ⟨rfl, rfl, ?_, ?_⟩
      · rw [Array.toList_appendList, Array.toList_appendList, hbytes, List.take_append,
          List.take_of_length_le hroom]
      · have hfits : bytes.length ≤ limit - whole.sink.bytes.toList.length ↔
            (whole.sink.bytes ++ bytes).toList.length ≤ limit := by
          rw [Array.toList_appendList, List.length_append]
          omega
        simp only [hfits]
    · next hfull =>
      rw [piece_of_error herror]
      refine ⟨rfl, h.limited, ?_, ?_⟩
      · rw [Array.toList_appendList, List.take_append_of_le_length (Nat.le_of_not_le hfull)]
        exact h.bytes
      · rw [Array.toList_appendList, List.length_append, herror, if_neg (by omega)]

theorem putAll_of_pieces (h : Fills limit whole kept) (pieces : List (List UInt8)) :
    Fills limit (pieces.foldl Writer.piece whole) (pieces.foldl Writer.piece kept) := by
  induction pieces generalizing whole kept with
  | nil => exact h
  | cons bytes pieces ih => exact ih (h.piece bytes)

theorem put (h : Fills limit whole kept) (f : Field) : Fills limit (whole.put f) (kept.put f) := by
  cases f with
  | str v =>
    simp only [Writer.put]
    split
    · exact h.putAll_of_pieces _
    · refine ⟨h.unlimited, h.limited, h.bytes, ?_⟩
      rw [h.error]
      split <;> rfl
  | _ => exact h.putAll_of_pieces _

theorem putAll (h : Fills limit whole kept) (fs : List Field) :
    Fills limit (whole.putAll fs) (kept.putAll fs) := by
  induction fs generalizing whole kept with
  | nil => exact h
  | cons f fs ih => exact ih (h.put f)

end Fills

/-- A buffer that fields are written to holds the front of what they are written as, as far as
there is room, and zeros behind it. Nothing is reported before the first field that does not fit;
from then on the error stays, and no later field is written. So all has been written if there is no
error. -/
theorem putAll_bounded (fs : List Field) (limit : Nat) :
    let whole := ({} : Writer).putAll fs
    let encoded := whole.sink.bytes.toList
    let kept := (bounded limit).putAll fs
    kept.sink.buffer = encoded.take limit ++ List.replicate (limit - encoded.length) 0 ∧
      kept.error = (if encoded.length ≤ limit then whole.error else some (.io .shortWrite)) ∧
      (∀ front back e, fs = front ++ back → ((bounded limit).putAll front).error = some e →
        kept = (bounded limit).putAll front) ∧
      (whole.error = none →
        (∀ front back, fs = front ++ back → ((bounded limit).putAll front).error =
          if (encodeAll front).length ≤ limit then none else some (.io .shortWrite)) ∧
        (kept.error = none ↔ encoded.length ≤ limit)) := by
  intro whole encoded kept
  have hfills : Fills limit whole kept := (Fills.initial limit).putAll fs
  refine ⟨?_, hfills.error, ?_, ?_⟩
  · have hsize : kept.sink.bytes.size = min limit encoded.length := by
      rw [← Array.length_toList, hfills.bytes, List.length_take]
    have hrest : limit - min limit encoded.length = limit - encoded.length := by omega
    rw [Sink.buffer, hfills.limited, hfills.bytes, hsize, Option.getD_some, hrest]
  · rintro front back e rfl herror
    exact (putAll_append _ front back).trans (putAll_of_error herror back)
  · intro hwhole
    have hwritable : ∀ f ∈ fs, f.Writable := by
      obtain ⟨written, refused, hfs, hwritten, -, hnone⟩ := putAll_written fs
      rw [hfs, hnone hwhole, List.append_nil]
      exact hwritten
    constructor
    · rintro front back rfl
      have hfront : ∀ f ∈ front, f.Writable := fun f hf => hwritable f (List.mem_append_left _ hf)
      have herror := ((Fills.initial limit).putAll front).error
      rw [putAll_empty hfront] at herror
      exact herror
    · rw [hfills.error, hwhole]
      split
      · next hroom => exact iff_of_true rfl hroom
      · next hroom => exact iff_of_false (Option.some_ne_none _) hroom

end Writer

/-- What is reported of a field of which only so many bytes are there. The body of a string is not
asked for as a whole, other than everything else. -/
def Field.shortage : Field → Nat → IoFailure
  | .str _, n => if n < 4 then .shortRead else .unexpectedEnd
  | _, _ => .shortRead

namespace Reader

/-- Bytes are taken all or not at all. -/
theorem error_take_of_cut {bytes : List UInt8} {k n : Nat} (hk : k < n) :
    ((ofBytes (bytes.take k)).take n).2.error = some (.io .shortRead) := by
  have hshort : ((ofBytes (bytes.take k)).rest.take n).length ≠ n := by
    rw [ofBytes, List.length_take, List.length_take]
    omega
  have htake : (ofBytes (bytes.take k)).take n =
      (List.replicate n 0, (ofBytes (bytes.take k)).fail (.io .shortRead)) := if_neg hshort
  rw [htake]
  rfl

theorem error_str_of_cut {v : String} (hv : v.utf8ByteSize < UInt32.size) {k : Nat}
    (hk : k < (Field.str v).encode.length) :
    (ofBytes ((Field.str v).encode.take k)).str.2.error =
      some (.io ((Field.str v).shortage k)) := by
  have hlength : (Field.u32 (UInt32.ofNat v.utf8ByteSize)).encode.length = 4 := rfl
  have hbody : v.toByteArray.data.toList.length = v.utf8ByteSize := by simp
  rw [Field.encode_str hv, List.length_append, hlength, hbody] at hk
  rw [Field.encode_str hv, Field.shortage]
  split
  · next hcut =>
    rw [List.take_append_of_le_length (Nat.le_of_lt hcut)]
    generalize (Field.u32 (UInt32.ofNat v.utf8ByteSize)).encode = length
    have herror : (ofBytes (length.take k)).u32.2.error = some (.io .shortRead) :=
      error_take_of_cut hcut
    simp only [str, herror]
  · next hcut =>
    rw [List.take_append, hlength, List.take_of_length_le (by omega)]
    have hshort : ((ofBytes (v.toByteArray.data.toList.take (k - 4))).rest.take
        v.utf8ByteSize).length ≠ v.utf8ByteSize := by
      rw [ofBytes, List.length_take, List.length_take, hbody]
      omega
    simp only [str, u32_ofBytes, UInt32.toNat_ofNat_of_lt' hv]
    rw [if_neg hshort]
    rfl

/-- Reading fails at a field that is cut. -/
theorem error_field_of_cut {f : Field} (hf : f.Writable) {k : Nat} (hk : k < f.encode.length) :
    ((ofBytes (f.encode.take k)).field f.type).2.error = some (.io (f.shortage k)) := by
  cases f with
  | bool v =>
    obtain rfl : k = 0 := by simpa [Field.encode, Field.pieces] using hk
    rfl
  | u8 v => exact error_take_of_cut hk
  | u16 v => exact error_take_of_cut hk
  | u32 v => exact error_take_of_cut hk
  | u64 v => exact error_take_of_cut hk
  | i8 v => exact error_take_of_cut hk
  | i16 v => exact error_take_of_cut hk
  | i32 v => exact error_take_of_cut hk
  | i64 v => exact error_take_of_cut hk
  | str v => exact error_str_of_cut hf hk
  | bytes v =>
    rw [Field.encode_bytes] at hk ⊢
    exact error_take_of_cut hk

/-- There is a first field that is cut, and the fields in front of it are read as they are. -/
theorem fields_of_cut {fs : List Field} (h : ∀ f ∈ fs, f.Writable) {k : Nat}
    (hk : k < (encodeAll fs).length) :
    ∃ front f back, fs = front ++ f :: back ∧ (encodeAll front).length ≤ k ∧
      k < (encodeAll (front ++ [f])).length ∧
      (ofBytes ((encodeAll fs).take k)).fields (front.map Field.type) =
        (front, ofBytes (f.encode.take (k - (encodeAll front).length))) := by
  induction fs generalizing k with
  | nil => exact absurd hk (Nat.not_lt_zero k)
  | cons f fs ih =>
    obtain ⟨hf, hfs⟩ := List.forall_mem_cons.mp h
    rw [Field.encodeAll_cons, List.length_append] at hk
    rw [Field.encodeAll_cons]
    by_cases hcut : k < f.encode.length
    · refine ⟨[], f, fs, rfl, Nat.zero_le k, by simpa using hcut, ?_⟩
      rw [List.take_append_of_le_length (Nat.le_of_lt hcut)]
      rfl
    · obtain ⟨front, g, back, rfl, hle, hlt, hread⟩ := ih hfs (k := k - f.encode.length) (by omega)
      refine ⟨f :: front, g, back, rfl, ?_, ?_, ?_⟩
      · rw [Field.encodeAll_cons, List.length_append]
        omega
      · rw [List.cons_append, Field.encodeAll_cons, List.length_append]
        omega
      · rw [List.take_append, List.take_of_length_le (Nat.le_of_not_lt hcut), List.map_cons,
          Field.encodeAll_cons, List.length_append, ← Nat.sub_sub]
        simp only [fields, field_ofBytes hf, hread]

theorem fields_append (r : Reader) (ts ts' : List FieldType) :
    r.fields (ts ++ ts') =
      ((r.fields ts).1 ++ ((r.fields ts).2.fields ts').1, ((r.fields ts).2.fields ts').2) := by
  induction ts generalizing r with
  | nil => rfl
  | cons t ts ih => simp only [List.cons_append, fields, ih]

theorem fields_of_error {r : Reader} {e : StreamError} (h : r.error = some e)
    (ts : List FieldType) : r.fields ts = (ts.map FieldType.zero, r) := by
  induction ts with
  | nil => rfl
  | cons t ts ih => simp only [fields, field_of_error h, ih, List.map_cons]

end Reader

/-- Of fields whose bytes break off, those in front of the first that is cut are read back. That one
is reported as running short, and it and all behind it are given as zero. Reading on changes nothing
any more. -/
theorem fields_truncated (fs : List Field) {k : Nat}
    (hk : k < (({} : Writer).putAll fs).sink.bytes.toList.length) :
    ∃ front f back r, fs = front ++ f :: back ∧
      (encodeAll front).length ≤ k ∧ k < (encodeAll (front ++ [f])).length ∧
      let bytes := (({} : Writer).putAll fs).sink.bytes.toList.take k
      let left := k - (encodeAll front).length
      (Reader.ofBytes bytes).fields (front.map Field.type) =
          (front, Reader.ofBytes (f.encode.take left)) ∧
        (Reader.ofBytes (f.encode.take left)).field f.type = (f.type.zero, r) ∧
        r.error = some (.io (f.shortage left)) ∧
        (Reader.ofBytes bytes).fields (fs.map Field.type) =
          (front ++ (f :: back).map (·.type.zero), r) ∧
        ∀ ts, r.fields ts = (ts.map FieldType.zero, r) := by
  obtain ⟨written, refused, rfl, hwritten, hbytes, -⟩ := Writer.putAll_written fs
  rw [hbytes] at hk ⊢
  obtain ⟨front, f, back, rfl, hle, hlt, hfront⟩ := Reader.fields_of_cut hwritten hk
  have hf : f.Writable := hwritten f (by simp)
  have hcut : k - (encodeAll front).length < f.encode.length := by
    rw [Field.encodeAll_append, List.length_append] at hlt
    simp only [Field.encodeAll_cons, Field.encodeAll_nil, List.append_nil] at hlt
    omega
  obtain ⟨r, hr⟩ : ∃ r, r = ((Reader.ofBytes (f.encode.take (k - (encodeAll front).length))).field
    f.type).2 := ⟨_, rfl⟩
  have herror := Reader.error_field_of_cut hf hcut
  have hfield := Reader.field_error herror
  rw [← hr] at herror
  have hstays := Reader.fields_of_error herror
  refine ⟨front, f, back ++ refused, r, by simp, hle, hlt, hfront, Prod.ext hfield hr.symm, herror,
    ?_, hstays⟩
  have htypes : (front ++ f :: back ++ refused).map Field.type =
      front.map Field.type ++ f.type :: (back ++ refused).map Field.type := by simp
  have hbehind := hstays ((back ++ refused).map Field.type)
  rw [htypes, Reader.fields_append, hfront]
  simp only [Reader.fields, hfield, ← hr, hbehind]
  simp [Function.comp_def]

/-- The bytes break off within the only letter of the second string. -/
theorem fields_truncated_in_letter :
    12 < (({} : Writer).putAll assorted).sink.bytes.toList.length ∧
      ∃ r, (Reader.ofBytes ((({} : Writer).putAll assorted).sink.bytes.toList.take 12)).fields
          (assorted.map Field.type) =
          ([.str "", .i16 (-2), .bytes [], .bool true, .str "", .u64 0, .i8 0, .u16 0, .i64 0,
            .bytes [0, 0], .u32 0, .i32 0, .u8 0], r) ∧
        r.error = some (.io .unexpectedEnd) ∧ ∀ ts, r.fields ts = (ts.map FieldType.zero, r) := by
  have hlength : 12 < (({} : Writer).putAll assorted).sink.bytes.toList.length := by decide
  have hread : (Reader.ofBytes
      ((({} : Writer).putAll assorted).sink.bytes.toList.take 12)).fields
      (assorted.map Field.type) =
        ([.str "", .i16 (-2), .bytes [], .bool true, .str "", .u64 0, .i8 0, .u16 0, .i64 0,
          .bytes [0, 0], .u32 0, .i32 0, .u8 0], ⟨[], some (.io .unexpectedEnd)⟩) := by rfl
  obtain ⟨front, f, back, r, -, -, -, -, -, -, hfields, hstays⟩ := fields_truncated assorted hlength
  obtain ⟨-, rfl⟩ := Prod.mk.inj (hread.symm.trans hfields)
  exact ⟨hlength, _, hread, rfl, hstays⟩

end EightBit
