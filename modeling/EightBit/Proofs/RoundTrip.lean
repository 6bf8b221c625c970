import EightBit.Proofs.Stream

/-!
Fields and bytes determine each other.

Fields that are written are read back, whatever lies behind them. Bytes that are read without an
error are the bytes that the values are written as, so that no other bytes read as the same values.
-/

namespace EightBit

theorem ofLittleEndian_lt (bs : List UInt8) : ofLittleEndian bs < 1 <<< (8 * bs.length) := by
  induction bs with
  | nil => decide
  | cons b bs ih =>
    have hb : b.toNat < 256 := b.toNat_lt
    rw [ofLittleEndian, List.length_cons, shiftLeft_byte]
    omega

/-- The bytes of a number are the ones that denote it. -/
theorem littleEndian_ofLittleEndian (bs : List UInt8) :
    littleEndian bs.length (ofLittleEndian bs) = bs := by
  induction bs with
  | nil => rfl
  | cons b bs ih =>
    have hb : b.toNat < 256 := b.toNat_lt
    have hlow : UInt8.ofNat (b.toNat + 256 * ofLittleEndian bs) = b :=
      UInt8.toNat_inj.mp (by rw [UInt8.toNat_ofNat']; omega)
    have hhigh : (b.toNat + 256 * ofLittleEndian bs) / 256 = ofLittleEndian bs := by omega
    simp only [List.length_cons, littleEndian, ofLittleEndian, hlow, hhigh, ih]

theorem fromUTF8?_toByteArray (s : String) : String.fromUTF8? ⟨s.toByteArray.data⟩ = some s := by
  have hvalid : ByteArray.IsValidUTF8 ⟨s.toByteArray.data⟩ := s.isValidUTF8
  simp only [String.fromUTF8?, hvalid, ↓reduceDIte]
  rfl

theorem toByteArray_of_fromUTF8? {bytes : ByteArray} {s : String}
    (h : String.fromUTF8? bytes = some s) : s.toByteArray = bytes := by
  simp only [String.fromUTF8?] at h
  split at h
  · rw [← Option.some.inj h]
    rfl
  · contradiction

/-- A string is written as its length, as any number of four bytes, and its body. -/
theorem Field.encode_str {s : String} (h : s.utf8ByteSize < UInt32.size) :
    (Field.str s).encode =
      (Field.u32 (UInt32.ofNat s.utf8ByteSize)).encode ++ s.toByteArray.data.toList := by
  simp [encode, pieces, UInt32.toNat_ofNat_of_lt' h]

namespace Reader

@[simp] theorem u64_ofBytes (v : UInt64) (rest : List UInt8) :
    (ofBytes ((Field.u64 v).encode ++ rest)).u64 = (v, ofBytes rest) := by
  simp [Field.encode, Field.pieces, u64, number_ofBytes]

theorem str_ofBytes {s : String} (h : s.utf8ByteSize < UInt32.size) (rest : List UInt8) :
    (ofBytes ((Field.str s).encode ++ rest)).str = (s, ofBytes rest) := by
  have hbody : s.toByteArray.data.toList.length = s.utf8ByteSize := by simp
  have htake : (s.toByteArray.data.toList ++ rest).take s.utf8ByteSize =
      s.toByteArray.data.toList := by rw [← hbody, List.take_left]
  have hdrop : (s.toByteArray.data.toList ++ rest).drop s.utf8ByteSize = rest := by
    rw [← hbody, List.drop_left]
  rw [Field.encode_str h, List.append_assoc]
  simp only [str, u32_ofBytes, UInt32.toNat_ofNat_of_lt' h]
  simp only [ofBytes, htake, hdrop, hbody, ↓reduceIte, Array.toArray_toList,
    fromUTF8?_toByteArray]

/-- A field that is read where it was written is the field that was written. -/
theorem field_ofBytes {f : Field} (h : f.Writable) (rest : List UInt8) :
    (ofBytes (f.encode ++ rest)).field f.type = (f, ofBytes rest) := by
  -- A signed number is written as the unsigned one of the same bits.
  cases f with
  | bool v => simp only [field, Field.type, bool_ofBytes]
  | u8 v => simp only [field, Field.type, u8_ofBytes]
  | u16 v => simp only [field, Field.type, u16_ofBytes]
  | u32 v => simp only [field, Field.type, u32_ofBytes]
  | u64 v => simp only [field, Field.type, u64_ofBytes]
  | i8 v =>
    have hv : (Field.i8 v).encode = (Field.u8 v.toUInt8).encode := rfl
    simp [field, Field.type, hv]
  | i16 v =>
    have hv : (Field.i16 v).encode = (Field.u16 v.toUInt16).encode := rfl
    simp [field, Field.type, hv]
  | i32 v =>
    have hv : (Field.i32 v).encode = (Field.u32 v.toUInt32).encode := rfl
    simp [field, Field.type, hv]
  | i64 v =>
    have hv : (Field.i64 v).encode = (Field.u64 v.toUInt64).encode := rfl
    simp [field, Field.type, hv]
  | str v => simp only [field, Field.type, str_ofBytes h]
  | bytes v => simp only [field, Field.type, Field.encode_bytes, take_ofBytes]

theorem fields_encodeAll {fs : List Field} (h : ∀ f ∈ fs, f.Writable) (rest : List UInt8) :
    (ofBytes (Field.encodeAll fs ++ rest)).fields (fs.map Field.type) = (fs, ofBytes rest) := by
  induction fs with
  | nil => rfl
  | cons f fs ih =>
    obtain ⟨hf, hfs⟩ := List.forall_mem_cons.mp h
    rw [Field.encodeAll_cons, List.append_assoc, List.map_cons]
    simp only [fields, field_ofBytes hf, ih hfs]

/-- From `r` to `r'` the bytes `front` were read, and nothing failed. -/
structure Reads (r : Reader) (front : List UInt8) (r' : Reader) : Prop where
  sound : r.error = none
  rest : r.rest = front ++ r'.rest

theorem Reads.append {r r' r'' : Reader} {front back : List UInt8} (h : r.Reads front r')
    (h' : r'.Reads back r'') : r.Reads (front ++ back) r'' :=
  ⟨h.sound, by rw [h.rest, h'.rest, List.append_assoc]⟩

theorem reads_take {r : Reader} {n : Nat} (h : (r.take n).2.error = none) :
    r.Reads (r.take n).1 (r.take n).2 := by
  simp only [take] at h ⊢
  split at h
  · next e he => exact absurd (he.symm.trans h) (Option.some_ne_none e)
  · next hsound =>
    split at h
    · next hlength =>
      refine ⟨hsound, ?_⟩
      simp only [hlength, ↓reduceIte]
      exact (List.take_append_drop n r.rest).symm
    · contradiction

theorem reads_number {r : Reader} {n : Nat} (h : (r.number n).2.error = none) :
    r.Reads (littleEndian n (r.number n).1) (r.number n).2 := by
  have hbytes := littleEndian_ofLittleEndian (r.take n).1
  rw [length_take] at hbytes
  simp only [number, hbytes]
  exact reads_take h

theorem number_lt (r : Reader) (n : Nat) : (r.number n).1 < 1 <<< (8 * n) := by
  have h := ofLittleEndian_lt (r.take n).1
  rwa [length_take] at h

theorem reads_u8 {r : Reader} (h : r.u8.2.error = none) :
    r.Reads (Field.u8 r.u8.1).encode r.u8.2 := by
  have hlt : (r.number 1).1 < UInt8.size := r.number_lt 1
  have hread := reads_number (n := 1) h
  simpa [Field.encode, Field.pieces, u8, littleEndian] using hread

theorem reads_u16 {r : Reader} (h : r.u16.2.error = none) :
    r.Reads (Field.u16 r.u16.1).encode r.u16.2 := by
  have hlt : (r.number 2).1 < UInt16.size := r.number_lt 2
  have hread := reads_number (n := 2) h
  simpa [Field.encode, Field.pieces, u16, UInt16.toNat_ofNat_of_lt' hlt] using hread

theorem reads_u32 {r : Reader} (h : r.u32.2.error = none) :
    r.Reads (Field.u32 r.u32.1).encode r.u32.2 := by
  have hlt : (r.number 4).1 < UInt32.size := r.number_lt 4
  have hread := reads_number (n := 4) h
  simpa [Field.encode, Field.pieces, u32, UInt32.toNat_ofNat_of_lt' hlt] using hread

theorem reads_u64 {r : Reader} (h : r.u64.2.error = none) :
    r.Reads (Field.u64 r.u64.1).encode r.u64.2 := by
  have hlt : (r.number 8).1 < UInt64.size := r.number_lt 8
  have hread := reads_number (n := 8) h
  simpa [Field.encode, Field.pieces, u64, UInt64.toNat_ofNat_of_lt' hlt] using hread

theorem reads_bool {r : Reader} (h : r.bool.2.error = none) :
    r.Reads (Field.bool r.bool.1).encode r.bool.2 := by
  simp only [bool] at h ⊢
  split at h
  · next hzero =>
    have hread := reads_u8 h
    rw [hzero] at hread
    simp only [hzero, ↓reduceIte]
    exact hread
  · next hzero =>
    split at h
    · next hone =>
      have hread := reads_u8 h
      rw [hone] at hread
      simp only [hone, ↓reduceIte]
      exact hread
    · contradiction

theorem reads_str {r : Reader} (h : r.str.2.error = none) :
    r.str.1.utf8ByteSize < UInt32.size ∧ r.Reads (Field.str r.str.1).encode r.str.2 := by
  simp only [str] at h ⊢
  split at h
  · next e he => exact absurd (he.symm.trans h) (Option.some_ne_none e)
  · next hsound =>
    have hlength := reads_u32 hsound
    split at h
    · next hbody =>
      split at h
      · next text htext =>
        have hbytes : text.toByteArray.data.toList = r.u32.2.rest.take r.u32.1.toNat := by
          rw [toByteArray_of_fromUTF8? htext]
        have hsize : text.utf8ByteSize = r.u32.1.toNat := by
          rw [← hbody, ← hbytes]
          simp
        have hlt : text.utf8ByteSize < UInt32.size := hsize ▸ r.u32.1.toNat_lt
        simp only [hsound, hbody, ↓reduceIte]
        refine ⟨hlt, ?_⟩
        rw [Field.encode_str hlt, hsize, UInt32.ofNat_toNat, hbytes]
        exact hlength.append ⟨hsound, (List.take_append_drop _ _).symm⟩
      · contradiction
    · contradiction

/-- Whatever is read without an error was written as just the bytes that it was read from. -/
theorem reads_field {r : Reader} {t : FieldType} (h : (r.field t).2.error = none) :
    (r.field t).1.type = t ∧ (r.field t).1.Writable ∧
      r.Reads (r.field t).1.encode (r.field t).2 := by
  cases t with
  | bool => exact ⟨rfl, trivial, reads_bool h⟩
  | u8 => exact ⟨rfl, trivial, reads_u8 h⟩
  | u16 => exact ⟨rfl, trivial, reads_u16 h⟩
  | u32 => exact ⟨rfl, trivial, reads_u32 h⟩
  | u64 => exact ⟨rfl, trivial, reads_u64 h⟩
  | i8 => exact ⟨rfl, trivial, reads_u8 h⟩
  | i16 => exact ⟨rfl, trivial, reads_u16 h⟩
  | i32 => exact ⟨rfl, trivial, reads_u32 h⟩
  | i64 => exact ⟨rfl, trivial, reads_u64 h⟩
  | str =>
    obtain ⟨hsize, hreads⟩ := reads_str h
    exact ⟨rfl, hsize, hreads⟩
  | bytes n =>
    refine ⟨congrArg FieldType.bytes (r.length_take n), trivial, ?_⟩
    rw [field, Field.encode_bytes]
    exact reads_take h

theorem reads_fields {r : Reader} {ts : List FieldType} (h : (r.fields ts).2.error = none) :
    (r.fields ts).1.map Field.type = ts ∧ (∀ f ∈ (r.fields ts).1, f.Writable) ∧
      r.Reads (Field.encodeAll (r.fields ts).1) (r.fields ts).2 := by
  induction ts generalizing r with
  | nil => exact ⟨rfl, nofun, h, rfl⟩
  | cons t ts ih =>
    -- A failure of the first field would have stayed to the end.
    obtain ⟨htypes, hwritable, hreads⟩ := @ih (r.field t).2 h
    obtain ⟨htype, hfirst, hread⟩ := reads_field hreads.sound
    refine ⟨?_, List.forall_mem_cons.mpr ⟨hfirst, hwritable⟩, hread.append hreads⟩
    rw [fields, List.map_cons, htype, htypes]

end Reader

/-- Fields that are written one behind the other are read back as they were, and nothing but what
lies behind them is left. -/
theorem fields_putAll (fs : List Field) (rest : List UInt8) (h : ∀ f ∈ fs, f.Writable) :
    (({} : Writer).putAll fs).error = none ∧
      (Reader.ofBytes ((({} : Writer).putAll fs).sink.bytes.toList ++ rest)).fields
        (fs.map Field.type) = (fs, Reader.ofBytes rest) := by
  rw [Writer.putAll_empty h]
  exact ⟨rfl, Reader.fields_encodeAll h rest⟩

/-- Fields of every type, among them an empty string, one with more bytes than characters, and no
bytes at all. -/
def assorted : List Field :=
  [.str "", .i16 (-2), .bytes [], .bool true, .str "é", .u64 0x0102030405060708, .i8 (-128),
    .u16 0x1234, .i64 (-1), .bytes [7, 0], .u32 0xfffffffe, .i32 (-100000), .u8 255]

theorem fields_putAll_assorted :
    (∀ f ∈ assorted, f.Writable) ∧
      (Reader.ofBytes ((({} : Writer).putAll assorted).sink.bytes.toList ++ [1, 2])).fields
        (assorted.map Field.type) = (assorted, Reader.ofBytes [1, 2]) := by
  have hwritable : ∀ f ∈ assorted, f.Writable := by decide
  exact ⟨hwritable, (fields_putAll assorted [1, 2] hwritable).2⟩

/-- Bytes that are read without an error are written again when the values are, as far as they were
taken; so where the same values are read, by whatever types, the same bytes are taken. -/
theorem putAll_fields {ts : List FieldType} {bytes : List UInt8} {fs : List Field} {r : Reader}
    (hread : (Reader.ofBytes bytes).fields ts = (fs, r)) (hsound : r.error = none) :
    (({} : Writer).putAll fs).error = none ∧
      bytes = (({} : Writer).putAll fs).sink.bytes.toList ++ r.rest ∧
      ∀ ts' bytes' r', (Reader.ofBytes bytes').fields ts' = (fs, r') → r'.error = none →
        ∀ taken taken', bytes = taken ++ r.rest → bytes' = taken' ++ r'.rest → taken = taken' := by
  have hencoded {ts : List FieldType} {bytes : List UInt8} {r : Reader}
      (hread : (Reader.ofBytes bytes).fields ts = (fs, r)) (hsound : r.error = none) :
      (∀ f ∈ fs, f.Writable) ∧ bytes = Field.encodeAll fs ++ r.rest := by
    have hreads := @Reader.reads_fields (Reader.ofBytes bytes) ts
    rw [hread] at hreads
    exact ⟨(hreads hsound).2.1, (hreads hsound).2.2.rest⟩
  obtain ⟨hwritable, hbytes⟩ := hencoded hread hsound
  rw [Writer.putAll_empty hwritable]
  refine ⟨rfl, hbytes, ?_⟩
  intro ts' bytes' r' hread' hsound' taken taken' htaken htaken'
  obtain ⟨-, hbytes'⟩ := hencoded hread' hsound'
  rw [List.append_cancel_right (htaken.symm.trans hbytes),
    List.append_cancel_right (htaken'.symm.trans hbytes')]

/-- A truth value, a string of one character and two bytes, and a number, in front of a byte that is
not read. -/
theorem putAll_fields_mixed :
    (Reader.ofBytes [1, 2, 0, 0, 0, 0xc3, 0xa9, 0xfe, 0xff, 5]).fields [.bool, .str, .i16] =
        ([.bool true, .str "é", .i16 (-2)], ⟨[5], none⟩) ∧
      (({} : Writer).putAll [.bool true, .str "é", .i16 (-2)]).sink.bytes.toList ++ [5] =
        [1, 2, 0, 0, 0, 0xc3, 0xa9, 0xfe, 0xff, 5] := by
  have hread : (Reader.ofBytes [1, 2, 0, 0, 0, 0xc3, 0xa9, 0xfe, 0xff, 5]).fields
      [.bool, .str, .i16] = ([.bool true, .str "é", .i16 (-2)], ⟨[5], none⟩) := by rfl
  exact ⟨hread, (putAll_fields hread rfl).2.1.symm⟩

end EightBit
