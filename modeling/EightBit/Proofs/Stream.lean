import EightBit.Stream.Field

/-!
What a stream gives back of the fields that were written to it.
-/

namespace EightBit

@[simp] theorem length_littleEndian (k n : Nat) : (littleEndian k n).length = k := by
  induction k generalizing n with
  | zero => rfl
  | succ k ih => simp [littleEndian, ih]

theorem shiftLeft_byte (k : Nat) : 1 <<< (8 * (k + 1)) = 256 * (1 <<< (8 * k)) := by
  rw [Nat.mul_succ, Nat.shiftLeft_add, Nat.shiftLeft_eq]
  omega

/-- Little-endian bytes denote the number that they were made from, as far as it fits. -/
theorem ofLittleEndian_littleEndian (k n : Nat) :
    ofLittleEndian (littleEndian k n) = n % (1 <<< (8 * k)) := by
  induction k generalizing n with
  | zero => simp [littleEndian, ofLittleEndian, Nat.mod_one]
  | succ k ih =>
    have hlow : (UInt8.ofNat n).toNat = n % 256 := UInt8.toNat_ofNat'
    simp only [littleEndian, ofLittleEndian, ih, hlow]
    rw [shiftLeft_byte, Nat.mod_mul]

namespace Field

/-- Only a string that is too long for its length cannot be written. -/
def Writable : Field → Prop
  | .str v => v.utf8ByteSize < UInt32.size
  | _ => True

instance : DecidablePred Writable := fun f =>
  match f with
  | .str v => inferInstanceAs (Decidable (v.utf8ByteSize < UInt32.size))
  | .bool _ | .u8 _ | .u16 _ | .u32 _ | .u64 _ | .i8 _ | .i16 _ | .i32 _ | .i64 _ | .bytes _ =>
    isTrue trivial

def encodeAll (fs : List Field) : List UInt8 := fs.flatMap encode

@[simp] theorem encodeAll_nil : encodeAll [] = [] := rfl

@[simp] theorem encodeAll_cons (f : Field) (fs : List Field) :
    encodeAll (f :: fs) = f.encode ++ encodeAll fs := List.flatMap_cons

@[simp] theorem encodeAll_append (fs gs : List Field) :
    encodeAll (fs ++ gs) = encodeAll fs ++ encodeAll gs := List.flatMap_append

@[simp] theorem encode_bytes (v : List UInt8) : (bytes v).encode = v := by
  simp [encode, pieces]

end Field

namespace Writer

def holding (bytes : List UInt8) : Writer := ⟨⟨bytes.toArray, none⟩, none⟩

@[simp] theorem error_holding (bytes : List UInt8) : (holding bytes).error = none := rfl

@[simp] theorem bytes_holding (bytes : List UInt8) :
    (holding bytes).sink.bytes.toList = bytes := rfl

theorem piece_holding (bytes new : List UInt8) :
    (holding bytes).piece new = holding (bytes ++ new) := by
  simp [holding, piece, Sink.write, Sink.room]

theorem foldl_piece_holding (bytes : List UInt8) (pieces : List (List UInt8)) :
    pieces.foldl piece (holding bytes) = holding (bytes ++ pieces.flatten) := by
  induction pieces generalizing bytes with
  | nil => simp
  | cons new pieces ih => simp [piece_holding, ih]

theorem put_holding (bytes : List UInt8) {f : Field} (h : f.Writable) :
    (holding bytes).put f = holding (bytes ++ f.encode) := by
  cases f with
  | str v =>
    have hv : v.utf8ByteSize < UInt32.size := h
    simp only [put, if_pos hv]
    exact foldl_piece_holding _ _
  | _ => exact foldl_piece_holding _ _

/-- Without a limit every writable field is written whole and nothing fails. -/
theorem putAll_holding (bytes : List UInt8) {fs : List Field} (h : ∀ f ∈ fs, f.Writable) :
    (holding bytes).putAll fs = holding (bytes ++ Field.encodeAll fs) := by
  induction fs generalizing bytes with
  | nil => simp [putAll]
  | cons f fs ih =>
    obtain ⟨hf, hfs⟩ := List.forall_mem_cons.mp h
    have hrest := ih (bytes ++ f.encode) hfs
    simp only [putAll, List.foldl_cons, put_holding bytes hf] at hrest ⊢
    simp [hrest]

theorem putAll_empty {fs : List Field} (h : ∀ f ∈ fs, f.Writable) :
    ({} : Writer).putAll fs = holding (Field.encodeAll fs) :=
  putAll_holding [] h

end Writer

namespace Reader

def ofBytes (bytes : List UInt8) : Reader := ⟨bytes, none⟩

/-- Whether or not there are enough bytes, as many come back as were asked for. -/
@[simp] theorem length_take (r : Reader) (n : Nat) : (r.take n).1.length = n := by
  simp only [take]
  split
  · simp
  · split <;> simp_all

theorem take_ofBytes (front rest : List UInt8) :
    (ofBytes (front ++ rest)).take front.length = (front, ofBytes rest) := by
  simp [ofBytes, take]

theorem number_ofBytes (k n : Nat) (rest : List UInt8) :
    (ofBytes (littleEndian k n ++ rest)).number k = (n % (1 <<< (8 * k)), ofBytes rest) := by
  have h := take_ofBytes (littleEndian k n) rest
  rw [length_littleEndian] at h
  simp [number, h, ofLittleEndian_littleEndian]

@[simp] theorem u8_ofBytes (v : UInt8) (rest : List UInt8) :
    (ofBytes ((Field.u8 v).encode ++ rest)).u8 = (v, ofBytes rest) := by
  have hv : (Field.u8 v).encode = [v] := rfl
  have h : (ofBytes ([v] ++ rest)).take 1 = ([v], ofBytes rest) := take_ofBytes [v] rest
  rw [hv]
  simp only [u8, number, h]
  simp [ofLittleEndian]

@[simp] theorem u16_ofBytes (v : UInt16) (rest : List UInt8) :
    (ofBytes ((Field.u16 v).encode ++ rest)).u16 = (v, ofBytes rest) := by
  simp [Field.encode, Field.pieces, u16, number_ofBytes]

@[simp] theorem u32_ofBytes (v : UInt32) (rest : List UInt8) :
    (ofBytes ((Field.u32 v).encode ++ rest)).u32 = (v, ofBytes rest) := by
  simp [Field.encode, Field.pieces, u32, number_ofBytes]

@[simp] theorem bool_ofBytes (v : Bool) (rest : List UInt8) :
    (ofBytes ((Field.bool v).encode ++ rest)).bool = (v, ofBytes rest) := by
  have h : (Field.bool v).encode = (Field.u8 (if v then 1 else 0)).encode := rfl
  rw [h]
  cases v <;> simp [bool]

end Reader

end EightBit
