import EightBit.Stream

/-!
Fields of a snapshot stream.

Numbers are little-endian, a string is its length as a four-byte number followed by its UTF-8
bytes, raw bytes carry no length. Nothing in the stream says which field comes next. The first
failure sticks: a writer that failed writes nothing more, a reader that failed gives the zero
value for every later field.
-/

namespace EightBit

inductive StreamError where
  | io (failure : IoFailure)
  | invalidBool (byte : UInt8)
  | invalidUtf8
  | lengthOverflow (length : Nat)
  deriving DecidableEq

inductive FieldType where
  | bool
  | u8
  | u16
  | u32
  | u64
  | i8
  | i16
  | i32
  | i64
  | str
  /-- Raw bytes of a length that reader and writer agree on. -/
  | bytes (length : Nat)
  deriving DecidableEq

inductive Field where
  | bool (v : Bool)
  | u8 (v : UInt8)
  | u16 (v : UInt16)
  | u32 (v : UInt32)
  | u64 (v : UInt64)
  | i8 (v : Int8)
  | i16 (v : Int16)
  | i32 (v : Int32)
  | i64 (v : Int64)
  | str (v : String)
  | bytes (v : List UInt8)
  deriving DecidableEq

def Field.type : Field → FieldType
  | .bool _ => .bool
  | .u8 _ => .u8
  | .u16 _ => .u16
  | .u32 _ => .u32
  | .u64 _ => .u64
  | .i8 _ => .i8
  | .i16 _ => .i16
  | .i32 _ => .i32
  | .i64 _ => .i64
  | .str _ => .str
  | .bytes v => .bytes v.length

/-- The value that stands in for a field after a failure. -/
def FieldType.zero : FieldType → Field
  | .bool => .bool false
  | .u8 => .u8 0
  | .u16 => .u16 0
  | .u32 => .u32 0
  | .u64 => .u64 0
  | .i8 => .i8 0
  | .i16 => .i16 0
  | .i32 => .i32 0
  | .i64 => .i64 0
  | .str => .str ""
  | .bytes n => .bytes (List.replicate n 0)

def littleEndian : Nat → Nat → List UInt8
  | 0, _ => []
  | k + 1, n => UInt8.ofNat n :: littleEndian k (n / 256)

def ofLittleEndian : List UInt8 → Nat
  | [] => 0
  | b :: bs => b.toNat + 256 * ofLittleEndian bs

/-- The pieces that a field is written in: a string's length comes before its body. -/
def Field.pieces : Field → List (List UInt8)
  | .bool v => [[if v then 1 else 0]]
  | .u8 v => [[v]]
  | .u16 v => [littleEndian 2 v.toNat]
  | .u32 v => [littleEndian 4 v.toNat]
  | .u64 v => [littleEndian 8 v.toNat]
  | .i8 v => [[v.toUInt8]]
  | .i16 v => [littleEndian 2 v.toUInt16.toNat]
  | .i32 v => [littleEndian 4 v.toUInt32.toNat]
  | .i64 v => [littleEndian 8 v.toUInt64.toNat]
  | .str v => [littleEndian 4 v.utf8ByteSize, v.toByteArray.data.toList]
  | .bytes v => [v]

def Field.encode (f : Field) : List UInt8 := f.pieces.flatten

/-- A sink that fields are written to, and the failure that stopped it. -/
structure Writer where
  sink : Sink := {}
  error : Option StreamError := none

namespace Writer

def piece (w : Writer) (bytes : List UInt8) : Writer :=
  match w.error with
  | some _ => w
  | none =>
    match w.sink.write bytes with
    | (sink, true) => { w with sink }
    | (sink, false) => ⟨sink, some (.io .shortWrite)⟩

/-- Writes a field; a string too long for its length is refused whole. -/
def put (w : Writer) (f : Field) : Writer :=
  match f with
  | .str v =>
    if v.utf8ByteSize < UInt32.size then f.pieces.foldl piece w
    else { w with error := w.error.or (some (.lengthOverflow v.utf8ByteSize)) }
  | _ => f.pieces.foldl piece w

def putAll (w : Writer) (fs : List Field) : Writer := fs.foldl put w

end Writer

/-- The unread bytes of a stream and the failure that stopped reading. -/
structure Reader where
  rest : List UInt8
  error : Option StreamError := none

namespace Reader

def fail (r : Reader) (e : StreamError) : Reader := { r with error := some e }

/-- The next `n` bytes; `n` zeros after a failure, to which running short belongs. -/
def take (r : Reader) (n : Nat) : List UInt8 × Reader :=
  match r.error with
  | some _ => (List.replicate n 0, r)
  | none =>
    let front := r.rest.take n
    if front.length = n then (front, ⟨r.rest.drop n, none⟩)
    else (List.replicate n 0, r.fail (.io .shortRead))

def number (r : Reader) (n : Nat) : Nat × Reader :=
  let (bs, r) := r.take n
  (ofLittleEndian bs, r)

def u8 (r : Reader) : UInt8 × Reader :=
  let (n, r) := r.number 1
  (UInt8.ofNat n, r)

def u16 (r : Reader) : UInt16 × Reader :=
  let (n, r) := r.number 2
  (UInt16.ofNat n, r)

def u32 (r : Reader) : UInt32 × Reader :=
  let (n, r) := r.number 4
  (UInt32.ofNat n, r)

def u64 (r : Reader) : UInt64 × Reader :=
  let (n, r) := r.number 8
  (UInt64.ofNat n, r)

/-- Reads a truth value, which is written as zero or one and nothing else. -/
def bool (r : Reader) : Bool × Reader :=
  let (b, r) := r.u8
  if b = 0 then (false, r)
  else if b = 1 then (true, r)
  else (false, r.fail (.invalidBool b))

def str (r : Reader) : String × Reader :=
  let (length, r) := r.u32
  match r.error with
  | some _ => ("", r)
  | none =>
    let body := r.rest.take length.toNat
    let r := { r with rest := r.rest.drop length.toNat }
    if body.length = length.toNat then
      match String.fromUTF8? ⟨body.toArray⟩ with
      | some text => (text, r)
      | none => ("", r.fail .invalidUtf8)
    else ("", r.fail (.io .unexpectedEnd))

def field (r : Reader) : FieldType → Field × Reader
  | .bool => let (v, r) := r.bool; (.bool v, r)
  | .u8 => let (v, r) := r.u8; (.u8 v, r)
  | .u16 => let (v, r) := r.u16; (.u16 v, r)
  | .u32 => let (v, r) := r.u32; (.u32 v, r)
  | .u64 => let (v, r) := r.u64; (.u64 v, r)
  | .i8 => let (v, r) := r.u8; (.i8 v.toInt8, r)
  | .i16 => let (v, r) := r.u16; (.i16 v.toInt16, r)
  | .i32 => let (v, r) := r.u32; (.i32 v.toInt32, r)
  | .i64 => let (v, r) := r.u64; (.i64 v.toInt64, r)
  | .str => let (v, r) := r.str; (.str v, r)
  | .bytes n => let (v, r) := r.take n; (.bytes v, r)

def fields (r : Reader) : List FieldType → List Field × Reader
  | [] => ([], r)
  | t :: ts =>
    let (f, r) := r.field t
    let (fs, r) := r.fields ts
    (f :: fs, r)

end Reader

def StreamError.message : StreamError → String
  | .io failure => "i/o error: " ++ failure.message
  | .invalidBool byte =>
    "invalid boolean value: 0x" ++ String.ofList
      [Nat.digitChar (byte.toNat / 16), Nat.digitChar (byte.toNat % 16)]
  | .invalidUtf8 => "invalid utf-8 in string field"
  | .lengthOverflow length =>
    "length " ++ toString length ++ " does not fit in a length prefix"

end EightBit
