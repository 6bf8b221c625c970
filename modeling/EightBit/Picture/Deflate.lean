/-!
Compressed streams of bytes many of which are zero.

A stream has one block, in one fixed prefix code. Only zeros are copied, each from the byte before
it, so the code has no word for any other distance.
-/

namespace EightBit.Deflate

inductive Token where
  | literal (byte : UInt8)
  /-- The byte before, again and again. -/
  | copy (length : Nat)
  deriving DecidableEq

def longestCopy : Nat := 258

/-- The tokens for zeros that follow a zero. Up to four of them are shorter as they are. -/
def repeatZero (n : Nat) : List Token :=
  let rest := n % longestCopy
  List.replicate (n / longestCopy) (.copy longestCopy) ++
    if 4 < rest then [.copy rest] else List.replicate rest (.literal 0)

def zeros : Nat → List Token
  | 0 => []
  | n + 1 => .literal 0 :: repeatZero n

/-- The tokens for bytes that start at a position of a piece. Zeros are copied if they fill a
group of eight bytes to its end, and written one by one inside a group. -/
def groupTokens (position : Nat) : List UInt8 → List Token
  | [] => []
  | b :: bs =>
    if b = 0 then
      let n := (bs.takeWhile (· == 0)).length + 1
      (if 8 ≤ position % 8 + n then zeros n else List.replicate n (.literal 0)) ++
        groupTokens (position + n) (bs.dropWhile (· == 0))
    else .literal b :: groupTokens (position + 1) bs
termination_by bytes => bytes.length
decreasing_by
  · exact Nat.lt_succ_of_le (List.dropWhile_suffix _).length_le
  · simp

def tokens (piece : List UInt8) : List Token :=
  let whole := piece.length / 8 * 8
  groupTokens 0 (piece.take whole) ++ (piece.drop whole).map .literal

/-- The lengths of the words of the prefix code: of the 256 bytes, the end of the block and the
classes of lengths. -/
def wordLengths : List Nat :=
  [(1, 2), (1, 3), (1, 4), (2, 5), (2, 6), (3, 7), (5, 8), (7, 9), (9, 10), (12, 11), (171, 12),
    (10, 11), (1, 10), (1, 11), (9, 10), (5, 9), (1, 8), (1, 9), (5, 8), (3, 7), (3, 6), (1, 5),
    (1, 4), (1, 3), (3, 12), (2, 9), (1, 11), (1, 10), (2, 11), (1, 10), (6, 11), (1, 12),
    (1, 11), (11, 12), (1, 9)].flatMap fun (count, length) => List.replicate count length

/-- The number of the first word of a length. Words of one length are numbered in the order of
their symbols, behind all shorter words. -/
def firstWord : Nat → Nat
  | 0 => 0
  | n + 1 => 2 * (firstWord n + wordLengths.count n)

def word (symbol : Nat) : List Bool :=
  let length := wordLengths.getD symbol 0
  let number := firstWord length + (wordLengths.take symbol).count length
  ((List.range length).map number.testBit).reverse

def words : Array (List Bool) := ((List.range wordLengths.length).map word).toArray

def endSymbol : Nat := 256

/-- The least length of each class, the classes being the symbols behind the end of the block, and
how many bits say how far a length is above it. -/
def lengthClasses : List (Nat × Nat) :=
  [(3, 0), (4, 0), (5, 0), (6, 0), (7, 0), (8, 0), (9, 0), (10, 0), (11, 1), (13, 1), (15, 1),
    (17, 1), (19, 2), (23, 2), (27, 2), (31, 2), (35, 3), (43, 3), (51, 3), (59, 3), (67, 4),
    (83, 4), (99, 4), (115, 4), (131, 5), (163, 5), (195, 5), (227, 5), (258, 0)]

def lowBits (width n : Nat) : List Bool := (List.range width).map n.testBit

/-- The bits of a token. A copy ends with the single bit of its distance. -/
def Token.bits : Token → List Bool
  | .literal b => words.getD b.toNat []
  | .copy n =>
    let rank := (lengthClasses.filter (·.1 ≤ n)).length
    let (least, width) := lengthClasses.getD (rank - 1) (0, 0)
    words.getD (endSymbol + rank) [] ++ lowBits width (n - least) ++ [false]

def packed (bits : Array Bool) : List UInt8 :=
  (List.range ((bits.size + 7) / 8)).map fun i =>
    (List.range 8).foldl (fun v k =>
      if bits.getD (8 * i + k) false then v + 1 <<< UInt8.ofNat k else v) 0

/-- What every stream starts with: the mark of the format and the head of its block, which
describes the prefix code. Five more bits of the head are in `headEnd`. -/
def head : List UInt8 :=
  [0x78, 0x01, 0xed, 0xc0, 0x03, 0xa0, 0x24, 0x59, 0x96, 0xc6, 0xf1, 0xff, 0x77, 0xee, 0x8d, 0xc8,
    0xcc, 0xa7, 0x72, 0x4b, 0x63, 0xae, 0x6d, 0xdb, 0xb6, 0x6d, 0xdb, 0xb6, 0x6d, 0xdb, 0xb6, 0x6d,
    0x69, 0x8c, 0x9e, 0x96, 0x4a, 0xaf, 0x9e, 0x32, 0x33, 0x22, 0xee, 0xf9, 0x76, 0xb7, 0x6a, 0x7a,
    0xa6, 0x87, 0x3b, 0x6b, 0xd5]

def headEnd : List Bool := [true, true, true, true, false]

def bigEndian (n : Nat) : List UInt8 :=
  [UInt8.ofNat (n / 16777216), UInt8.ofNat (n / 65536), UInt8.ofNat (n / 256), UInt8.ofNat n]

def sums (bytes : List UInt8) : Nat :=
  let (a, b) := bytes.foldl (fun (a, b) v =>
    let a := (a + v.toNat) % 65521
    (a, (b + a) % 65521)) (1, 0)
  b * 65536 + a

def stream (pieces : List (List UInt8)) : List UInt8 :=
  let bits := (pieces.flatMap tokens).flatMap Token.bits
  head ++ packed (headEnd ++ bits ++ words.getD endSymbol []).toArray ++
    bigEndian (sums pieces.flatten)

end EightBit.Deflate
