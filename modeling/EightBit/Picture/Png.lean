import EightBit.Picture
import EightBit.Picture.Deflate

/-!
The PNG form of a picture, in which a pixel is told by what it differs from the one before it.
-/

namespace EightBit.Png

open Deflate (bigEndian)

def signature : List UInt8 := [0x89, 0x50, 0x4e, 0x47, 0x0d, 0x0a, 0x1a, 0x0a]

def checkBit (c : UInt32) : UInt32 :=
  if c &&& 1 = 0 then c >>> 1 else (c >>> 1) ^^^ 0xedb88320

def checkByte (c : UInt32) (b : UInt8) : UInt32 :=
  checkBit (checkBit (checkBit (checkBit (checkBit (checkBit (checkBit (checkBit
    (c ^^^ b.toUInt32))))))))

def check (bytes : List UInt8) : UInt32 := bytes.foldl checkByte 0xffffffff ^^^ 0xffffffff

/-- A chunk: the length of its data, its type, its data and the check over both. -/
def chunk (type data : List UInt8) : List UInt8 :=
  bigEndian data.length ++ type ++ data ++ bigEndian (check (type ++ data)).toNat

/-- The header: size, eight bits to a channel, colour with opacity. -/
def header (p : Picture) : List UInt8 :=
  chunk [0x49, 0x48, 0x44, 0x52]
    (bigEndian p.width ++ bigEndian p.height ++ [8, 6, 0, 0, 0])

/-- What the bytes of a row differ by from the bytes one pixel before, behind the byte that says
so. -/
def differences (row : List UInt8) : List UInt8 :=
  1 :: List.zipWith (· - ·) row (List.replicate 4 0 ++ row)

def rows (p : Picture) : List (List UInt8) :=
  (List.range p.height).map fun y =>
    differences (p.bytes.extract (y * p.width * 4) ((y + 1) * p.width * 4)).toList

def encode (p : Picture) : Except PictureError (List UInt8) :=
  if p.width = 0 then .error .zeroWidth
  else if p.height = 0 then .error .zeroHeight
  else
    .ok (signature ++ header p ++
      chunk [0x49, 0x44, 0x41, 0x54] (Deflate.stream (rows p)) ++
      chunk [0x49, 0x45, 0x4e, 0x44] [])

end EightBit.Png
