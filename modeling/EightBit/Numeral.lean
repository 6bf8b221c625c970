/-!
The text forms of numbers that an operator reads and types.

A hexadecimal numeral starts with `$`, a decimal one with `+`, a binary one with `%`; bare digits
are hexadecimal. Binary numerals may be grouped, nibbles by a point and bytes by a colon.
-/

namespace EightBit

inductive NumeralError where
  | invalidAddress (text : String)
  | invalidValue (text : String)
  deriving DecidableEq

/-- The wording of a numeral error, which always quotes the whole text. -/
def NumeralError.message : NumeralError → String
  | .invalidAddress text => "invalid address: " ++ text
  | .invalidValue text => "invalid value: " ++ text

namespace Numeral

/-- The digits of `n` in `base`, filled up with zeros to `width` places. -/
def digits (base width n : Nat) : List Char :=
  let ds := Nat.toDigits base n
  List.replicate (width - ds.length) '0' ++ ds

def hexPair (v : UInt8) : String :=
  String.ofList (digits 16 2 v.toNat)

def hexQuad (v : UInt16) : String :=
  String.ofList (digits 16 4 v.toNat)

/-- A hexadecimal numeral of at least `width` digits. -/
def hex (width n : Nat) : String :=
  String.ofList ('$' :: digits 16 width n)

def hexByte (v : UInt8) : String :=
  hex 2 v.toNat

def hexWord (v : UInt16) : String :=
  hex 4 v.toNat

def binary (n : Nat) : String :=
  String.ofList ('%' :: digits 2 0 n)

def nibbles (v : UInt8) : List Char :=
  digits 2 4 (v.toNat / 16) ++ '.' :: digits 2 4 (v.toNat % 16)

def binaryByte (v : UInt8) : String :=
  String.ofList ('%' :: nibbles v)

def binaryWord (v : UInt16) : String :=
  String.ofList
    ('%' :: (nibbles (UInt8.ofNat (v.toNat / 256)) ++ ':' :: nibbles (UInt8.ofNat v.toNat)))

def decimal (n : Nat) : String :=
  String.ofList ('+' :: digits 10 0 n)

def describeByte (v : UInt8) : String :=
  hexByte v ++ " " ++ decimal v.toNat ++ " " ++ String.ofList ('%' :: digits 2 8 v.toNat)

def describeWord (v : UInt16) : String :=
  hexWord v ++ " " ++ decimal v.toNat

/-- The value of an ASCII digit, letters counting from ten in either case. -/
def digitValue (c : Char) : Option Nat :=
  if '0' ≤ c ∧ c ≤ '9' then some (c.toNat - 48)
  else if 'a' ≤ c ∧ c ≤ 'z' then some (c.toNat - 87)
  else if 'A' ≤ c ∧ c ≤ 'Z' then some (c.toNat - 55)
  else none

def digit (base : Nat) (c : Char) : Option Nat :=
  (digitValue c).filter (· < base)

/-- The positional value of `cs` continued from `acc`; none if some character is no digit. -/
def positional (base : Nat) : Nat → List Char → Option Nat
  | acc, [] => some acc
  | acc, c :: cs => (digit base c).bind fun d => positional base (acc * base + d) cs

/-- The base that a text's mark selects and the digits behind it, grouping marks left out. -/
def split : List Char → Nat × List Char
  | '$' :: cs => (16, cs)
  | '0' :: 'x' :: cs => (16, cs)
  | '+' :: cs => (10, cs)
  | '%' :: cs => (2, cs.filter fun c => c != '.' && c != ':')
  | cs => (16, cs)

/-- The value of a numeral below `2 ^ 32` that also fits in `bits` bits. -/
def value? (text : List Char) (bits : Nat) : Option Nat :=
  let (base, ds) := split text
  if ds.isEmpty then none
  else (positional base 0 ds).filter fun v => v < UInt32.size && (32 ≤ bits || v < 1 <<< bits)

def parse (text : String) (bits : Nat) : Except NumeralError Nat :=
  match value? text.toList bits with
  | some v => .ok v
  | none => .error (.invalidValue text)

def parseByte (text : String) : Except NumeralError UInt8 :=
  (parse text 8).map UInt8.ofNat

def parseWord (text : String) : Except NumeralError UInt16 :=
  (parse text 16).map UInt16.ofNat

/-- Reads an address, which may hold a bank offset above sixteen bits. -/
def parseAddress (text : String) : Except NumeralError Nat :=
  match value? text.toList 32 with
  | some v => .ok v
  | none => .error (.invalidAddress text)

/-- Reads plain binary digits below 256; one plus sign may stand in front. -/
def parseBits (text : String) : Except NumeralError UInt8 :=
  let ds := match text.toList with
    | '+' :: cs => cs
    | cs => cs
  match if ds.isEmpty then none else (positional 2 0 ds).filter (· < 256) with
  | some v => .ok (UInt8.ofNat v)
  | none => .error (.invalidValue text)

def onWords : List String := ["true", "t", "1", "yes", "y", "on"]

def offWords : List String := ["false", "f", "0", "no", "n", "off"]

def parseSwitch (text : String) : Except NumeralError Bool :=
  let word := String.ofList (text.toList.map Char.toLower)
  if onWords.contains word then .ok true
  else if offWords.contains word then .ok false
  else .error (.invalidValue text)

end Numeral

end EightBit
