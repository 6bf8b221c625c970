import EightBit.Glyph
import EightBit.Numeral
import EightBit.Text
import EightBit.Word

/-!
Dumps of memory: sixteen bytes to a row, in hexadecimal and as characters.
-/

namespace EightBit.Dump

abbrev width : Nat := 16

def column (k : Nat) (text : String) : String :=
  " " ++ text ++ (if k = 7 then " " else "")

/-- The row that starts at `base`. Positions outside of `first` to `last` are blank, characters
that cannot be printed are points, and blanks at the end are left out. -/
def row (code : Code) (set : CharacterSet) (first last base : Nat) : String :=
  let shown (k : Nat) : Bool := first ≤ base + k && base + k ≤ last
  let bytes := (List.range width).map fun k =>
    column k (if shown k then Numeral.hexPair (code (base + k)) else "  ")
  let chars := (List.range width).map fun k =>
    if shown k then (set (code (base + k))).shown else ' '
  Numeral.hexWord (UInt16.ofNat base) ++ " " ++ String.join bytes ++ "  " ++
    String.ofList (Text.trimEnd chars)

/-- The last address of a dump up to `last` in a memory of `size` bytes. -/
def clamp (size last : Nat) : Nat := min last (size - 1)

def rows (code : Code) (size : Nat) (set : CharacterSet) (first last : Nat) : List String :=
  let last := clamp size last
  if last < first then []
  else
    (List.range' (first / width) (last / width + 1 - first / width)).map fun n =>
      row code set first last (n * width)

end EightBit.Dump
