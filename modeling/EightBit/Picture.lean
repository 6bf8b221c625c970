/-!
Pictures of red, green, blue and opacity bytes.
-/

namespace EightBit

structure Colour where
  red : UInt8
  green : UInt8
  blue : UInt8
  deriving DecidableEq

/-- Rows of pixels from the top, four bytes to a pixel. -/
structure Picture where
  width : Nat
  height : Nat
  bytes : Array UInt8

namespace Picture

def pixel (c : Colour) : List UInt8 := [c.red, c.green, c.blue, 0xff]

/-- The opaque picture whose pixel at column `x` and row `y` has the colour `f x y`. -/
def tabulate (width height : Nat) (f : Nat → Nat → Colour) : Picture where
  width
  height
  bytes := ((List.range (width * height)).flatMap fun n =>
    pixel (f (n % width) (n / width))).toArray

def black (width height : Nat) : Picture :=
  tabulate width height fun _ _ => ⟨0, 0, 0⟩

/-- Gives the pixel at column `x` and row `y`, if there is one, another colour. -/
def set (p : Picture) (x y : Nat) (c : Colour) : Picture :=
  if x < p.width ∧ y < p.height then
    let i := (y * p.width + x) * 4
    { p with
      bytes := ((p.bytes.setIfInBounds i c.red).setIfInBounds (i + 1) c.green).setIfInBounds
        (i + 2) c.blue }
  else p

def pixelAt (p : Picture) (x y : Nat) : List UInt8 :=
  let i := (y * p.width + x) * 4
  (List.range 4).map fun k => p.bytes.getD (i + k) 0

end Picture

inductive PictureError where
  | zeroWidth
  | zeroHeight
  deriving DecidableEq

def PictureError.message : PictureError → String
  | .zeroWidth => "Zero width not allowed"
  | .zeroHeight => "Zero height not allowed"

end EightBit
