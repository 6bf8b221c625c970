import EightBit.Glyph
import EightBit.Memory
import EightBit.Picture

/-!
The text screen: forty columns and twenty-five rows of cells, eight by eight pixels each, drawn
from the codes in screen memory.
-/

namespace EightBit.Screen

/-- Where the codes of the cells start, row by row. -/
abbrev base : Nat := 0x0400
abbrev columns : Nat := 40
abbrev rows : Nat := 25
/-- Pixels in a cell, across and down. -/
abbrev cell : Nat := 8

def background : Colour := ⟨0x40, 0x31, 0x8d⟩

def foreground : Colour := ⟨0x7b, 0x71, 0xd5⟩

def visible (g : Glyph) : Bool := g.printable && g.char != ' '

/-- Whether a position inside a cell is off its rim. -/
def inside (k : Nat) : Bool := 1 ≤ k % cell && k % cell ≤ 6

/-- The picture of a screen. A cell that shows something is a block within its rim. -/
def render (codes : Code) (set : CharacterSet) : Picture :=
  let lit := Array.ofFn fun i : Fin (columns * rows) => visible (set (codes (base + i)))
  Picture.tabulate (columns * cell) (rows * cell) fun x y =>
    if inside x && inside y && lit.getD (y / cell * columns + x / cell) false then foreground
    else background

end EightBit.Screen
