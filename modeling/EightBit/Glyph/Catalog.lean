import EightBit.Glyph

/-!
The character sets that a system offers, by name, one of them chosen as the default.
-/

namespace EightBit

/-- Named character sets in ascending order of their names, with the name of the default. -/
structure Catalog where
  entries : List (String × CharacterSet)
  default : String

namespace Catalog

def asciiName : String := "ascii"

def basic : Catalog := ⟨[(asciiName, CharacterSet.ascii)], asciiName⟩

/-- Puts an entry in its place by name, replacing one of the same name. -/
def insert (name : String) (set : CharacterSet) :
    List (String × CharacterSet) → List (String × CharacterSet)
  | [] => [(name, set)]
  | e :: es =>
    if name < e.1 then (name, set) :: e :: es
    else if name == e.1 then (name, set) :: es
    else e :: insert name set es

def register (c : Catalog) (name : String) (set : CharacterSet) : Catalog :=
  { c with entries := insert name set c.entries }

def find? (c : Catalog) (name : String) : Option CharacterSet :=
  c.entries.lookup name

def names (c : Catalog) : List String := c.entries.map Prod.fst

/-- Makes `name` the default if there is such a set. -/
def select? (c : Catalog) (name : String) : Option Catalog :=
  (c.find? name).map fun _ => { c with default := name }

def defaultSet (c : Catalog) : CharacterSet :=
  (c.find? c.default).getD CharacterSet.ascii

/-- The four Commodore sets beside ASCII, with unshifted PETSCII as the default. -/
def commodore : Catalog :=
  let c := basic.register "petscii" CharacterSet.petscii
  let c := c.register "petscii-shifted" CharacterSet.petsciiShifted
  let c := c.register "screen" CharacterSet.screen
  let c := c.register "screen-shifted" CharacterSet.screenShifted
  (c.select? "petscii").getD c

end Catalog

end EightBit
