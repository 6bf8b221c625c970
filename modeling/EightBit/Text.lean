import EightBit.Stream

/-!
Texts as words and as lines.
-/

namespace EightBit.Text

/-- The characters with the Unicode property White_Space. -/
def isBlank (c : Char) : Bool :=
  let n := c.toNat
  (9 ≤ n && n ≤ 13) || n == 0x20 || n == 0x85 || n == 0xa0 || n == 0x1680 ||
    (0x2000 ≤ n && n ≤ 0x200a) || n == 0x2028 || n == 0x2029 || n == 0x202f || n == 0x205f ||
    n == 0x3000

def trimEnd (cs : List Char) : List Char := (cs.reverse.dropWhile isBlank).reverse

/-- The words of a text, continued from the characters of an unfinished one in reverse. -/
def wordsFrom (word : List Char) : List Char → List (List Char)
  | [] => if word.isEmpty then [] else [word.reverse]
  | c :: cs =>
    if isBlank c then
      if word.isEmpty then wordsFrom [] cs else word.reverse :: wordsFrom [] cs
    else wordsFrom (c :: word) cs

def words (text : String) : List String := (wordsFrom [] text.toList).map String.ofList

/-- A line as text. The line feed that ended it takes a carriage return before it along. -/
def lineOf (reversed : List UInt8) (ended : Bool) : Except IoFailure String :=
  let kept := match ended, reversed with
    | true, 0x0d :: bytes => bytes
    | _, bytes => bytes
  match String.fromUTF8? ⟨kept.reverse.toArray⟩ with
  | some text => .ok text
  | none => .error .invalidText

/-- The lines of a stream, continued from the bytes of an unfinished one in reverse. -/
def linesFrom (line : List UInt8) : List UInt8 → List (Except IoFailure String)
  | [] => if line.isEmpty then [] else [lineOf line false]
  | b :: bs =>
    if b = 0x0a then lineOf line true :: linesFrom [] bs else linesFrom (b :: line) bs

def lines (bytes : List UInt8) : List (Except IoFailure String) := linesFrom [] bytes

def padEnd (width : Nat) (text : String) : String :=
  text ++ String.ofList (List.replicate (width - text.length) ' ')

end EightBit.Text
