/-!
Flat byte streams: their failures and the buffer that output goes to.
-/

namespace EightBit

inductive IoFailure where
  | notFound
  | notDirectory
  | isDirectory
  | nameTooLong
  | nulInName
  | shortRead
  | unexpectedEnd
  | shortWrite
  | invalidText
  deriving DecidableEq

def IoFailure.message : IoFailure → String
  | .notFound => "No such file or directory (os error 2)"
  | .notDirectory => "Not a directory (os error 20)"
  | .isDirectory => "Is a directory (os error 21)"
  | .nameTooLong => "File name too long (os error 36)"
  | .nulInName => "file name contained an unexpected NUL byte"
  | .shortRead => "failed to fill whole buffer"
  | .unexpectedEnd => "unexpected end of file"
  | .shortWrite => "failed to write whole buffer"
  | .invalidText => "stream did not contain valid UTF-8"

/-- Output that grows without end, or up to `limit` bytes. -/
structure Sink where
  bytes : Array UInt8 := #[]
  limit : Option Nat := none

namespace Sink

/-- How many of `n` further bytes the sink accepts. -/
def room (s : Sink) (n : Nat) : Nat :=
  match s.limit with
  | none => n
  | some l => min n (l - s.bytes.size)

def write (s : Sink) (bytes : List UInt8) : Sink × Bool :=
  let k := s.room bytes.length
  ({ s with bytes := s.bytes ++ bytes.take k }, k == bytes.length)

def writeText (s : Sink) (text : String) : Sink × Bool :=
  s.write text.toByteArray.data.toList

/-- Appends the lines, each closed by a line feed, up to the first that does not fit. -/
def writeLines (s : Sink) : List String → Sink × Bool
  | [] => (s, true)
  | line :: lines =>
    match s.writeText (line ++ "\n") with
    | (s, true) => s.writeLines lines
    | (s, false) => (s, false)

/-- The whole buffer: what was written and, under a limit, the zeros behind it. -/
def buffer (s : Sink) : List UInt8 :=
  s.bytes.toList ++ List.replicate ((s.limit.getD 0) - s.bytes.size) 0

end Sink

end EightBit
