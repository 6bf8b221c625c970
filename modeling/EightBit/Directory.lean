import EightBit.Stream

/-!
The files that a session can reach from its working directory.
-/

namespace EightBit

/-- Files by path, in the order in which they were created, and the paths of the folders that are
known beside the working directory and the ones it is in. Paths are in plain form: without empty
components and points, and with a pair of points only at their beginning. -/
structure Directory where
  files : List (String × List UInt8) := []
  folders : List String := []
  deriving DecidableEq

inductive PathTarget where
  | folder
  /-- A file, or the place for one, with its path in plain form. -/
  | file (path : String)
  deriving DecidableEq

inductive Source where
  | content (bytes : List UInt8)
  /-- The path can be opened, but reading from it fails. -/
  | unreadable (failure : IoFailure)
  deriving DecidableEq

namespace Directory

def find? (d : Directory) (path : String) : Option (List UInt8) := d.files.lookup path

def components (path : String) : List String := (path.splitOn "/").filter (· != "")

/-- The names that lead to where a path starts, the last one first: none for the working directory
and an empty one for the root. -/
def start (path : String) : List String := if path.startsWith "/" then [""] else []

def enter (base : List String) : String → List String
  | "." => base
  | ".." =>
    match base with
    | [] => [".."]
    | [""] => [""]
    | ".." :: _ => ".." :: base
    | _ :: above => above
  | name => name :: base

def plain (names : List String) : String := "/".intercalate names.reverse

def follow (d : Directory) (base : List String) : List String → Except IoFailure PathTarget
  | [] => .ok .folder
  | name :: rest =>
    let next := enter base name
    if 255 < name.utf8ByteSize then .error .nameTooLong
    else if name == "." || name == ".." || d.folders.contains (plain next) then d.follow next rest
    else if rest.isEmpty then .ok (.file (plain next))
    else if (d.find? (plain next)).isSome then .error .notDirectory
    else .error .notFound

/-- The components to follow to read from a path. A slash at its end asks for a folder, and so
leads on to that folder itself. -/
def readComponents (path : String) : List String :=
  if path.endsWith "/" then components path ++ ["."] else components path

/-- The components to follow to write to a path. A slash at its end makes the last of them the
name of a folder, whether there is one or not. -/
def writeComponents (path : String) : List String :=
  if path.endsWith "/" then (components path).dropLast ++ ["."] else components path

def resolve (d : Directory) (path : String) (names : List String) :
    Except IoFailure PathTarget :=
  if path.isEmpty then .error .notFound
  else if path.toList.contains '\x00' then .error .nulInName
  else if 4096 ≤ path.utf8ByteSize then .error .nameTooLong
  else d.follow (start path) names

def openFile (d : Directory) (path : String) : Except IoFailure Source :=
  match d.resolve path (readComponents path) with
  | .error e => .error e
  | .ok .folder => .ok (.unreadable .isDirectory)
  | .ok (.file plain) =>
    match d.find? plain with
    | some bytes => .ok (.content bytes)
    | none => .error .notFound

def readFile (d : Directory) (path : String) : Except IoFailure (List UInt8) :=
  match d.openFile path with
  | .error e => .error e
  | .ok (.unreadable e) => .error e
  | .ok (.content bytes) => .ok bytes

/-- Replaces the content of a file, or adds the file behind the others. -/
def put (path : String) (bytes : List UInt8) :
    List (String × List UInt8) → List (String × List UInt8)
  | [] => [(path, bytes)]
  | f :: fs => if f.1 == path then (path, bytes) :: fs else f :: put path bytes fs

def writeFile (d : Directory) (path : String) (bytes : List UInt8) :
    Except IoFailure Directory :=
  match d.resolve path (writeComponents path) with
  | .error e => .error e
  | .ok .folder => .error .isDirectory
  | .ok (.file plain) => .ok { d with files := put plain bytes d.files }

end Directory

end EightBit
