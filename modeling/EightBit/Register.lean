import EightBit.Numeral

/-!
Registers and flags as an operator sees them: named, typed and, where there is a setter, editable.
-/

namespace EightBit

inductive Value where
  | u8 (v : UInt8)
  | u16 (v : UInt16)
  | bool (v : Bool)
  deriving DecidableEq

def Value.text : Value → String
  | .u8 v => Numeral.describeByte v
  | .u16 v => Numeral.describeWord v
  | .bool v => if v then "true" else "false"

/-- A value as a number, a truth value counting as zero or one. -/
def Value.toNat : Value → Nat
  | .u8 v => v.toNat
  | .u16 v => v.toNat
  | .bool v => v.toNat

def flagMark (on : Bool) : String := if on then "*" else "."

inductive EditError where
  | noRegisters
  | noSuchRegister (name : String)
  | noSuchFlag (name : String)
  | readOnly (name : String)
  | outOfRange (name : String) (value : Value)
  deriving DecidableEq

def EditError.message : EditError → String
  | .noRegisters => "no registers"
  | .noSuchRegister name => "no such register: " ++ name
  | .noSuchFlag name => "no such flag: " ++ name
  | .readOnly name => name ++ " is read-only"
  | .outOfRange name value => "value " ++ value.text ++ " out of range for " ++ name

/-- How one register of `σ` is read and, unless it is read-only, written. -/
inductive Accessor (σ : Type) where
  | u8 (get : σ → UInt8) (put : Option (σ → UInt8 → σ))
  | u16 (get : σ → UInt16) (put : Option (σ → UInt16 → σ))
  | bool (get : σ → Bool) (put : Option (σ → Bool → σ))

/-- Registers by name, in the order in which they are shown. -/
abbrev RegisterTable (σ : Type) := List (String × Accessor σ)

namespace Accessor

variable {σ : Type}

def get (a : Accessor σ) (s : σ) : Value :=
  match a with
  | .u8 get _ => .u8 (get s)
  | .u16 get _ => .u16 (get s)
  | .bool get _ => .bool (get s)

/-- Writes a value of any type that fits the register. -/
def put (a : Accessor σ) (s : σ) (name : String) (value : Value) : Except EditError σ :=
  match a with
  | .u8 _ none => .error (.readOnly name)
  | .u16 _ none => .error (.readOnly name)
  | .bool _ none => .error (.readOnly name)
  | .u8 _ (some put) =>
    if value.toNat < 256 then .ok (put s (UInt8.ofNat value.toNat))
    else .error (.outOfRange name value)
  | .u16 _ (some put) => .ok (put s (UInt16.ofNat value.toNat))
  | .bool _ (some put) =>
    if value.toNat < 2 then .ok (put s (value.toNat == 1))
    else .error (.outOfRange name value)

end Accessor

namespace RegisterTable

variable {σ : Type}

def values (t : RegisterTable σ) (s : σ) : List (String × Value) :=
  t.map fun e => (e.1, e.2.get s)

def value? (t : RegisterTable σ) (s : σ) (name : String) : Option Value :=
  (t.lookup name).map (·.get s)

/-- Writes the register called `name`; `missing` is the error when there is none. -/
def put (t : RegisterTable σ) (missing : String → EditError) (s : σ) (name : String)
    (value : Value) : Except EditError σ :=
  match t.lookup name with
  | some a => a.put s name value
  | none => .error (missing name)

end RegisterTable

end EightBit
