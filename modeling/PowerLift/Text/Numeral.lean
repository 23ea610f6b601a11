import PowerLift.Text.Blank

/-!
# Bounded numerals

Numbers in settings and on the command line have a largest value. A numeral is read from left to
right, and the first character that is no digit or exceeds the bound decides how it fails.
-/

namespace PowerLift

/-- Why a text is no numeral of a range. -/
inductive NumeralError where
  | empty
  | invalidDigit
  | tooLarge
  | tooSmall
  deriving DecidableEq, Repr, Inhabited

namespace NumeralError

def message : NumeralError → String
  | empty => "cannot parse integer from empty string"
  | invalidDigit => "invalid digit found in string"
  | tooLarge => "number too large to fit in target type"
  | tooSmall => "number too small to fit in target type"

end NumeralError

namespace Numeral

/-- The value of a digit in a base of at most sixteen. -/
def digit? (base : Nat) (c : Char) : Option Nat :=
  (Text.hexDigitValue? c).filter (· < base)

/-- The value of digits behind those that have the value `acc`. -/
def digits (base bound : Nat) (beyond : NumeralError) : Nat → List Char → Except NumeralError Nat
  | acc, [] => .ok acc
  | acc, c :: cs =>
      match digit? base c with
      | none => .error .invalidDigit
      | some d =>
          let value := acc * base + d
          if bound < value then .error beyond else digits base bound beyond value cs

/-- A number of at most `bound`; a plus sign may come first. -/
def unsigned (base bound : Nat) (cs : List Char) : Except NumeralError Nat :=
  match cs with
  | [] => .error .empty
  | ['+'] => .error .invalidDigit
  | '+' :: rest => digits base bound .tooLarge 0 rest
  | cs => digits base bound .tooLarge 0 cs

/-- A number of at most `bound`, or minus a number of at most `bound + 1`. -/
def signed (base bound : Nat) (cs : List Char) : Except NumeralError Int :=
  match cs with
  | ['-'] => .error .invalidDigit
  | '-' :: rest => (digits base (bound + 1) .tooSmall 0 rest).map fun n => -(n : Int)
  | cs => (unsigned base bound cs).map Int.ofNat

end Numeral

/-- A text that is no address. -/
structure AddressError where
  text : String
  cause : NumeralError
  deriving DecidableEq, Repr, Inhabited

namespace AddressError

def message (e : AddressError) : String := s!"invalid address '{e.text}': {e.cause.message}"

end AddressError

namespace Address

/-- The value of an address: hexadecimal behind a mark, else decimal. -/
def value (cs : List Char) : Except NumeralError Nat :=
  match cs with
  | '0' :: 'x' :: rest | '0' :: 'X' :: rest => Numeral.unsigned 16 (UInt64.size - 1) rest
  | cs => Numeral.unsigned 10 (UInt64.size - 1) cs

/-- Reads an address. -/
def parse (s : String) : Except AddressError (BitVec 64) :=
  match value s.toList with
  | .ok n => .ok (.ofNat 64 n)
  | .error cause => .error ⟨s, cause⟩

end Address

end PowerLift
