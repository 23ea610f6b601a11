/-!
# Hexadecimal text

Addresses, words and constants are written in base sixteen. Lower case is the rule for
addresses and constants; instruction words in messages are eight upper-case digits.
-/

namespace PowerLift.Text

/-- The digits of `n` in base sixteen, lower case, without leading zeros. -/
def hexDigits (n : Nat) : String :=
  String.ofList (Nat.toDigits 16 n)

/-- Pads `s` on the left with `c` up to `width` characters. -/
def padLeft (c : Char) (width : Nat) (s : String) : String :=
  String.ofList (List.replicate (width - s.length) c) ++ s

/-- An address or constant: `0x` and the digits. -/
def hex (n : Nat) : String :=
  "0x" ++ hexDigits n

/-- As `hex`, with at least `digits` digits. -/
def hexAtLeast (digits n : Nat) : String :=
  "0x" ++ padLeft '0' digits (hexDigits n)

/-- An instruction word: eight upper-case digits without a mark in front. -/
def hexWord (n : Nat) : String :=
  (padLeft '0' 8 (hexDigits n)).map Char.toUpper

/-- The texts of `xs` with `sep` between neighbours. -/
def separated (sep : String) (xs : List String) : String :=
  sep.intercalate xs

/-- The value of one hexadecimal digit of either case. -/
def hexDigitValue? (c : Char) : Option Nat :=
  if '0' ≤ c ∧ c ≤ '9' then some (c.toNat - '0'.toNat)
  else if 'a' ≤ c ∧ c ≤ 'f' then some (c.toNat - 'a'.toNat + 10)
  else if 'A' ≤ c ∧ c ≤ 'F' then some (c.toNat - 'A'.toNat + 10)
  else none

end PowerLift.Text
