import PowerLift.Json
import PowerLift.Text.Hex

/-!
# Tokens of structured text

Blank space between tokens is dropped. A token is the longest piece of text that its first
character admits.
-/

namespace PowerLift.Json

inductive Token where
  | openArr | closeArr | openObj | closeObj | comma | colon
  | null
  | bool (b : Bool)
  | nat (n : Nat)
  | real (n : Number)
  /-- A string; nothing where it has half a surrogate pair. -/
  | str (s : Option String)
  deriving DecidableEq, Repr, Inhabited

namespace Token

/-- Blank space between tokens. -/
def isSpace (c : Char) : Bool := c == ' ' || c == '\t' || c == '\n' || c == '\r'

/-! ## Strings -/

/-- A piece of a string: a character, or a numbered unit of sixteen bits. -/
inductive Piece where
  | char (c : Char)
  | unit (n : Nat)
  deriving DecidableEq, Repr, Inhabited

/-- The character that an escape letter stands for. -/
def escaped? : Char → Option Char
  | '"' => some '"'
  | '\\' => some '\\'
  | '/' => some '/'
  | 'b' => some '\x08'
  | 'f' => some '\x0c'
  | 'n' => some '\n'
  | 'r' => some '\r'
  | 't' => some '\t'
  | _ => none

/-- Four hexadecimal digits. -/
def unit? (a b c d : Char) : Option Nat := do
  let a ← Text.hexDigitValue? a
  let b ← Text.hexDigitValue? b
  let c ← Text.hexDigitValue? c
  let d ← Text.hexDigitValue? d
  return ((a * 16 + b) * 16 + c) * 16 + d

/-- The pieces up to the closing quote, and the text behind it. -/
def pieces : List Char → Option (List Piece × List Char)
  | [] => none
  | '"' :: rest => some ([], rest)
  | '\\' :: 'u' :: a :: b :: c :: d :: rest => do
      let n ← unit? a b c d
      let (ps, rest) ← pieces rest
      return (.unit n :: ps, rest)
  | '\\' :: e :: rest => do
      let c ← escaped? e
      let (ps, rest) ← pieces rest
      return (.char c :: ps, rest)
  | c :: rest =>
      if c < ' ' ∨ c = '\\' then none
      else do
        let (ps, rest) ← pieces rest
        return (.char c :: ps, rest)

def isHighHalf (n : Nat) : Bool := 0xD800 ≤ n && n ≤ 0xDBFF
def isLowHalf (n : Nat) : Bool := 0xDC00 ≤ n && n ≤ 0xDFFF

/-- The characters of a string; nothing where a surrogate stands alone. -/
def chars? : List Piece → Option (List Char)
  | [] => some []
  | .char c :: rest => (chars? rest).map (c :: ·)
  | .unit hi :: .unit lo :: rest =>
      if isHighHalf hi then
        if isLowHalf lo then
          let c := Char.ofNat (0x10000 + (hi - 0xD800) * 0x400 + (lo - 0xDC00))
          (chars? rest).map (c :: ·)
        else none
      else if isLowHalf hi then none
      else (chars? (.unit lo :: rest)).map (Char.ofNat hi :: ·)
  | .unit n :: rest =>
      if isHighHalf n || isLowHalf n then none else (chars? rest).map (Char.ofNat n :: ·)

/-! ## Numbers -/

/-- The value of decimal digits. -/
def decimal (cs : List Char) : Nat :=
  cs.foldl (fun acc c => acc * 10 + (c.toNat - '0'.toNat)) 0

/-- The value of the digits behind those that have the value `acc`, up to the first that does not
fit in 64 bits, and the number of digits that are left. -/
def leading : (acc : Nat) → List Char → Nat × Nat
  | acc, [] => (acc, 0)
  | acc, c :: cs =>
      let value := acc * 10 + (c.toNat - '0'.toNat)
      if value < UInt64.size then leading value cs else (acc, cs.length + 1)

/-- A run of decimal digits, and the text behind it. -/
def run (cs : List Char) : List Char × List Char :=
  (cs.takeWhile Char.isDigit, cs.dropWhile Char.isDigit)

/-- The exponent at the front of a text, if one stands there, and the text behind it. -/
def exponent? (cs : List Char) : Option (Option Int × List Char) :=
  let signed (sign : Int) (cs : List Char) : Option (Option Int × List Char) :=
    match run cs with
    | ([], _) => none
    | (ds, rest) => some (some (sign * decimal ds), rest)
  match cs with
  | 'e' :: '+' :: rest | 'E' :: '+' :: rest => signed 1 rest
  | 'e' :: '-' :: rest | 'E' :: '-' :: rest => signed (-1) rest
  | 'e' :: rest | 'E' :: rest => signed 1 rest
  | cs => some (none, cs)

/-- The fraction digits at the front of a text, if a point stands there, and the text behind. -/
def fraction? : List Char → Option (Option (List Char) × List Char)
  | '.' :: rest => match run rest with
    | ([], _) => none
    | (ds, rest) => some (some ds, rest)
  | cs => some (none, cs)

/-- A number without its sign. Digits that do not fit count as zeros in front of the point, and are
dropped behind it. -/
def number? (negative : Bool) (cs : List Char) : Option (Token × List Char) := do
  let (whole, rest) := run cs
  if whole = [] ∨ (whole.head? = some '0' ∧ whole.length ≠ 1) then none
  let (fraction, rest) ← fraction? rest
  let (exponent, rest) ← exponent? rest
  let (value, zeros) := leading 0 whole
  if !negative && zeros == 0 && fraction.isNone && exponent.isNone then return (.nat value, rest)
  let places := fraction.getD []
  let (significand, dropped) := leading value places
  let scale : Int := exponent.getD 0 + zeros - (places.length - dropped : Nat)
  return (.real ⟨negative, significand, scale⟩, rest)

/-! ## Texts -/

/-- The token at the front of a text, and the text behind it. -/
def first? : List Char → Option (Token × List Char)
  | '[' :: rest => some (.openArr, rest)
  | ']' :: rest => some (.closeArr, rest)
  | '\x7b' :: rest => some (.openObj, rest)
  | '\x7d' :: rest => some (.closeObj, rest)
  | ',' :: rest => some (.comma, rest)
  | ':' :: rest => some (.colon, rest)
  | 'n' :: 'u' :: 'l' :: 'l' :: rest => some (.null, rest)
  | 't' :: 'r' :: 'u' :: 'e' :: rest => some (.bool true, rest)
  | 'f' :: 'a' :: 'l' :: 's' :: 'e' :: rest => some (.bool false, rest)
  | '"' :: rest => do
      let (ps, rest) ← pieces rest
      return (.str ((chars? ps).map String.ofList), rest)
  | '-' :: rest => number? true rest
  | cs => number? false cs

/-- The tokens of a text. Each takes at least one character. -/
def scan (cs : List Char) : Option (List Token) :=
  match cs with
  | [] => some []
  | c :: rest =>
      if isSpace c then scan rest
      else match first? (c :: rest) with
        | none => none
        | some (t, behind) =>
            if behind.length < (c :: rest).length then (scan behind).map (t :: ·) else none
termination_by cs.length
decreasing_by
  · exact Nat.lt_succ_self _
  · assumption

end Token

end PowerLift.Json
