/-!
# Numbers of structured text

A number is kept as its sign, its leading digits as far as they fit in 64 bits, and a power of ten.
It is in range where the product of the two, each rounded to double precision first, is finite.
-/

namespace PowerLift.Json

/-- A number with a fraction, an exponent or a sign, or with more digits than fit in 64 bits. -/
structure Number where
  negative : Bool
  /-- The leading digits. -/
  significand : Nat
  /-- The power of ten that scales the leading digits. -/
  exponent : Int
  deriving DecidableEq, Repr, Inhabited

/-- The nearest number with 53 significant bits; halfway, the one whose last bit is zero. -/
def nearestDouble (n : Nat) : Nat :=
  let shift := n.log2 - 52
  let kept := n >>> shift
  let dropped := n - (kept <<< shift)
  let half := (1 <<< shift) / 2
  let up := decide (half < dropped) || (decide (0 < shift) && dropped == half && kept % 2 == 1)
  (if up then kept + 1 else kept) <<< shift

/-- The least number that rounds to infinity. -/
def infinityBound : Nat := (1 <<< 1024) - (1 <<< 970)

namespace Number

/-- Whether a number has a finite value. A fraction only makes it smaller, and beyond the powers of
ten that have a finite value, only zero has one. -/
def isFinite (n : Number) : Bool :=
  if n.significand = 0 ∨ n.exponent < 0 then true
  else if 308 < n.exponent then false
  else
    let power := nearestDouble (Nat.pow 10 n.exponent.toNat)
    decide (nearestDouble n.significand * power < infinityBound)

end Number

end PowerLift.Json
