import PowerLift.Decimal.Declet

/-!
# Classes of decimal values

A decimal value has a class (zero, subnormal, normal, infinity, quiet or signalling NaN) and a data
group, which also looks at extreme exponents and at the first digit.
-/

namespace PowerLift.Decimal

/-- The class of a decimal value. -/
inductive ValueClass where
  | zero | subnormal | normal | infinity | quietNaN | signallingNaN
  deriving DecidableEq, Repr

namespace ValueClass

/-- The bit of a class in masks. -/
def mask : ValueClass → Nat
  | zero => 0x20
  | subnormal => 0x10
  | normal => 0x08
  | infinity => 0x04
  | quietNaN => 0x02
  | signallingNaN => 0x01

end ValueClass

/-- The data group of a decimal value. -/
inductive DataGroup where
  | zero | zeroExtreme | subnormalOrExtreme | firstDigitZero | firstDigitNonzero | special
  deriving DecidableEq, Repr

namespace DataGroup

/-- The bit of a group in masks. -/
def mask : DataGroup → Nat
  | zero => 0x20
  | zeroExtreme => 0x10
  | subnormalOrExtreme => 0x08
  | firstDigitZero => 0x04
  | firstDigitNonzero => 0x02
  | special => 0x01

end DataGroup

/-- The parameters of a decimal format. -/
structure Format where
  /-- Bits of the exponent behind the combination field. -/
  exponentBits : Nat
  declets : Nat
  bias : Int
  digits : Nat
  /-- The least exponent of a normal value, its digits counted. -/
  minExponent : Int

/-- Sixteen digits in 64 bits. -/
def Format.long : Format := ⟨8, 5, 398, 16, -383⟩

/-- Thirty-four digits in 128 bits. -/
def Format.quad : Format := ⟨12, 11, 6176, 34, -6143⟩

/-- The number of digits of a declet's value. -/
def digitCount (n : Nat) : Nat :=
  if 100 ≤ n then 3 else if 10 ≤ n then 2 else if 1 ≤ n then 1 else 0

/-- Declet `k` of a coefficient in two words. One declet of a quad value lies across both. -/
def decletAt (hi lo : BitVec 64) (k : Nat) : Nat :=
  let first := 10 * k
  let word :=
    if 64 ≤ first then hi >>> (first - 64)
    else if 64 < first + 10 then lo >>> first ||| hi <<< (64 - first)
    else lo >>> first
  word.toNat % 1024

/-- The number of digits from the first nonzero one on, among the low `k` declets. -/
def significantDigits (hi lo : BitVec 64) : Nat → Nat
  | 0 => 0
  | k + 1 =>
      let n := Declet.toNat (decletAt hi lo k)
      if n = 0 then significantDigits hi lo k else 3 * k + digitCount n

/-- The five bits behind the sign of a value, from its high word. -/
def combination (top : BitVec 64) : Nat := (top.toNat >>> 58) % 32

/-- The first digit of a finite value. -/
def firstDigit (top : BitVec 64) : Nat :=
  let combo := combination top
  if combo / 8 = 3 then 8 + combo % 2 else combo % 8

namespace Format

/-- The biased exponent of a finite value. -/
def biased (f : Format) (top : BitVec 64) : Nat :=
  let combo := combination top
  let high := if combo / 8 = 3 then combo / 2 % 4 else combo / 8
  let step := 1 <<< f.exponentBits
  high * step + (top.toNat >>> (58 - f.exponentBits)) % step

/-- The greatest biased exponent. -/
def maxBiased (f : Format) : Nat := 3 * 1 <<< f.exponentBits - 1

/-- The number of digits of a finite value from its first nonzero one on. -/
def significant (f : Format) (top hi lo : BitVec 64) : Nat :=
  if firstDigit top ≠ 0 then f.digits else significantDigits hi lo f.declets

/-- The exponent of the first of `digits` digits. -/
def adjusted (f : Format) (biased digits : Nat) : Int := biased - f.bias + digits - 1

end Format

/-- The class and the data group of a value in two words, of which `top` is the high one. -/
def classOf (f : Format) (top hi lo : BitVec 64) : ValueClass × DataGroup :=
  let combo := combination top
  if combo = 0x1E then (.infinity, .special)
  else if combo = 0x1F then
    (if (top.toNat >>> 57) % 2 = 1 then .signallingNaN else .quietNaN, .special)
  else
    let biased := f.biased top
    let extreme := biased = 0 ∨ biased = f.maxBiased
    let digits := f.significant top hi lo
    if digits = 0 then (.zero, if extreme then .zeroExtreme else .zero)
    else if f.adjusted biased digits < f.minExponent then (.subnormal, .subnormalOrExtreme)
    else
      (.normal,
        if extreme then .subnormalOrExtreme
        else if firstDigit top = 0 then .firstDigitZero
        else .firstDigitNonzero)

/-- Class in the low bits and data group from bit 8 on, of a long value in `lo` or a quad value in
both words. -/
def classify (hi lo quad : BitVec 64) : BitVec 64 :=
  let (cls, group) := if quad ≠ 0 then classOf .quad hi hi lo else classOf .long lo hi lo
  .ofNat 64 (cls.mask + group.mask * 256)

end PowerLift.Decimal
