import Mathlib.Tactic.Ring
import Mathlib.Tactic.SplitIfs
import PowerLift.Decimal.Classify

/-!
# Decimal values

A decimal encoding is a sign, five bits of combination, the rest of the exponent and declets of
three digits each. The first digit and the two high bits of the exponent share the combination.
-/

namespace PowerLift

namespace Declet

theorem bit_lt (d i : Nat) : bit d i < 2 := Nat.mod_lt _ (by decide)

/-- Every digit of a declet is below ten, also in a spelling that no encoder writes. -/
theorem digits_lt (d : Nat) :
    (digits d).1 < 10 ∧ (digits d).2.1 < 10 ∧ (digits d).2.2 < 10 := by
  have hbit := bit_lt d
  have hsmall (i j k : Nat) : small (bit d i) (bit d j) (bit d k) < 10 := by
    have hi := hbit i
    have hj := hbit j
    have hk := hbit k
    unfold small
    omega
  have hlarge (i : Nat) : large (bit d i) < 10 := by
    have hi := hbit i
    unfold large
    omega
  unfold digits
  dsimp only
  split <;> simp only [hsmall, hlarge, and_self]

theorem toNat_lt (d : Nat) : toNat d < 1000 := by
  obtain ⟨hh, hm, hl⟩ := digits_lt d
  change 100 * (digits d).1 + 10 * (digits d).2.1 + (digits d).2.2 < 1000
  omega

theorem ofDigits_lt {h m l : Nat} (hh : h < 10) (hm : m < 10) (hl : l < 10) :
    ofDigits h m l < 1024 := by
  have hall : ∀ h < 10, ∀ m < 10, ∀ l < 10, ofDigits h m l < 1024 := by decide +kernel
  exact hall h hh m hm l hl

theorem digits_ofDigits {h m l : Nat} (hh : h < 10) (hm : m < 10) (hl : l < 10) :
    digits (ofDigits h m l) = (h, m, l) := by
  have hall : ∀ h < 10, ∀ m < 10, ∀ l < 10, digits (ofDigits h m l) = (h, m, l) := by
    decide +kernel
  exact hall h hh m hm l hl

theorem ofNat_lt (n : Nat) : ofNat n < 1024 :=
  ofDigits_lt (Nat.mod_lt _ (by decide)) (Nat.mod_lt _ (by decide)) (Nat.mod_lt _ (by decide))

theorem toNat_ofNat {n : Nat} (hn : n < 1000) : toNat (ofNat n) = n := by
  unfold toNat ofNat
  rw [digits_ofDigits (Nat.mod_lt _ (by decide)) (Nat.mod_lt _ (by decide))
    (Nat.mod_lt _ (by decide))]
  dsimp only
  omega

/-! ## Spellings -/

/-- Where the bits of a digit stand: all three of a digit below eight, or the last one of eight or
nine. -/
inductive DigitPlace where
  | small (a b c : Nat)
  | large (c : Nat)

/-- The digit at a place. -/
def DigitPlace.digit (d : Nat) : DigitPlace → Nat
  | small a b c => 4 * (d.testBit a).toNat + 2 * (d.testBit b).toNat + (d.testBit c).toNat
  | large c => 8 + (d.testBit c).toNat

/-- A way to spell three digits. -/
structure Spelling where
  /-- The bits by which the spelling is known. -/
  marks : List (Nat × Bool)
  hundreds : DigitPlace
  tens : DigitPlace
  ones : DigitPlace

namespace Spelling

def fits (s : Spelling) (d : Nat) : Bool := s.marks.all fun (i, b) => d.testBit i == b

def number (s : Spelling) (d : Nat) : Nat :=
  100 * s.hundreds.digit d + 10 * s.tens.digit d + s.ones.digit d

end Spelling

/-- The spellings: one for three digits below eight, three for two of them, three for one and one
for none. -/
def spellings : List Spelling :=
  [⟨[(3, false)], .small 9 8 7, .small 6 5 4, .small 2 1 0⟩,
   ⟨[(3, true), (2, false), (1, false)], .small 9 8 7, .small 6 5 4, .large 0⟩,
   ⟨[(3, true), (2, false), (1, true)], .small 9 8 7, .large 4, .small 6 5 0⟩,
   ⟨[(3, true), (2, true), (1, false)], .large 7, .small 6 5 4, .small 9 8 0⟩,
   ⟨[(3, true), (2, true), (1, true), (6, true), (5, false)], .small 9 8 7, .large 4, .large 0⟩,
   ⟨[(3, true), (2, true), (1, true), (6, false), (5, true)], .large 7, .small 9 8 4, .large 0⟩,
   ⟨[(3, true), (2, true), (1, true), (6, false), (5, false)], .large 7, .large 4, .small 9 8 0⟩,
   ⟨[(3, true), (2, true), (1, true), (6, true), (5, true)], .large 7, .large 4, .large 0⟩]

/-- The number that a declet spells. -/
def read (d : Nat) : Nat := (spellings.find? (·.fits d)).elim 0 (·.number d)

theorem bit_eq_testBit (d i : Nat) : bit d i = (d.testBit i).toNat := by
  rw [bit, Nat.toNat_testBit, Nat.shiftRight_eq_div_pow]

/-- Five bits tell how a declet is spelled. -/
theorem read_eq_toNat (d : Nat) : read d = toNat d := by
  unfold read toNat digits
  simp only [bit_eq_testBit]
  cases hv : d.testBit 3 <;> cases hw : d.testBit 2 <;> cases hx : d.testBit 1 <;>
    cases hs : d.testBit 6 <;> cases ht : d.testBit 5 <;>
    simp [spellings, Spelling.fits, Spelling.number, DigitPlace.digit, small, large, hv, hw, hx, hs,
      ht]

end Declet

namespace Decimal

/-- What a decimal encoding stands for. A finite value is its coefficient, at a power of ten that is
its exponent less the bias. -/
inductive Datum where
  | finite (negative : Bool) (coefficient biased : Nat)
  | infinity (negative : Bool)
  | nan (negative signalling : Bool)
  deriving DecidableEq, Repr

/-- The number in the low `k` declets of an encoding. -/
def trailing (v : Nat) : Nat → Nat
  | 0 => 0
  | k + 1 => Declet.read ((v >>> (10 * k)) % 1024) * 1000 ^ k + trailing v k

theorem trailing_succ (v k : Nat) :
    trailing v (k + 1) = Declet.toNat ((v >>> (10 * k)) % 1024) * 1000 ^ k + trailing v k := by
  rw [trailing, Declet.read_eq_toNat]

theorem trailing_lt (v k : Nat) : trailing v k < 1000 ^ k := by
  induction k with
  | zero => exact Nat.one_pos
  | succ k ih =>
    have hdeclet := Declet.toNat_lt ((v >>> (10 * k)) % 1024)
    calc trailing v (k + 1)
        < Declet.toNat ((v >>> (10 * k)) % 1024) * 1000 ^ k + 1000 ^ k := by
          rw [trailing_succ]
          exact Nat.add_lt_add_left ih _
      _ = (Declet.toNat ((v >>> (10 * k)) % 1024) + 1) * 1000 ^ k := by ring
      _ ≤ 1000 * 1000 ^ k := Nat.mul_le_mul_right _ hdeclet
      _ = 1000 ^ (k + 1) := by rw [pow_succ, Nat.mul_comm]

/-- The two high bits of the exponent and the first digit, from the combination of a finite
value. -/
def splitCombination (combo : Nat) : Nat × Nat :=
  if combo / 8 = 3 then (combo / 2 % 4, 8 + combo % 2) else (combo / 8, combo % 8)

theorem firstDigit_eq (top : BitVec 64) :
    firstDigit top = (splitCombination (combination top)).2 := by
  unfold firstDigit splitCombination
  dsimp only
  split_ifs <;> rfl

theorem firstDigit_lt (top : BitVec 64) : firstDigit top < 10 := by
  unfold firstDigit
  dsimp only
  split_ifs <;> omega

namespace Format

/-- The bits of an encoding. -/
def width (f : Format) : Nat := 6 + f.exponentBits + 10 * f.declets

/-- Reads an encoding. -/
def decode (f : Format) (v : Nat) : Datum :=
  let negative := v.testBit (f.width - 1)
  let combo := (v >>> (f.width - 6)) % 32
  if combo = 30 then .infinity negative
  else if combo = 31 then .nan negative (v.testBit (f.width - 7))
  else
    let (high, first) := splitCombination combo
    .finite negative (first * 1000 ^ f.declets + trailing v f.declets)
      (high * 2 ^ f.exponentBits + (v >>> (10 * f.declets)) % 2 ^ f.exponentBits)

end Format

end Decimal

end PowerLift
