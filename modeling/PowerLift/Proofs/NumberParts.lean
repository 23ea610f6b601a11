import PowerLift.Proofs.Addends

/-!
# Parts of exact numbers

A register holds the low part of a number. The code assembles high parts, remainders and overflows
from such parts.
-/

namespace PowerLift

variable {n : Nat}

namespace Sign

variable {s : Sign} {x y : BitVec n}

/-- A number of some width at another, as its sign asks. -/
def extend (s : Sign) (k : Nat) (x : BitVec n) : BitVec k :=
  match s with
  | signed => x.signExtend k
  | unsigned => x.setWidth k

/-- The pairs without a quotient: nothing is divided by zero, and the least number not by minus
one. -/
def indivisible (s : Sign) (x y : BitVec n) : Bool :=
  y = 0 ∨ s = signed ∧ x = .intMin n ∧ y = .allOnes n

theorem fits_tdiv (h : s.indivisible x y = false) : s.Fits n ((s.int x).tdiv (s.int y)) := by
  simp only [indivisible, decide_eq_false_iff_not, not_or, not_and] at h
  cases s with
  | signed =>
      have hquotient : (x.sdiv y).toInt = x.toInt.tdiv y.toInt := by
        apply BitVec.toInt_sdiv_of_ne_or_ne
        rw [BitVec.neg_one_eq_allOnes]
        exact not_and_or.mp fun hboth => h.2 rfl hboth.1 hboth.2
      simp only [int, ← hquotient]
      exact ⟨BitVec.le_toInt _, BitVec.toInt_lt⟩
  | unsigned =>
      have hquotient : ((x / y).toNat : Int) = (x.toNat : Int).tdiv y.toNat := by
        rw [BitVec.toNat_udiv, Int.ofNat_tdiv]
      simp only [int, ← hquotient]
      exact ⟨Int.natCast_nonneg _, by exact_mod_cast (x / y).isLt⟩

theorem mul_eq (s : Sign) (x y : BitVec n) : x * y = BitVec.ofInt n (s.int x * s.int y) := by
  rw [BitVec.ofInt_mul, ofInt_int, ofInt_int]

/-- What a quotient, taken times its divisor, leaves of the dividend. -/
theorem remainder_eq (s : Sign) (x y : BitVec n) :
    x - BitVec.ofInt n ((s.int x).tdiv (s.int y)) * y =
      BitVec.ofInt n ((s.int x).tmod (s.int y)) := by
  rw [Int.tmod_def, ofInt_sub, BitVec.ofInt_mul, ofInt_int, ofInt_int, BitVec.mul_comm y]

end Sign

/-! ## Low and high parts -/

/-- The low part of a low part. -/
theorem low_ofInt {m : Nat} (h : n ≤ m) (k : Int) :
    (BitVec.ofInt m k).setWidth n = BitVec.ofInt n k := by
  have hdvd : ((2 ^ n : Nat) : Int) ∣ ((2 ^ m : Nat) : Int) := by
    exact_mod_cast Nat.pow_dvd_pow 2 h
  have hpos : ((2 ^ m : Nat) : Int) ≠ 0 := by positivity
  apply BitVec.eq_of_toInt_eq
  rw [BitVec.toInt_setWidth, BitVec.toNat_ofInt, Int.toNat_of_nonneg (Int.emod_nonneg _ hpos),
    BitVec.toInt_ofInt, ← Int.emod_bmod, Int.emod_emod_of_dvd _ hdvd, Int.emod_bmod]

/-- The upper half of what was kept at twice the width. -/
theorem high_ofInt (k : Int) :
    (BitVec.ofInt (n + n) k).extractLsb' n n = BitVec.ofInt n (k / 2 ^ n) := by
  have hpos : (0 : Int) < 2 ^ n := by positivity
  have hsquare : ((2 ^ (n + n) : Nat) : Int) = 2 ^ n * 2 ^ n := by
    rw [Nat.pow_add]
    norm_cast
  have hnonneg : 0 ≤ k % (2 ^ n * 2 ^ n) := Int.emod_nonneg _ (by positivity)
  have hhalf : k % (2 ^ n * 2 ^ n) / 2 ^ n % 2 ^ n = k / 2 ^ n % 2 ^ n := by
    rw [Int.emod_def k, Int.mul_assoc, Int.sub_eq_add_neg, ← Int.mul_neg,
      Int.add_mul_ediv_left _ _ hpos.ne', ← Int.mul_neg, Int.add_mul_emod_self_left]
  have hcast : ((2 ^ n : Nat) : Int) = 2 ^ n := by norm_cast
  apply BitVec.eq_of_toNat_eq
  rw [BitVec.extractLsb'_toNat, BitVec.toNat_ofInt, BitVec.toNat_ofInt, hsquare,
    Nat.shiftRight_eq_div_pow, ← Int.natCast_inj, Int.natCast_emod, Int.natCast_ediv,
    Int.toNat_of_nonneg hnonneg, hcast, Int.toNat_of_nonneg (Int.emod_nonneg _ hpos.ne'), hhalf]

/-! ## Signs -/

/-- A shift by one less than the width leaves zero or minus one. -/
theorem toInt_sshiftRight_sign (x : BitVec n) :
    (x.sshiftRight (n - 1)).toInt = if x.toInt < 0 then -1 else 0 := by
  have hlow := BitVec.le_toInt x
  have hhigh := BitVec.toInt_lt (x := x)
  rw [BitVec.toInt_sshiftRight, Int.shiftRight_eq_div_pow, Nat.cast_pow, Nat.cast_two]
  split <;>
    · rw [Int.ediv_eq_iff_of_pos (by positivity)]
      omega

/-- The high part of a product fits. -/
theorem fits_high (hn : 0 < n) (x y : BitVec n) :
    Sign.signed.Fits n (x.toInt * y.toInt / 2 ^ n) := by
  have hlow := BitVec.le_toInt_mul_toInt (x := x) (y := y)
  have hhigh := BitVec.toInt_mul_toInt_le (x := x) (y := y)
  have hpos : (0 : Int) < 2 ^ n := by positivity
  have hpow : (2 ^ (n * 2 - 2) : Int) < 2 ^ (n - 1) * 2 ^ n := by
    rw [← Int.pow_add]
    exact_mod_cast Nat.pow_lt_pow_right Nat.one_lt_two (by omega)
  constructor
  · rw [Int.le_ediv_iff_mul_le hpos, Int.neg_mul]
    omega
  · rw [Int.ediv_lt_iff_lt_mul hpos]
    omega

/-- A number fits where its high part repeats the sign of its low part. -/
theorem high_eq_sign_iff (hn : 0 < n) {k : Int} (hk : Sign.signed.Fits n (k / 2 ^ n)) :
    BitVec.ofInt n (k / 2 ^ n) = (BitVec.ofInt n k).sshiftRight (n - 1) ↔ Sign.signed.Fits n k := by
  have hpow := two_pow_eq hn
  have hpos : (0 : Int) < 2 ^ (n - 1) := by positivity
  have hhigh : (BitVec.ofInt n (k / 2 ^ n)).toInt = k / 2 ^ n := Sign.int_ofInt (s := .signed) hn hk
  have hzero : k / 2 ^ n = 0 ↔ 0 ≤ k ∧ k < 2 ^ n := by
    rw [Int.ediv_eq_iff_of_pos (by positivity)]
    omega
  have hminus : k / 2 ^ n = -1 ↔ -2 ^ n ≤ k ∧ k < 0 := by
    rw [Int.ediv_eq_iff_of_pos (by positivity)]
    omega
  rw [← BitVec.toInt_inj, toInt_sshiftRight_sign, BitVec.toInt_ofInt (n := n) k, hhigh]
  simp only [Sign.Fits]
  -- Only a number that is near has zero or minus one for its high part.
  by_cases hnear : -2 ^ n ≤ k ∧ k < 2 ^ n
  · have hcases := Addends.bmod_cases (x := k) (m := 2 ^ n) (k := 2 ^ (n - 1))
      (by rw [Nat.cast_pow, Nat.cast_two, hpow]) (by omega) (by omega)
    split <;> omega
  · split <;> omega

/-- A negative number is off its unsigned reading by the size of the width. -/
theorem toInt_eq_toNat_add (hn : 0 < n) (c : BitVec n) :
    c.toInt = c.toNat + 2 ^ n * (c.sshiftRight (n - 1)).toInt := by
  have hpow := two_pow_eq hn
  have hlt : (c.toNat : Int) < 2 ^ n := by exact_mod_cast c.isLt
  have hcond := BitVec.toInt_eq_toNat_cond c
  rw [Nat.cast_pow, Nat.cast_two] at hcond
  rw [toInt_sshiftRight_sign]
  split at hcond
  next hsmall =>
    rw [if_neg (by omega)]
    omega
  next hlarge =>
    rw [if_pos (by omega)]
    omega

/-! ## High parts of sums -/

/-- The high part of a sum carries where its low parts do. -/
theorem high_add (k : Int) (c : BitVec n) :
    (k + c.toNat) / 2 ^ n =
      k / 2 ^ n + (Addends.carries ⟨c, BitVec.ofInt n k, false⟩).toInt := by
  have hpos : (0 : Int) < 2 ^ n := by positivity
  have hlow : ((BitVec.ofInt n k).toNat : Int) = k % 2 ^ n := by
    rw [BitVec.toNat_ofInt, Nat.cast_pow, Nat.cast_two,
      Int.toNat_of_nonneg (Int.emod_nonneg _ hpos.ne')]
  have hsplit := Int.mul_ediv_add_emod k (2 ^ n)
  have hlt : (c.toNat : Int) < 2 ^ n := by exact_mod_cast c.isLt
  have hlt' := Int.emod_lt_of_pos k hpos
  have hnonneg := Int.emod_nonneg k hpos.ne'
  have hcarries : Addends.carries ⟨c, BitVec.ofInt n k, false⟩ =
      decide ((2 ^ n : Int) ≤ c.toNat + k % 2 ^ n) := by
    simp only [Addends.carries, Bool.toNat_false, Nat.add_zero]
    rw [← hlow]
    norm_cast
  have hsum : (k % 2 ^ n + c.toNat) / 2 ^ n =
      (Addends.carries ⟨c, BitVec.ofInt n k, false⟩).toInt := by
    rw [Int.ediv_eq_iff_of_pos hpos, hcarries]
    by_cases hwrap : (2 ^ n : Int) ≤ c.toNat + k % 2 ^ n <;> simp [hwrap] <;> omega
  rw [← hsum, show k + c.toNat = (k % 2 ^ n + c.toNat) + 2 ^ n * (k / 2 ^ n) by omega,
    Int.add_mul_ediv_left _ _ hpos.ne', Int.add_comm]

/-- The high part of a sum with a signed number takes the sign of that number as well. -/
theorem high_add_toInt (hn : 0 < n) (k : Int) (c : BitVec n) :
    (k + c.toInt) / 2 ^ n = k / 2 ^ n + (c.sshiftRight (n - 1)).toInt +
      (Addends.carries ⟨c, BitVec.ofInt n k, false⟩).toInt := by
  have hpos : (2 ^ n : Int) ≠ 0 := by positivity
  rw [toInt_eq_toNat_add hn, ← Int.add_assoc, Int.add_mul_ediv_left _ _ hpos, high_add]
  omega

end PowerLift
