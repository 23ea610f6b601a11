import PowerLift.Proofs.IntegerOperators

/-!
# Sums of two operands and a carry

Every sum and difference of the processor adds two words and a carry: a difference adds the
complement of its subtrahend and one. The carry out and the overflow are facts about the exact
sums of unsigned and of signed numbers. The code finds both from the result alone.
-/

namespace PowerLift

/-- The operands of a sum. -/
structure Addends (n : Nat) where
  left : BitVec n
  right : BitVec n
  carryIn : Bool

namespace Addends

variable {n : Nat} (s : Addends n)

/-- The sum modulo the width. -/
def sum : BitVec n := s.left + s.right + (BitVec.ofBool s.carryIn).setWidth n

/-- The carry out of the exact unsigned sum. -/
def carries : Bool := 2 ^ n ≤ s.left.toNat + s.right.toNat + s.carryIn.toNat

/-- Whether the exact signed sum does not fit the width. -/
def overflows : Bool := ¬Sign.signed.Fits n (s.left.toInt + s.right.toInt + s.carryIn.toInt)

variable {s}

theorem toNat_carryIn (hn : 0 < n) (c : Bool) :
    ((BitVec.ofBool c).setWidth n).toNat = c.toNat := by
  have hlt : c.toNat < 2 ^ n := Nat.lt_of_lt_of_le c.toNat_lt (Nat.le_self_pow hn.ne' 2)
  rw [BitVec.toNat_setWidth, BitVec.toNat_ofBool, Nat.mod_eq_of_lt hlt]

theorem sum_plain (l r : BitVec n) : sum ⟨l, r, false⟩ = l + r := by
  have hzero : (BitVec.ofBool false).setWidth n = 0#n := BitVec.setWidth_zero n 1
  simp only [sum, hzero, BitVec.add_zero]

/-- A difference adds the complement and one. -/
theorem sum_complement (hn : 0 < n) (l r : BitVec n) : sum ⟨~~~l, r, true⟩ = r - l := by
  have hone : (BitVec.ofBool true).setWidth n = 1#n := by
    apply BitVec.eq_of_toNat_eq
    rw [toNat_carryIn hn, BitVec.toNat_ofNat, Nat.mod_eq_of_lt (Nat.one_lt_two_pow hn.ne')]
    rfl
  simp only [sum, hone]
  rw [BitVec.sub_eq_add_neg, BitVec.neg_eq_not_add, BitVec.add_comm (~~~l) r, BitVec.add_assoc]

/-! ## The carry out -/

theorem toNat_sum (hn : 0 < n) :
    s.sum.toNat = (s.left.toNat + s.right.toNat + s.carryIn.toNat) % 2 ^ n := by
  rw [sum, BitVec.toNat_add, BitVec.toNat_add, toNat_carryIn hn, Nat.mod_add_mod]

/-- The sum has wrapped around where it is below an operand, or meets it with a carry in. -/
theorem carries_eq (hn : 0 < n) :
    s.carries = (decide (s.sum.toNat < s.right.toNat) || (s.carryIn && s.sum == s.right)) := by
  have hleft := s.left.isLt
  have hright := s.right.isLt
  have hcarry := s.carryIn.toNat_lt
  have hmeets : s.sum = s.right ↔ s.sum.toNat = s.right.toNat := BitVec.toNat_inj.symm
  have hin : s.carryIn = true ↔ s.carryIn.toNat = 1 := by cases s.carryIn <;> simp
  have hsum := toNat_sum (s := s) hn
  rw [Bool.eq_iff_iff]
  simp only [carries, Bool.or_eq_true, Bool.and_eq_true, beq_iff_eq, decide_eq_true_eq, hmeets, hin]
  by_cases hwrap : 2 ^ n ≤ s.left.toNat + s.right.toNat + s.carryIn.toNat
  · rw [Nat.mod_eq_sub_mod hwrap, Nat.mod_eq_of_lt (by omega)] at hsum
    omega
  · rw [Nat.mod_eq_of_lt (Nat.lt_of_not_le hwrap)] at hsum
    omega

/-- Without a carry in, the sum is compared with an operand. -/
theorem carries_of_not (hn : 0 < n) (hc : s.carryIn = false) :
    s.carries = decide (s.sum.toNat < s.right.toNat) := by
  rw [carries_eq hn, hc, Bool.false_and, Bool.or_false]

/-- With a carry in, the sum may meet the operand. -/
theorem carries_of_carryIn (hn : 0 < n) (hc : s.carryIn = true) :
    s.carries = decide (s.sum.toNat ≤ s.right.toNat) := by
  rw [carries_eq hn, hc, Bool.eq_iff_iff]
  simp only [Bool.true_and, Bool.or_eq_true, beq_iff_eq, decide_eq_true_eq, ← BitVec.toNat_inj]
  omega

/-- The operands in the other order. -/
def swap (s : Addends n) : Addends n := ⟨s.right, s.left, s.carryIn⟩

theorem sum_swap : s.swap.sum = s.sum := by
  simp only [sum, swap, BitVec.add_comm s.right]

theorem carries_swap : s.swap.carries = s.carries := by
  simp only [carries, swap, Nat.add_comm s.right.toNat]

/-! ## Overflow -/

theorem toInt_carryIn (hn : 1 < n) (c : Bool) :
    ((BitVec.ofBool c).setWidth n).toInt = c.toInt := by
  have hpow : 2 ^ 2 ≤ 2 ^ n := Nat.pow_le_pow_right (by omega) hn
  rw [BitVec.toInt_eq_toNat_cond, toNat_carryIn (by omega), if_pos]
  · cases c <;> rfl
  · have := c.toNat_lt
    omega

theorem toInt_sum (hn : 1 < n) :
    s.sum.toInt = (s.left.toInt + s.right.toInt + s.carryIn.toInt).bmod (2 ^ n) := by
  rw [sum, BitVec.toInt_add, BitVec.toInt_add, toInt_carryIn hn, Int.bmod_add_bmod]

/-- A number that is off the width by less than its size is read with the other sign. -/
theorem bmod_cases {x k : Int} {m : Nat} (hm : (m : Int) = 2 * k) (hlow : -2 * k ≤ x)
    (hhigh : x < 2 * k) :
    -k ≤ x ∧ x < k ∧ x.bmod m = x ∨ k ≤ x ∧ x.bmod m = x - 2 * k ∨
      x < -k ∧ x.bmod m = x + 2 * k := by
  by_cases hbelow : x < -k
  · refine .inr (.inr ⟨hbelow, ?_⟩)
    rw [← hm, ← Int.add_bmod_right, Int.bmod_eq_of_le (by omega) (by omega)]
  by_cases habove : k ≤ x
  · refine .inr (.inl ⟨habove, ?_⟩)
    rw [← hm, ← Int.sub_bmod_right, Int.bmod_eq_of_le (by omega) (by omega)]
  · exact .inl ⟨by omega, by omega, Int.bmod_eq_of_le (by omega) (by omega)⟩

/-- The sum overflows where its operands agree in sign and it does not. -/
theorem overflows_eq (hn : 1 < n) :
    s.overflows = (!(s.left.msb ^^ s.right.msb) && (s.left.msb ^^ s.sum.msb)) := by
  have hleft := BitVec.le_toInt s.left
  have hleft' := BitVec.toInt_lt (x := s.left)
  have hright := BitVec.le_toInt s.right
  have hright' := BitVec.toInt_lt (x := s.right)
  have hcarry : s.carryIn.toInt = 0 ∨ s.carryIn.toInt = 1 := by cases s.carryIn <;> simp
  have hpow : ((2 ^ n : Nat) : Int) = 2 * 2 ^ (n - 1) := by
    rw [Nat.cast_pow, Nat.cast_two, ← Int.pow_succ', Nat.sub_add_cancel (by omega)]
  have hsum := bmod_cases hpow (x := s.left.toInt + s.right.toInt + s.carryIn.toInt) (by omega)
    (by omega)
  rw [← toInt_sum hn] at hsum
  simp only [overflows, Sign.Fits, BitVec.msb_eq_toInt]
  -- Given the three signs, `hsum` says whether the sum has wrapped around.
  by_cases hl : s.left.toInt < 0 <;> by_cases hr : s.right.toInt < 0 <;>
    by_cases hs : s.sum.toInt < 0 <;> simp [hl, hr, hs] <;> omega

/-- Of all numbers, only the least one has no negation. -/
theorem overflows_negation (hn : 1 < n) (x : BitVec n) :
    overflows ⟨~~~x, 0, true⟩ = (x == BitVec.intMin n) := by
  have hzero : x.msb = true → (x == 0#n) = false := by
    rw [beq_eq_false_iff_ne]
    rintro hmsb rfl
    simp at hmsb
  have hleast : (x == BitVec.intMin n) = true → x.msb = true := by
    rw [beq_iff_eq]
    rintro rfl
    simp [BitVec.msb_intMin, Nat.lt_trans Nat.zero_lt_one hn]
  have hpos : decide (0 < n) = true := decide_eq_true (Nat.lt_trans Nat.zero_lt_one hn)
  have hsum : sum ⟨~~~x, 0, true⟩ = -x := (sum_complement (by omega) x 0).trans (BitVec.zero_sub x)
  rw [overflows_eq hn, hsum, BitVec.msb_neg, BitVec.msb_not,
    show (0 : BitVec n).msb = false from BitVec.msb_zero, hpos]
  simp only [bne]
  cases hmsb : x.msb with
  | false =>
      have hne : (x == BitVec.intMin n) = false := by
        rw [← Bool.not_eq_true]
        exact fun h => by simp [hleast h] at hmsb
      simp [hne]
  | true => simp [hzero hmsb]

end Addends

end PowerLift
