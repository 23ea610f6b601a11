import PowerLift.Insn.Bits
import PowerLift.Proofs.NumberParts

/-!
# Masks and shifts, bit by bit

Rotate masks count bits from the most significant one and wrap around. Algebraic shifts tell in the
carry that a negative number has lost ones.
-/

namespace PowerLift

variable {n k : Nat}

/-- A mask holds the bits from `mb` on to `me`, around the end where `me` lies before `mb`. -/
theorem Bits.ringMask_getMsbD {mb me i : Nat} (hmb : mb < n) (hme : me < n) (hi : i < n) :
    (ringMask n mb me).getMsbD i = true ↔
      if mb ≤ me then mb ≤ i ∧ i ≤ me else mb ≤ i ∨ i ≤ me := by
  have hend : (BitVec.allOnes n <<< (n - 1 - me)).getMsbD i = decide (i ≤ me) := by
    rw [BitVec.getMsbD_shiftLeft, BitVec.getMsbD_allOnes, decide_eq_decide]
    omega
  have hbegin : (BitVec.allOnes n <<< (n - 1 - mb) <<< 1).getMsbD i = decide (i < mb) := by
    rw [BitVec.getMsbD_shiftLeft, BitVec.getMsbD_shiftLeft, BitVec.getMsbD_allOnes,
      decide_eq_decide]
    omega
  unfold ringMask
  by_cases hwrap : me < mb
  · simp only [hwrap, if_true, if_neg (Nat.not_le_of_lt hwrap), BitVec.getMsbD_not,
      BitVec.getMsbD_xor, hend, hbegin, hi]
    by_cases hle : i ≤ me <;> by_cases hlt : i < mb <;> simp [hle, hlt] <;> omega
  · simp only [hwrap, if_false, if_pos (Nat.le_of_not_lt hwrap), BitVec.getMsbD_xor, hend, hbegin]
    by_cases hle : i ≤ me <;> by_cases hlt : i < mb <;> simp [hle, hlt] <;> omega

/-- The bits of `x` under a mask, and those of `y` elsewhere. -/
def underMask (mask x y : BitVec n) : BitVec n := x &&& mask ||| y &&& ~~~mask

theorem underMask_zero (mask x : BitVec n) : underMask mask x 0 = x &&& mask := by
  simp [underMask]

/-- A rotation joins two shifts. -/
theorem rotateLeft_eq_or (x : BitVec n) (hk : k < n) :
    x.rotateLeft k = x <<< k ||| x >>> (n - k) := by
  rw [BitVec.rotateLeft_def, Nat.mod_eq_of_lt hk]

theorem rotateLeft_zero (x : BitVec n) : x.rotateLeft 0 = x := by
  rw [BitVec.rotateLeft_def, Nat.zero_mod, Nat.sub_zero, BitVec.ushiftRight_eq_zero (Nat.le_refl n),
    BitVec.shiftLeft_zero, BitVec.or_zero]

/-- A value beside itself. -/
theorem append_self (x : BitVec n) :
    x ++ x = x.setWidth (n + n) ||| x.setWidth (n + n) <<< n := by
  apply BitVec.eq_of_getLsbD_eq
  intro i hi
  rw [BitVec.getLsbD_append, BitVec.getLsbD_or, BitVec.getLsbD_shiftLeft, BitVec.getLsbD_setWidth,
    BitVec.getLsbD_setWidth]
  by_cases hlow : i < n
  · simp [hi, hlow]
  · have hhigh : i - n < n + n := by omega
    simp [hi, hlow, hhigh, BitVec.getLsbD_of_ge x i (Nat.le_of_not_lt hlow)]

/-- Whether a negative number loses a one to a right shift. -/
def dropsOnes (x : BitVec n) (k : Nat) : Bool := x.msb = true ∧ ∃ i < k, x.getLsbD i = true

/-- All bits of a negative number are lost, and its sign among them. -/
theorem dropsOnes_far (x : BitVec n) (hn : 0 < n) (hk : n ≤ k) : dropsOnes x k = x.msb := by
  rw [Bool.eq_iff_iff]
  simp only [dropsOnes, decide_eq_true_eq, and_iff_left_iff_imp]
  intro hmsb
  rw [BitVec.msb_eq_getLsbD_last] at hmsb
  exact ⟨n - 1, by omega, hmsb⟩

/-- One less than a power of two has the bits below it. -/
theorem getLsbD_pred_shiftLeft (hk : k < n) (i : Nat) :
    ((1 : BitVec n) <<< k - 1).getLsbD i = decide (i < k) := by
  have hlt : 2 ^ k < 2 ^ n := Nat.pow_lt_pow_right (by decide) hk
  have hpos : 1 ≤ 2 ^ k := Nat.one_le_two_pow
  have hone : (1 : BitVec n).toNat = 1 :=
    (BitVec.toNat_ofNat 1 n).trans (Nat.mod_eq_of_lt (Nat.lt_of_le_of_lt hpos hlt))
  have hshift : ((1 : BitVec n) <<< k).toNat = 2 ^ k := by
    rw [BitVec.toNat_shiftLeft, hone, Nat.shiftLeft_eq, Nat.one_mul, Nat.mod_eq_of_lt hlt]
  have hvalue : ((1 : BitVec n) <<< k - 1).toNat = 2 ^ k - 1 := by
    rw [BitVec.toNat_sub_of_le, hshift, hone]
    rw [BitVec.le_def, hshift, hone]
    exact hpos
  rw [BitVec.getLsbD, hvalue, Nat.testBit_two_pow_sub_one]

/-- A shift to the sign spreads it. -/
theorem getLsbD_sign (x : BitVec n) {i : Nat} (hi : i < n) :
    (x.sshiftRight (n - 1)).getLsbD i = x.msb := by
  rw [BitVec.getLsbD_sshiftRight, decide_eq_false (Nat.not_le_of_lt hi), Bool.not_false,
    Bool.true_and]
  split
  next hlast => rw [BitVec.msb_eq_getLsbD_last, show n - 1 + i = n - 1 by omega]
  next => rfl

/-- The ones that are lost are found under the sign. -/
theorem sign_and_below_ne_zero (x : BitVec n) (hk : k < n) :
    (x.sshiftRight (n - 1) &&& (x &&& ((1 : BitVec n) <<< k - 1)) != 0) = dropsOnes x k := by
  have hbit : ∀ i < n, (x.sshiftRight (n - 1) &&& (x &&& ((1 : BitVec n) <<< k - 1))).getLsbD i =
      (x.msb && (x.getLsbD i && decide (i < k))) := by
    intro i hi
    rw [BitVec.getLsbD_and, BitVec.getLsbD_and, getLsbD_sign x hi, getLsbD_pred_shiftLeft hk]
  rw [Bool.eq_iff_iff, bne_iff_ne, ne_eq, BitVec.eq_of_getLsbD_eq_iff]
  simp only [dropsOnes, decide_eq_true_eq, not_forall, exists_prop]
  constructor
  · rintro ⟨i, hi, hne⟩
    rw [hbit i hi, BitVec.ofNat_eq_ofNat, BitVec.getLsbD_zero, Bool.not_eq_false, Bool.and_eq_true,
      Bool.and_eq_true, decide_eq_true_eq] at hne
    exact ⟨hne.1, i, hne.2.2, hne.2.1⟩
  · rintro ⟨hmsb, i, hi, hset⟩
    refine ⟨i, Nat.lt_trans hi hk, ?_⟩
    rw [hbit i (Nat.lt_trans hi hk)]
    simp [hmsb, hset, hi]

/-- A shift beyond the sign leaves what a shift to the sign does. -/
theorem sshiftRight_far (x : BitVec n) (hk : n ≤ k) : x.sshiftRight (n - 1) = x.sshiftRight k := by
  apply BitVec.eq_of_getLsbD_eq
  intro i hi
  rw [getLsbD_sign x hi, BitVec.getLsbD_sshiftRight, if_neg (by omega),
    decide_eq_false (Nat.not_le_of_lt hi), Bool.not_false, Bool.true_and]

end PowerLift
