import PowerLift.Proofs.VectorOperators

/-!
# Rearranged vectors

Permutes, selects, shifts of whole registers, products of every other element and unpacked elements.
Instructions name elements from the most significant end, operators from the least significant one,
so that each is put together from operators with mirrored numbers.
-/

namespace PowerLift

variable {n i : Nat} {x y z : BitVec 128}

/-! ## Selection -/

/-- Bit by bit that of `x` or, where `z` has a one, that of `y`. -/
def bitSelected (x y z : BitVec 128) : BitVec 128 :=
  ofElements 1 fun i => if elementAt 1 z i = 1 then elementAt 1 y i else elementAt 1 x i

/-- The bits of `x` where a mask has zeros, and those of `y` where it has ones. -/
def blended (x y mask : BitVec 128) : BitVec 128 := x &&& ~~~mask ||| y &&& mask

/-- A mask that is uniform in an element chooses the element. -/
theorem elementAt_blended (hn : n ∣ 128) (hi : i < 128 / n) {p : Prop} [Decidable p]
    (hz : elementAt n z i = if p then .allOnes n else 0) :
    elementAt n (blended x y z) i = if p then elementAt n y i else elementAt n x i := by
  have hzero : (0 : BitVec n) = 0#n := rfl
  rw [blended, elementAt_or, elementAt_and, elementAt_and, elementAt_not hn hi, hz]
  split
  · rw [BitVec.not_allOnes, BitVec.and_zero, BitVec.and_allOnes, BitVec.zero_or]
  · rw [hzero, BitVec.not_zero, BitVec.and_zero, BitVec.and_allOnes, BitVec.or_zero]

theorem blended_eq_bitSelected : blended x y z = bitSelected x y z := by
  refine eq_ofElements (by decide) fun i hi => elementAt_blended (by decide) hi ?_
  have hbit (b : BitVec 1) : b = if b = 1 then .allOnes 1 else 0 := by
    revert b
    decide
  exact hbit _

/-! ## Permutation -/

/-- The bytes of two vectors side by side that the low five bits of the bytes of `z` name. -/
def gathered (x y z : BitVec 128) : BitVec 128 :=
  ofElements 8 fun i => joined 8 x y ((elementAt 8 z i).toNat % 32)

/-- Bytes of `x` that the upper halves of the bytes of `z` name, combined with bytes of `y` that the
lower halves name. -/
def crossed (x y z : BitVec 128) : BitVec 128 :=
  ofElements 8 fun i => elementAt 8 x ((elementAt 8 z i).toNat / 16) ^^^
    elementAt 8 y ((elementAt 8 z i).toNat % 16)

/-- The same byte in every lane. -/
def everyByte (b : BitVec 8) : BitVec 128 := ofLanes 8 fun _ => b

/-- Where all numbers are turned around, a permute counts from the most significant byte. -/
theorem elementAt_permuted (hi : i < 16) :
    elementAt 8 (permuted x (z ^^^ everyByte 0x0F)) i =
      elementAt 8 x ((elementAt 8 z i).toNat % 16) := by
  have hmirrored (b : BitVec 8) : (b ^^^ 0x0F).toNat % 16 = 15 - b.toNat % 16 := by
    revert b
    decide
  have hlane : laneAt 8 (permuted x (z ^^^ everyByte 0x0F)) (15 - i) =
      laneAt 8 x ((laneAt 8 (z ^^^ everyByte 0x0F) (15 - i)).toNat % 16) :=
    laneAt_ofLanes (by decide) (by omega)
  have hcontrol : laneAt 8 (z ^^^ everyByte 0x0F) (15 - i) = elementAt 8 z i ^^^ 0x0F :=
    elementAt_xor.trans (congrArg (elementAt 8 z i ^^^ ·) (elementAt_const (by decide) hi _))
  have hbyte := laneAt_eq_elementAt (n := 8) (x := x)
    (show 15 - (elementAt 8 z i).toNat % 16 < 128 / 8 by omega)
  refine hlane.trans ?_
  rw [hcontrol, hmirrored, hbyte]
  congr 1
  omega

/-- The mask of the bytes that a permute takes from the second vector. -/
def secondHalf (z : BitVec 128) : BitVec 128 :=
  lanewise 8 (fun a k => a.sshiftRight (k.toNat % 8))
    (lanewise 8 (fun a k => a <<< (k.toNat % 8)) z (everyByte 3)) (everyByte 7)

theorem elementAt_secondHalf (hi : i < 16) : elementAt 8 (secondHalf z) i =
    if 16 ≤ (elementAt 8 z i).toNat % 32 then .allOnes 8 else 0 := by
  have hmask (b : BitVec 8) : (b <<< (3 % 8)).sshiftRight (7 % 8) =
      if 16 ≤ b.toNat % 32 then .allOnes 8 else 0 := by
    revert b
    decide
  rw [secondHalf, elementAt_lanewise (by decide) hi, elementAt_lanewise (by decide) hi, everyByte,
    everyByte, elementAt_const (by decide) hi, elementAt_const (by decide) hi]
  exact hmask _

theorem blended_permuted : blended (permuted x (z ^^^ everyByte 0x0F))
    (permuted y (z ^^^ everyByte 0x0F)) (secondHalf z) = gathered x y z := by
  refine eq_ofElements (by decide) fun i hi => ?_
  rw [elementAt_blended (by decide) hi (elementAt_secondHalf hi), elementAt_permuted hi,
    elementAt_permuted hi, joined]
  have hmod : (elementAt 8 z i).toNat % 32 % 16 = (elementAt 8 z i).toNat % 16 :=
    Nat.mod_mod_of_dvd _ (by decide)
  split
  next h =>
    rw [if_neg (by omega)]
    congr 1
    omega
  next h =>
    rw [if_pos (by omega)]
    congr 1
    omega

theorem permuted_xor_permuted :
    permuted x (lanewise 8 (fun a k => a >>> (k.toNat % 8)) z (everyByte 4) ^^^ everyByte 0x0F) ^^^
      permuted y (z &&& everyByte 0x0F ^^^ everyByte 0x0F) = crossed x y z := by
  have hhigh (b : BitVec 8) : (b >>> (4 % 8)).toNat % 16 = b.toNat / 16 := by
    revert b
    decide
  have hlow (b : BitVec 8) : (b &&& 0x0F).toNat % 16 = b.toNat % 16 := by
    revert b
    decide
  refine eq_ofElements (by decide) fun i hi => ?_
  rw [elementAt_xor, elementAt_permuted hi, elementAt_permuted hi, elementAt_and,
    elementAt_lanewise (by decide) hi, everyByte, everyByte, elementAt_const (by decide) hi,
    elementAt_const (by decide) hi, hlow]
  exact congrArg (elementAt 8 x · ^^^ _) (hhigh _)

/-! ## Whole registers -/

theorem shiftLeft_eq_window {k : Nat} (hn : n ∣ 128) (hk : k ≤ 128 / n) :
    x <<< (n * k) = window n x 0 k := by
  rw [window_eq hn hk]
  simp

theorem shiftRight_eq_window {k : Nat} (hn : n ∣ 128) (hk : k ≤ 128 / n) :
    x >>> (n * k) = window n 0 x (128 / n - k) := by
  rw [window_eq hn (Nat.sub_le _ _), Nat.sub_sub_self hk]
  simp

/-- The low bits of a vector are its last element. -/
theorem setWidth_eq_elementAt : x.setWidth n = elementAt n x (128 / n - 1) := by
  refine BitVec.eq_of_getLsbD_eq fun j hj => ?_
  rw [elementAt, getLsbD_laneAt, BitVec.getLsbD_setWidth, Nat.sub_self, Nat.mul_zero, Nat.zero_add]

/-- An element at the low end of a shifted vector. -/
theorem setWidth_shiftRight (hn : n ≤ 32) :
    ((x >>> (n * (128 / n - 1 - i))).setWidth 32).setWidth n = elementAt n x i := by
  refine BitVec.eq_of_getLsbD_eq fun j hj => ?_
  rw [elementAt, getLsbD_laneAt, BitVec.getLsbD_setWidth, BitVec.getLsbD_setWidth,
    BitVec.getLsbD_ushiftRight, decide_eq_true (Nat.lt_of_lt_of_le hj hn), Bool.true_and]

/-! ## Elements of twice the width -/

section

variable {s : Sign} {width : Narrow}

/-- The products of the odd elements of two vectors. -/
def oddProducts (s : Sign) (width : Narrow) (x y : BitVec 128) : BitVec 128 :=
  ofElements width.double.bits fun i =>
    .ofInt _ (s.int (elementAt width.bits x (2 * i + 1)) *
      s.int (elementAt width.bits y (2 * i + 1)))

/-- The products of the even elements of two vectors. -/
def evenProducts (s : Sign) (width : Narrow) (x y : BitVec 128) : BitVec 128 :=
  ofElements width.double.bits fun i =>
    .ofInt _ (s.int (elementAt width.bits x (2 * i)) * s.int (elementAt width.bits y (2 * i)))

/-- Odd elements are the even ones of a vector that was shifted by one element. -/
theorem evenProducts_shiftLeft :
    evenProducts s width (x <<< width.bits) (y <<< width.bits) = oddProducts s width x y := by
  have hnext {x : BitVec 128} {i : Nat} (hi : i < 128 / width.double.bits) :
      elementAt width.bits (x <<< width.bits) (2 * i) = elementAt width.bits x (2 * i + 1) := by
    have hlanes := width.lanes_eq
    have hwindow := shiftLeft_eq_window (x := x) (k := 1) width.bits_dvd (by omega)
    rw [Nat.mul_one] at hwindow
    rw [hwindow, window, elementAt_ofElements width.bits_dvd (by omega), joined, if_pos (by omega)]
  exact ofElements_congr width.double.bits_dvd fun i hi => by rw [hnext hi, hnext hi]

/-- The elements of a half of a vector, with their signs. -/
def unpacked (width : Narrow) (high : Bool) (x : BitVec 128) : BitVec 128 :=
  ofElements width.double.bits fun i =>
    (elementAt width.bits x (i + if high then 0 else 64 / width.bits)).signExtend _

/-- The second half of an element is an odd element of half its width. -/
theorem elementAt_odd (width : Narrow) (hi : i < 128 / width.double.bits) :
    elementAt width.bits x (2 * i + 1) =
      (elementAt width.double.bits x i).setWidth width.bits := by
  have hbits := width.double_bits
  have hlanes := width.lanes_eq
  have hplace : width.bits * (128 / width.bits - 1 - (2 * i + 1)) =
      width.double.bits * (128 / width.double.bits - 1 - i) := by
    rw [show 128 / width.bits - 1 - (2 * i + 1) = 2 * (128 / width.double.bits - 1 - i) by omega,
      Nat.mul_left_comm, ← Nat.mul_assoc, ← hbits]
  refine BitVec.eq_of_getLsbD_eq fun j hj => ?_
  rw [elementAt, elementAt, BitVec.getLsbD_setWidth, getLsbD_laneAt, getLsbD_laneAt, hplace]
  simp only [hj, show j < width.double.bits by omega, decide_true, Bool.true_and]

/-- The first half of an element is an even element of half its width. -/
theorem elementAt_even (width : Narrow) (hi : i < 128 / width.double.bits) :
    elementAt width.bits x (2 * i) =
      (elementAt width.double.bits x i).extractLsb' width.bits width.bits := by
  have hbits := width.double_bits
  have hlanes := width.lanes_eq
  have hplace : width.bits * (128 / width.bits - 1 - 2 * i) =
      width.double.bits * (128 / width.double.bits - 1 - i) + width.bits := by
    rw [show 128 / width.bits - 1 - 2 * i = 2 * (128 / width.double.bits - 1 - i) + 1 by omega,
      Nat.mul_succ, Nat.mul_left_comm, ← Nat.mul_assoc, ← hbits]
  refine BitVec.eq_of_getLsbD_eq fun j hj => ?_
  rw [elementAt, elementAt, BitVec.getLsbD_extractLsb', getLsbD_laneAt, getLsbD_laneAt, hplace]
  simp only [hj, show width.bits + j < width.double.bits by omega, decide_true, Bool.true_and,
    Nat.add_assoc]

theorem elementAt_interleaved {high : Bool} {k : Nat} (hk : k < 128 / width.bits) :
    elementAt width.bits (interleaved width.bits high x x) k =
      elementAt width.bits x (k / 2 + if high then 0 else 128 / width.bits / 2) := by
  rw [interleaved, elementAt_ofElements width.bits_dvd hk, ite_self]

/-- An element beside itself is unpacked by a shift that keeps the sign. -/
theorem sshiftRight_interleaved {high : Bool} :
    lanewise width.double.bits (fun a k => a.sshiftRight (k.toNat % width.double.bits))
      (interleaved width.bits high x x)
      (ofLanes width.double.bits fun _ => (BitVec.ofNat 64 width.bits).setWidth width.double.bits) =
      unpacked width high x := by
  have hbits := width.double_bits
  have hlanes := width.lanes_eq
  have hamount : ((BitVec.ofNat 64 width.bits).setWidth width.double.bits).toNat %
      width.double.bits = width.bits := by
    cases width <;> rfl
  refine eq_ofElements width.double.bits_dvd fun i hi => BitVec.eq_of_getLsbD_eq fun j hj => ?_
  have hhalf : 128 / width.bits / 2 = 64 / width.bits := by cases width <;> rfl
  have hupper {j : Nat} (hj : j < width.bits) :
      (elementAt width.double.bits (interleaved width.bits high x x) i).getLsbD (width.bits + j) =
        (elementAt width.bits x (i + if high then 0 else 64 / width.bits)).getLsbD j := by
    have hbit := congrArg (BitVec.getLsbD · j)
      (elementAt_even (x := interleaved width.bits high x x) width hi)
    rw [elementAt_interleaved (by omega), Nat.mul_div_cancel_left i (by decide), hhalf] at hbit
    rw [hbit, BitVec.getLsbD_extractLsb', decide_eq_true hj, Bool.true_and]
  rw [elementAt_lanewise width.double.bits_dvd hi, elementAt_const width.double.bits_dvd hi,
    hamount, BitVec.getLsbD_sshiftRight, BitVec.getLsbD_signExtend, decide_eq_true hj, Bool.true_and]
  have hpos : 0 < width.bits := pos_of_dvd width.bits_dvd
  have hin : ¬width.double.bits ≤ j := by omega
  by_cases h : j < width.bits
  · rw [if_pos h, if_pos (by omega), hupper h]
    simp only [hin, decide_false, Bool.not_false, Bool.true_and]
  · rw [if_neg h, if_neg (by omega), BitVec.msb_eq_getLsbD_last, BitVec.msb_eq_getLsbD_last,
      show width.double.bits - 1 = width.bits + (width.bits - 1) by omega, hupper (by omega)]
    simp only [hin, decide_false, Bool.not_false, Bool.true_and]

end

end PowerLift
