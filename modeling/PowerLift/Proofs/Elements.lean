import Mathlib.Tactic.NormNum
import PowerLift.Op.Width

/-!
# Elements of vectors

A vector is cut into parts of one width, which divides its own. Operators count the parts as lanes
from the least significant one, instructions as elements from the most significant one. A vector is
determined by its parts.
-/

namespace PowerLift

theorem getLsbD_foldl_or {n : Nat} (f : Nat → BitVec n) (l : List Nat) (acc : BitVec n) (k : Nat) :
    (l.foldl (fun acc i => acc ||| f i) acc).getLsbD k =
      (acc.getLsbD k || l.any fun i => (f i).getLsbD k) := by
  induction l generalizing acc with
  | nil => simp
  | cons i l ih => rw [List.foldl_cons, ih, BitVec.getLsbD_or, List.any_cons, Bool.or_assoc]

/-- A bit of a number that is put together from parts of `n` bits. -/
theorem getLsbD_foldl_parts {n m : Nat} (f : Nat → BitVec n) (hn : n ∣ m) {k : Nat} (hk : k < m) :
    ((List.range (m / n)).foldl (fun acc i => acc ||| (f i).setWidth m <<< (n * i)) 0).getLsbD k =
      (f (k / n)).getLsbD (k % n) := by
  have hpos : 0 < n := Nat.pos_of_ne_zero fun h => by
    rw [h, Nat.zero_dvd] at hn
    omega
  have hzero : (0 : BitVec m).getLsbD k = false := BitVec.getLsbD_zero
  rw [getLsbD_foldl_or, hzero, Bool.false_or, Bool.eq_iff_iff, List.any_eq_true]
  simp only [List.mem_range, BitVec.getLsbD_shiftLeft, BitVec.getLsbD_setWidth, hk, decide_true,
    Bool.true_and, Bool.and_eq_true, Bool.not_eq_true', decide_eq_false_iff_not, Nat.not_lt,
    decide_eq_true_eq]
  constructor
  · rintro ⟨i, -, hle, -, hbit⟩
    -- A part has no bit beyond its width, so that it is the part in which the bit lies.
    have hlt : k - n * i < n := BitVec.lt_of_getLsbD hbit
    have hdiv : k / n = i := by
      rw [Nat.div_eq_iff hpos]
      rw [Nat.mul_comm] at hle hlt
      omega
    rwa [Nat.mod_eq_sub, hdiv]
  · intro hbit
    have hsum := Nat.div_add_mod k n
    refine ⟨k / n, Nat.div_lt_div_of_lt_of_dvd hn hk, by omega, by omega, ?_⟩
    rwa [← Nat.mod_eq_sub]

/-! ## Lanes and elements -/

/-- Lane `i` of a vector, the least significant first. -/
def laneAt (n : Nat) (x : BitVec 128) (i : Nat) : BitVec n := x.extractLsb' (n * i) n

/-- The vector with given lanes. -/
def ofLanes (n : Nat) (f : Nat → BitVec n) : BitVec 128 :=
  (List.range (128 / n)).foldl (fun acc i => acc ||| (f i).setWidth 128 <<< (n * i)) 0

/-- Element `i` of a vector, the most significant first. -/
def elementAt (n : Nat) (x : BitVec 128) (i : Nat) : BitVec n := laneAt n x (128 / n - 1 - i)

/-- The vector with given elements. -/
def ofElements (n : Nat) (f : Nat → BitVec n) : BitVec 128 :=
  ofLanes n fun i => f (128 / n - 1 - i)

/-- What is done to the lanes of two vectors one by one. -/
def lanewise (n : Nat) (f : BitVec n → BitVec n → BitVec n) (x y : BitVec 128) : BitVec 128 :=
  ofLanes n fun i => f (laneAt n x i) (laneAt n y i)

section

variable {n i j k : Nat} {x y : BitVec 128} {f g : Nat → BitVec n}

theorem getLsbD_laneAt : (laneAt n x i).getLsbD j = (decide (j < n) && x.getLsbD (n * i + j)) :=
  BitVec.getLsbD_extractLsb' _ _ _ _

theorem getLsbD_ofLanes (hn : n ∣ 128) (hk : k < 128) :
    (ofLanes n f).getLsbD k = (f (k / n)).getLsbD (k % n) := getLsbD_foldl_parts f hn hk

theorem pos_of_dvd (hn : n ∣ 128) : 0 < n := Nat.pos_of_dvd_of_pos hn (by decide)

theorem mul_add_lt (hn : n ∣ 128) (hi : i < 128 / n) (hj : j < n) : n * i + j < 128 := by
  have hle : n * (i + 1) ≤ 128 := by
    rw [← Nat.mul_div_cancel' hn]
    exact Nat.mul_le_mul_left n hi
  rw [Nat.mul_succ] at hle
  omega

theorem laneAt_ofLanes (hn : n ∣ 128) (hi : i < 128 / n) : laneAt n (ofLanes n f) i = f i := by
  refine BitVec.eq_of_getLsbD_eq fun j hj => ?_
  rw [getLsbD_laneAt, getLsbD_ofLanes hn (mul_add_lt hn hi hj), decide_eq_true hj, Bool.true_and,
    Nat.mul_add_div (pos_of_dvd hn), Nat.div_eq_of_lt hj, Nat.mul_add_mod, Nat.mod_eq_of_lt hj,
    Nat.add_zero]

/-- A vector is determined by its lanes. -/
theorem eq_ofLanes (hn : n ∣ 128) (h : ∀ i < 128 / n, laneAt n x i = f i) : x = ofLanes n f := by
  refine BitVec.eq_of_getLsbD_eq fun k hk => ?_
  rw [getLsbD_ofLanes hn hk, ← h _ (Nat.div_lt_div_of_lt_of_dvd hn hk), getLsbD_laneAt,
    decide_eq_true (Nat.mod_lt _ (pos_of_dvd hn)), Bool.true_and, Nat.div_add_mod]

/-- Lanes and elements count in opposite directions. -/
theorem mirrored_lt (hi : i < 128 / n) : 128 / n - 1 - i < 128 / n := by omega

theorem mirrored_mirrored (hi : i < 128 / n) : 128 / n - 1 - (128 / n - 1 - i) = i := by omega

theorem elementAt_ofElements (hn : n ∣ 128) (hi : i < 128 / n) :
    elementAt n (ofElements n f) i = f i := by
  rw [elementAt, ofElements, laneAt_ofLanes hn (mirrored_lt hi), mirrored_mirrored hi]

theorem laneAt_eq_elementAt (hi : i < 128 / n) :
    laneAt n x i = elementAt n x (128 / n - 1 - i) := by
  rw [elementAt, mirrored_mirrored hi]

/-- A vector is determined by its elements. -/
theorem eq_ofElements (hn : n ∣ 128) (h : ∀ i < 128 / n, elementAt n x i = f i) :
    x = ofElements n f :=
  eq_ofLanes hn fun _ hi => (laneAt_eq_elementAt hi).trans (h _ (mirrored_lt hi))

theorem ofElements_congr (hn : n ∣ 128) (h : ∀ i < 128 / n, f i = g i) :
    ofElements n f = ofElements n g :=
  eq_ofElements hn fun i hi => (elementAt_ofElements hn hi).trans (h i hi)

theorem elementAt_lanewise (hn : n ∣ 128) (hi : i < 128 / n) (f : BitVec n → BitVec n → BitVec n) :
    elementAt n (lanewise n f x y) i = f (elementAt n x i) (elementAt n y i) :=
  laneAt_ofLanes hn (mirrored_lt hi)

/-- The same in every lane. -/
theorem elementAt_const (hn : n ∣ 128) (hi : i < 128 / n) (a : BitVec n) :
    elementAt n (ofLanes n fun _ => a) i = a := laneAt_ofLanes hn (mirrored_lt hi)

theorem elementAt_and : elementAt n (x &&& y) i = elementAt n x i &&& elementAt n y i :=
  BitVec.extractLsb'_and

theorem elementAt_or : elementAt n (x ||| y) i = elementAt n x i ||| elementAt n y i :=
  BitVec.extractLsb'_or

theorem elementAt_xor : elementAt n (x ^^^ y) i = elementAt n x i ^^^ elementAt n y i :=
  BitVec.extractLsb'_xor

theorem elementAt_not (hn : n ∣ 128) (hi : i < 128 / n) :
    elementAt n (~~~x) i = ~~~elementAt n x i := by
  refine BitVec.eq_of_getLsbD_eq fun j hj => ?_
  rw [elementAt, getLsbD_laneAt, BitVec.getLsbD_not, BitVec.getLsbD_not, elementAt, getLsbD_laneAt]
  simp only [hj, mul_add_lt hn (mirrored_lt hi) hj, decide_true, Bool.true_and]

/-- A vector has a bit set where an element has. -/
theorem ne_zero_iff_elementAt (hn : n ∣ 128) : x ≠ 0 ↔ ∃ i < 128 / n, elementAt n x i ≠ 0 := by
  constructor
  · intro hx
    by_contra! h
    refine hx ((eq_ofElements hn h).trans ?_)
    refine (eq_ofElements hn fun i _ => ?_).symm
    exact BitVec.eq_of_getLsbD_eq fun j hj => by simp [elementAt, getLsbD_laneAt]
  · rintro ⟨i, -, hi⟩ rfl
    exact hi (BitVec.eq_of_getLsbD_eq fun j hj => by simp [elementAt, getLsbD_laneAt])

end

/-! ## Two vectors side by side -/

/-- Element `i` of two vectors, the first before the second. -/
def joined (n : Nat) (x y : BitVec 128) (i : Nat) : BitVec n :=
  if i < 128 / n then elementAt n x i else elementAt n y (i - 128 / n)

/-- The vector that starts at element `k` of two vectors. -/
def window (n : Nat) (x y : BitVec 128) (k : Nat) : BitVec 128 :=
  ofElements n fun i => joined n x y (i + k)

/-- A window is put together from a shift of either vector. -/
theorem window_eq {n k : Nat} (hn : n ∣ 128) (hk : k ≤ 128 / n) (x y : BitVec 128) :
    window n x y k = x <<< (n * k) ||| y >>> (n * (128 / n - k)) := by
  refine (eq_ofElements hn fun i hi => BitVec.eq_of_getLsbD_eq fun j hj => ?_).symm
  obtain ⟨l, hl⟩ := hn
  have hdiv : 128 / n = l := by
    rw [hl]
    exact Nat.mul_div_cancel_left l (Nat.zero_lt_of_lt hj)
  rw [hdiv] at hi hk
  have hlane : n * (l - 1 - i) + j < 128 := by
    refine mul_add_lt ⟨l, hl⟩ ?_ hj
    omega
  rw [elementAt_or, BitVec.getLsbD_or, elementAt, elementAt, getLsbD_laneAt, getLsbD_laneAt, joined,
    hdiv, BitVec.getLsbD_shiftLeft, BitVec.getLsbD_ushiftRight]
  simp only [hj, hlane, decide_true, Bool.true_and]
  by_cases h : i + k < l
  · have hle : n * k ≤ n * (l - 1 - i) := Nat.mul_le_mul_left n (by omega)
    have hhigh : 128 ≤ n * (l - k) + (n * (l - 1 - i) + j) := by
      rw [hl, ← Nat.add_assoc, ← Nat.mul_add]
      have := Nat.mul_le_mul_left n (show l ≤ l - k + (l - 1 - i) by omega)
      omega
    rw [if_pos h, BitVec.getLsbD_of_ge y _ hhigh, Bool.or_false, elementAt, getLsbD_laneAt, hdiv,
      show l - 1 - (i + k) = l - 1 - i - k by omega, Nat.mul_sub n (l - 1 - i) k,
      decide_eq_true hj, Bool.true_and,
      show n * (l - 1 - i) + j - n * k = n * (l - 1 - i) - n * k + j by omega]
    simp only [show ¬n * (l - 1 - i) + j < n * k by omega, decide_false, Bool.not_false,
      Bool.true_and]
  · have hlt : n * (l - 1 - i) + j < n * k := by
      have := Nat.mul_le_mul_left n (show l - 1 - i + 1 ≤ k by omega)
      rw [Nat.mul_succ] at this
      omega
    rw [if_neg h, elementAt, getLsbD_laneAt, hdiv, decide_eq_true hj, Bool.true_and,
      show l - 1 - (i + k - l) = l - k + (l - 1 - i) by omega, Nat.mul_add, Nat.add_assoc]
    simp only [hlt, decide_true, Bool.not_true, Bool.false_and, Bool.false_or]

theorem window_zero {n : Nat} (hn : n ∣ 128) (x y : BitVec 128) : window n x y 0 = x := by
  refine (eq_ofElements hn fun i hi => ?_).symm
  rw [Nat.add_zero, joined, if_pos hi]

end PowerLift
