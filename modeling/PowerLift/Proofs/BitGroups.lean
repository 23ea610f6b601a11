import Mathlib.Tactic.Ring

/-!
# Groups of bits

Counts of bits are made in groups: sums of neighbouring groups stand in groups of twice the width,
and no sum carries into the next group. The zeros at an end of a number are counted up to the first
bit that is set.
-/

namespace PowerLift

variable {n k i : Nat} {x y m : BitVec n}

/-- Every group of `k` bits of `y` is what `f` makes of that group of `x`. -/
def Lanewise (k : Nat) (f : BitVec k → BitVec k) (x y : BitVec n) : Prop :=
  ∀ i, k * (i + 1) ≤ n → y.extractLsb' (k * i) k = f (x.extractLsb' (k * i) k)

/-- A number in a single group. -/
theorem lanewise_self {f : BitVec n → BitVec n} (hn : 0 < n) (x : BitVec n) :
    Lanewise n f x (f x) := by
  intro i hi
  obtain rfl : i = 0 := by
    by_contra hne
    have htwo : n * 2 ≤ n * (i + 1) := Nat.mul_le_mul_left n (by omega)
    omega
  rw [Nat.mul_zero, BitVec.extractLsb'_eq_self, BitVec.extractLsb'_eq_self]

/-- Two halves. -/
theorem lanewise_append {f : BitVec k → BitVec k} (hk : 0 < k) (x : BitVec (k + k)) :
    Lanewise k f x (f (x.extractLsb' k k) ++ f (x.extractLsb' 0 k)) := by
  intro i hi
  have hlt : i < 2 := by
    by_contra hge
    have hthree : k * 3 ≤ k * (i + 1) := Nat.mul_le_mul_left k (by omega)
    omega
  obtain rfl | rfl : i = 0 ∨ i = 1 := by omega
  · rw [Nat.mul_zero, BitVec.extractLsb'_append_eq_right]
  · rw [Nat.mul_one, BitVec.extractLsb'_append_eq_left]

/-! ## Sums -/

/-- What stands below a group of two numbers does not carry into it, as long as no lower group
overflows. -/
theorem low_sum_lt (hfit : ∀ j < i, (x.extractLsb' (k * j) k).toNat +
    (y.extractLsb' (k * j) k).toNat < 2 ^ k) :
    x.toNat % 2 ^ (k * i) + y.toNat % 2 ^ (k * i) < 2 ^ (k * i) := by
  induction i with
  | zero => simp [Nat.mod_one]
  | succ i ih =>
      have hlow := ih fun j hj => hfit j (by omega)
      have hlane := hfit i (Nat.lt_succ_self i)
      rw [BitVec.extractLsb'_toNat, BitVec.extractLsb'_toNat, Nat.shiftRight_eq_div_pow,
        Nat.shiftRight_eq_div_pow] at hlane
      rw [Nat.mul_succ, Nat.pow_add, Nat.mod_mul, Nat.mod_mul]
      calc
        _ = x.toNat % 2 ^ (k * i) + y.toNat % 2 ^ (k * i) + 2 ^ (k * i) *
            (x.toNat / 2 ^ (k * i) % 2 ^ k + y.toNat / 2 ^ (k * i) % 2 ^ k) := by ring
        _ < 2 ^ (k * i) + 2 ^ (k * i) * (x.toNat / 2 ^ (k * i) % 2 ^ k +
            y.toNat / 2 ^ (k * i) % 2 ^ k) := Nat.add_lt_add_right hlow _
        _ = 2 ^ (k * i) * (x.toNat / 2 ^ (k * i) % 2 ^ k + y.toNat / 2 ^ (k * i) % 2 ^ k + 1) := by
          ring
        _ ≤ 2 ^ (k * i) * 2 ^ k := Nat.mul_le_mul_left _ hlane

/-- Numbers are added group by group where no group overflows. -/
theorem toNat_extract_add (hi : k * (i + 1) ≤ n) (hfit : ∀ j ≤ i,
    (x.extractLsb' (k * j) k).toNat + (y.extractLsb' (k * j) k).toNat < 2 ^ k) :
    ((x + y).extractLsb' (k * i) k).toNat =
      (x.extractLsb' (k * i) k).toNat + (y.extractLsb' (k * i) k).toNat := by
  have hlow := low_sum_lt fun j hj => hfit j (Nat.le_of_lt hj)
  have hlane := hfit i (Nat.le_refl i)
  rw [BitVec.extractLsb'_toNat, BitVec.extractLsb'_toNat, Nat.shiftRight_eq_div_pow,
    Nat.shiftRight_eq_div_pow] at hlane ⊢
  rw [BitVec.extractLsb'_toNat, Nat.shiftRight_eq_div_pow, BitVec.toNat_add]
  have hwidth : 2 ^ n = 2 ^ (k * i) * (2 ^ k * 2 ^ (n - k * (i + 1))) := by
    rw [← Nat.pow_add, ← Nat.pow_add]
    congr 1
    rw [Nat.mul_succ] at hi ⊢
    omega
  rw [hwidth, Nat.mod_mul_right_div_self, Nat.mod_mul_right_mod,
    Nat.add_div (Nat.two_pow_pos _), if_neg (by omega), Nat.add_zero, Nat.add_mod,
    Nat.mod_eq_of_lt hlane]

/-! ## Neighbours -/

/-- The mask `m` holds the bits at the places where `p` is true. -/
def Masks (p : Nat → Bool) (m : BitVec n) : Prop := ∀ t < n, m.getLsbD t = p t

instance (p : Nat → Bool) (m : BitVec n) : Decidable (Masks p m) :=
  inferInstanceAs (Decidable (∀ t < n, m.getLsbD t = p t))

/-- A mask is cut to a narrower number. -/
theorem Masks.setWidth {p : Nat → Bool} {w : Nat} (hm : Masks p m) (hw : w ≤ n) :
    Masks p (m.setWidth w) := by
  intro t ht
  rw [BitVec.getLsbD_setWidth, decide_eq_true ht, Bool.true_and, hm t (by omega)]

/-- The mask `m` holds the lower half of every group of `k + k` bits. -/
abbrev HoldsLower (k : Nat) (m : BitVec n) : Prop := Masks (fun t => decide (t % (k + k) < k)) m

theorem HoldsLower.getLsbD (hm : HoldsLower k m) (hi : i < n) :
    m.getLsbD i = decide (i % (k + k) < k) := hm i hi

theorem extract_and (hm : HoldsLower k m) (i : Nat) :
    (x &&& m).extractLsb' ((k + k) * i) (k + k) =
      (x.extractLsb' (k * (2 * i)) k).setWidth (k + k) := by
  apply BitVec.eq_of_getLsbD_eq
  intro t ht
  have hplace : k * (2 * i) = (k + k) * i := by ring
  rw [BitVec.getLsbD_extractLsb', BitVec.getLsbD_and, BitVec.getLsbD_setWidth,
    BitVec.getLsbD_extractLsb', hplace]
  by_cases hin : (k + k) * i + t < n
  · rw [hm.getLsbD hin, Nat.mul_add_mod, Nat.mod_eq_of_lt ht]
    simp [ht, Bool.and_comm]
  · rw [BitVec.getLsbD_of_ge x _ (by omega)]
    simp

theorem extract_shift (i : Nat) :
    (x >>> k).extractLsb' (k * i) k = x.extractLsb' (k * (i + 1)) k := by
  apply BitVec.eq_of_getLsbD_eq
  intro t ht
  rw [BitVec.getLsbD_extractLsb', BitVec.getLsbD_extractLsb', BitVec.getLsbD_ushiftRight,
    Nat.mul_succ, Nat.add_comm (k * i) k, Nat.add_assoc]

/-- Groups of half the width end where the groups that they make up do, or before. -/
theorem group_within {j : Nat} (hi : (k + k) * (i + 1) ≤ n) (hj : j ≤ 2 * i + 1) :
    k * (j + 1) ≤ n :=
  calc
    k * (j + 1) ≤ k * (2 * i + 1 + 1) := Nat.mul_le_mul_left k (Nat.succ_le_succ hj)
    _ = (k + k) * (i + 1) := by ring
    _ ≤ n := hi

/-- Twice as many bits are counted as those of two neighbours. -/
theorem cpop_extract_double (x : BitVec n) (i : Nat) :
    (x.extractLsb' ((k + k) * i) (k + k)).cpop.toNat =
      (x.extractLsb' (k * (2 * i)) k).cpop.toNat +
        (x.extractLsb' (k * (2 * i + 1)) k).cpop.toNat := by
  have hplace : (k + k) * i = k * (2 * i) := by ring
  have happend : x.extractLsb' (k * (2 * i + 1)) k ++ x.extractLsb' (k * (2 * i)) k =
      x.extractLsb' (k * (2 * i)) (k + k) :=
    BitVec.extractLsb'_append_extractLsb'_eq_extractLsb' (by ring)
  rw [hplace, Nat.add_comm (BitVec.toNat _), ← BitVec.toNat_cpop_append, happend]

/-- The counts of neighbours are added in the groups that they make up together. -/
theorem Lanewise.double (hk : 0 < k) (hm : HoldsLower k m) (h : Lanewise k BitVec.cpop x y) :
    Lanewise (k + k) BitVec.cpop x ((y &&& m) + (y >>> k &&& m)) := by
  intro i hi
  have hlow (j : Nat) : ((y &&& m).extractLsb' ((k + k) * j) (k + k)).toNat =
      (y.extractLsb' (k * (2 * j)) k).toNat := by
    rw [extract_and hm, BitVec.toNat_setWidth_of_le (Nat.le_add_right k k)]
  have hhigh (j : Nat) : ((y >>> k &&& m).extractLsb' ((k + k) * j) (k + k)).toNat =
      (y.extractLsb' (k * (2 * j + 1)) k).toNat := by
    rw [extract_and hm, BitVec.toNat_setWidth_of_le (Nat.le_add_right k k), extract_shift]
  have hfit : 2 ^ k + 2 ^ k ≤ 2 ^ (k + k) := by
    have htwo : 2 ^ 1 ≤ 2 ^ k := Nat.pow_le_pow_right (by decide) hk
    rw [← Nat.mul_two, Nat.pow_add]
    exact Nat.mul_le_mul_left _ htwo
  apply BitVec.eq_of_toNat_eq
  rw [toNat_extract_add hi fun j _ => by rw [hlow, hhigh]; omega, hlow, hhigh,
    h _ (group_within hi (by omega)), h _ (group_within hi (by omega)), cpop_extract_double]

/-- Where the sum of two counts fits in a group, the mask may be put on the sum. -/
theorem Lanewise.double_sum (hk : k + k < 2 ^ k) (hm : HoldsLower k m)
    (h : Lanewise k BitVec.cpop x y) :
    Lanewise (k + k) BitVec.cpop x ((y + y >>> k) &&& m) := by
  intro i hi
  have hcount {j : Nat} (hj : j ≤ 2 * i + 1) : (y.extractLsb' (k * j) k).toNat ≤ k := by
    rw [h j (group_within hi hj)]
    exact BitVec.toNat_cpop_le _
  apply BitVec.eq_of_toNat_eq
  rw [extract_and hm, BitVec.toNat_setWidth_of_le (Nat.le_add_right k k), cpop_extract_double,
    toNat_extract_add (group_within hi (by omega)), extract_shift,
    h _ (group_within hi (by omega)), h _ (group_within hi (by omega))]
  intro j hj
  rw [extract_shift]
  have hself := hcount (j := j) (by omega)
  have hnext := hcount (j := j + 1) (by omega)
  omega

/-- A single bit is its own count. -/
theorem lanewise_bit (x : BitVec n) : Lanewise 1 BitVec.cpop x x := by
  intro i _
  generalize x.extractLsb' (1 * i) 1 = b
  revert b
  decide

/-- Two bits less the upper one are the sum of both. -/
theorem sub_upper_bits (hm : HoldsLower 1 m) (x : BitVec n) :
    x - (x >>> 1 &&& m) = (x &&& m) + (x >>> 1 &&& m) := by
  have hupper {t : Nat} (ht : t < n) : ((x >>> 1 &&& m) <<< 1).getLsbD t =
      (x.getLsbD t && decide (t % 2 = 1)) := by
    rw [BitVec.getLsbD_shiftLeft, BitVec.getLsbD_and, BitVec.getLsbD_ushiftRight,
      hm.getLsbD (show t - 1 < n by omega)]
    by_cases hodd : t % 2 = 1
    · simp [ht, hodd, show ¬t < 1 by omega, show 1 + (t - 1) = t by omega,
        show (t - 1) % 2 < 1 by omega]
    · by_cases hzero : t < 1
      · simp [hzero, hodd]
      · simp [hodd, show ¬(t - 1) % 2 < 1 by omega]
  have hlower {t : Nat} (ht : t < n) : (x &&& m).getLsbD t =
      (x.getLsbD t && !decide (t % 2 = 1)) := by
    rw [BitVec.getLsbD_and, hm.getLsbD ht, ← decide_not]
    congr 2
    exact propext (by omega)
  have hapart : (x &&& m) &&& (x >>> 1 &&& m) <<< 1 = 0#n := by
    apply BitVec.eq_of_getLsbD_eq
    intro t ht
    rw [BitVec.getLsbD_and, hupper ht, hlower ht]
    cases x.getLsbD t <;> simp
  have hjoin : (x &&& m) ||| (x >>> 1 &&& m) <<< 1 = x := by
    apply BitVec.eq_of_getLsbD_eq
    intro t ht
    rw [BitVec.getLsbD_or, hupper ht, hlower ht]
    cases x.getLsbD t <;> simp
  have htwice : (x >>> 1 &&& m) <<< 1 = (x >>> 1 &&& m) + (x >>> 1 &&& m) := by
    apply BitVec.eq_of_toNat_eq
    rw [BitVec.toNat_shiftLeft, BitVec.toNat_add, Nat.shiftLeft_eq, Nat.pow_one, Nat.mul_two]
  calc
    x - (x >>> 1 &&& m)
        = (x &&& m) + (x >>> 1 &&& m) <<< 1 - (x >>> 1 &&& m) := by
          rw [BitVec.add_eq_or_of_and_eq_zero _ _ hapart, hjoin]
    _ = (x &&& m) + (x >>> 1 &&& m) := by
          rw [htwice, ← BitVec.add_assoc, BitVec.add_sub_cancel]

/-- The steps that count the bits of every byte. -/
theorem lanewise_countBytes {m₁ m₂ m₄ : BitVec n} (h₁ : HoldsLower 1 m₁)
    (h₂ : HoldsLower 2 m₂) (h₄ : HoldsLower 4 m₄) (x : BitVec n) :
    let pairs := x - (x >>> 1 &&& m₁)
    let nibbles := (pairs &&& m₂) + (pairs >>> 2 &&& m₂)
    Lanewise 8 BitVec.cpop x ((nibbles + nibbles >>> 4) &&& m₄) := by
  intro pairs nibbles
  have hpairs : Lanewise 2 BitVec.cpop x pairs := by
    change Lanewise 2 BitVec.cpop x (x - (x >>> 1 &&& m₁))
    rw [sub_upper_bits h₁]
    exact (lanewise_bit x).double (by decide) h₁
  have hnibbles : Lanewise 4 BitVec.cpop x nibbles := hpairs.double (by decide) h₂
  exact hnibbles.double_sum (by decide) h₄

/-! ## Parities -/

/-- An odd number of bytes have their lowest bit set. -/
def oddBytes (x : BitVec k) : Bool :=
  decide ((List.range (k / 8)).countP (fun j => x.getLsbD (8 * j)) % 2 = 1)

/-- A truth value as a number. -/
def truthWord (k : Nat) (p : Bool) : BitVec k := (BitVec.ofBool p).setWidth k

theorem odd_countP_xor {α : Type} (f g : α → Bool) (l : List α) :
    l.countP (fun a => f a ^^ g a) % 2 = (l.countP f + l.countP g) % 2 := by
  induction l with
  | nil => rfl
  | cons a l ih =>
      rw [List.countP_cons, List.countP_cons, List.countP_cons]
      cases f a <;> cases g a <;> simp <;> omega

/-- Folding the upper half of a group onto the lower one keeps the parity. -/
theorem oddBytes_fold {w : Nat} (hw : 8 ∣ w) (x : BitVec n) (s : Nat) :
    oddBytes ((x ^^^ x >>> w).extractLsb' s w) = oddBytes (x.extractLsb' s (w + w)) := by
  obtain ⟨a, rfl⟩ := hw
  have hhalf : 8 * a / 8 = a := Nat.mul_div_cancel_left a (by decide)
  have hwhole : (8 * a + 8 * a) / 8 = a + a := by omega
  have hlow : (List.range a).countP
      (fun j => (x.extractLsb' s (8 * a + 8 * a)).getLsbD (8 * j)) =
      (List.range a).countP fun j => x.getLsbD (s + 8 * j) := by
    apply List.countP_congr
    intro j hj
    have hlt : 8 * j < 8 * a + 8 * a := by have := List.mem_range.mp hj; omega
    rw [BitVec.getLsbD_extractLsb', decide_eq_true hlt, Bool.true_and]
  have hhigh : (List.range a).countP
      ((fun j => (x.extractLsb' s (8 * a + 8 * a)).getLsbD (8 * j)) ∘ fun j => a + j) =
      (List.range a).countP fun j => x.getLsbD (8 * a + (s + 8 * j)) := by
    apply List.countP_congr
    intro j hj
    have hlt : 8 * (a + j) < 8 * a + 8 * a := by have := List.mem_range.mp hj; omega
    rw [Function.comp, BitVec.getLsbD_extractLsb', decide_eq_true hlt, Bool.true_and,
      show s + 8 * (a + j) = 8 * a + (s + 8 * j) by ring]
  have hfolded : (List.range a).countP (fun j =>
      ((x ^^^ x >>> (8 * a)).extractLsb' s (8 * a)).getLsbD (8 * j)) =
      (List.range a).countP fun j => x.getLsbD (s + 8 * j) ^^ x.getLsbD (8 * a + (s + 8 * j)) := by
    apply List.countP_congr
    intro j hj
    have hlt : 8 * j < 8 * a := by have := List.mem_range.mp hj; omega
    rw [BitVec.getLsbD_extractLsb', decide_eq_true hlt, Bool.true_and, BitVec.getLsbD_xor,
      BitVec.getLsbD_ushiftRight]
  rw [oddBytes, oddBytes, hhalf, hwhole, List.range_add, List.countP_append, List.countP_map, hlow,
    hhigh, hfolded, odd_countP_xor]

/-- In a single byte, the lowest bit tells. -/
theorem oddBytes_byte (x : BitVec n) (s : Nat) : oddBytes (x.extractLsb' s 8) = x.getLsbD s := by
  cases h : x.getLsbD s <;> simp [oddBytes, List.range_succ, h]

/-- The mask `m` holds the lowest bit of every group of `k` bits. -/
abbrev HoldsLowest (k : Nat) (m : BitVec n) : Prop := Masks (fun t => decide (t % k = 0)) m

theorem HoldsLowest.getLsbD (hm : HoldsLowest k m) (hi : i < n) :
    m.getLsbD i = decide (i % k = 0) := hm i hi

theorem oddBytes_lowest {s w : Nat} (hs : 8 ∣ s) (hm : HoldsLowest 8 m) (x : BitVec n) :
    oddBytes ((x &&& m).extractLsb' s w) = oddBytes (x.extractLsb' s w) := by
  have hbits (j : Nat) : (x &&& m).getLsbD (s + 8 * j) = x.getLsbD (s + 8 * j) := by
    by_cases hin : s + 8 * j < n
    · rw [BitVec.getLsbD_and, hm.getLsbD hin, decide_eq_true (by omega), Bool.and_true]
    · rw [BitVec.getLsbD_of_ge _ _ (by omega), BitVec.getLsbD_of_ge _ _ (by omega)]
  simp only [oddBytes, BitVec.getLsbD_extractLsb', hbits]

theorem extract_lowest (hm : HoldsLowest k m) (hi : k * (i + 1) ≤ n) (x : BitVec n) :
    (x &&& m).extractLsb' (k * i) k = truthWord k (x.getLsbD (k * i)) := by
  apply BitVec.eq_of_getLsbD_eq
  intro t ht
  have hin : k * i + t < n := by rw [Nat.mul_succ] at hi; omega
  rw [truthWord, BitVec.getLsbD_extractLsb', BitVec.getLsbD_and, hm.getLsbD hin, Nat.mul_add_mod,
    Nat.mod_eq_of_lt ht, BitVec.getLsbD_setWidth, BitVec.getLsbD_ofBool]
  by_cases hzero : t = 0
  · simp [hzero]
  · simp [hzero]

/-- The steps that find the parity of every word. -/
theorem lanewise_parityWords {low keep : BitVec n} (hlow : HoldsLowest 8 low)
    (hkeep : HoldsLowest 32 keep) (x : BitVec n) :
    let bits := x &&& low
    let halves := bits ^^^ bits >>> 16
    Lanewise 32 (fun y => truthWord 32 (oddBytes y)) x ((halves ^^^ halves >>> 8) &&& keep) := by
  intro bits halves i hi
  rw [extract_lowest hkeep hi, ← oddBytes_byte, oddBytes_fold (by decide),
    oddBytes_fold (by decide), oddBytes_lowest (by omega) hlow]

/-- The steps that find the parity of a doubleword. -/
theorem lanewise_parityDoublewords {low keep : BitVec n} (hlow : HoldsLowest 8 low)
    (hkeep : HoldsLowest 64 keep) (x : BitVec n) :
    let bits := x &&& low
    let words := bits ^^^ bits >>> 32
    let halves := words ^^^ words >>> 16
    Lanewise 64 (fun y => truthWord 64 (oddBytes y)) x ((halves ^^^ halves >>> 8) &&& keep) := by
  intro bits words halves i hi
  rw [extract_lowest hkeep hi, ← oddBytes_byte, oddBytes_fold (by decide),
    oddBytes_fold (by decide), oddBytes_fold (by decide), oddBytes_lowest (by omega) hlow]

/-! ## Zeros at an end -/

/-- How many zeros lead or trail; all bits count for zero. -/
def zeroCount (leading : Bool) (x : BitVec n) : BitVec n := if leading then x.clz else x.ctz

/-- A number begins with `k` zeros and no more, at its most or its least significant end. -/
structure ZeroRun (leading : Bool) (x : BitVec n) (k : Nat) : Prop where
  le : k ≤ n
  zeros : ∀ i < k, (if leading then x.getMsbD i else x.getLsbD i) = false
  one : k < n → (if leading then x.getMsbD k else x.getLsbD k) = true

/-- Zero has no bit at which a run of zeros ends. -/
theorem ZeroRun.eq_width {leading : Bool} (h : ZeroRun leading (0 : BitVec n) k) : k = n := by
  by_contra hne
  have hone := h.one (Nat.lt_of_le_of_ne h.le hne)
  cases leading <;> simp at hone

theorem zeroCount_zero (leading : Bool) : zeroCount leading (0 : BitVec n) = .ofNat n n := by
  cases leading with
  | true => exact BitVec.clz_eq_iff_eq_zero.mpr rfl
  | false =>
      have hreverse : (0 : BitVec n).reverse = 0#n := BitVec.reverse_eq_zero_iff.mpr rfl
      exact BitVec.clz_eq_iff_eq_zero.mpr hreverse

theorem zeroRun_ctz (x : BitVec n) : ZeroRun false x x.ctz.toNat := by
  have hself : (BitVec.ofNat n n).toNat = n := Nat.mod_eq_of_lt Nat.lt_two_pow_self
  refine ⟨?_, fun i hi => BitVec.getLsbD_false_of_lt_ctz hi, fun hlt => ?_⟩
  · have hle : x.reverse.clz ≤ BitVec.ofNat n n := BitVec.clz_le
    rwa [BitVec.le_def, hself] at hle
  · refine BitVec.getLsbD_true_ctz_of_ne_zero fun hzero => ?_
    rw [hzero, show (0#n).ctz = .ofNat n n from zeroCount_zero false, hself] at hlt
    exact Nat.lt_irrefl n hlt

/-- The zeros are counted up to the first bit that is set. -/
theorem zeroRun_zeroCount (leading : Bool) (x : BitVec n) :
    ZeroRun leading x (zeroCount leading x).toNat := by
  cases leading with
  | false => exact zeroRun_ctz x
  | true =>
      -- From the other end, the number is its reverse.
      have hrun := zeroRun_ctz x.reverse
      rw [← BitVec.clz_eq_reverse_ctz] at hrun
      have hbit (i : Nat) : x.reverse.getLsbD i = x.getMsbD i := BitVec.getLsbD_reverse
      exact ⟨hrun.le, fun i hi => (hbit i).symm.trans (hrun.zeros i hi),
        fun hlt => (hbit _).symm.trans (hrun.one hlt)⟩

end PowerLift
