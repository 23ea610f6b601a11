import Mathlib.Algebra.Order.Field.Power
import Mathlib.Data.Rat.Cast.Order
import Mathlib.Tactic.NormNum
import PowerLift.Proofs.DecimalValue

/-!
# The class of a decimal value

The class is found without the coefficient: the first nonzero digit is looked for among the declets,
and its place decides whether a value is subnormal. The result is the class of the number that the
encoding stands for.
-/

namespace PowerLift.Decimal

/-! ## Words and encodings -/

/-- The format that the third argument selects: sixteen digits in 64 bits, or 34 in 128. -/
def formatOf (quad : BitVec 64) : Format :=
  if quad = 0 then
    { exponentBits := 8, declets := 5, bias := 398, digits := 16, minExponent := -383 }
  else { exponentBits := 12, declets := 11, bias := 6176, digits := 34, minExponent := -6143 }

theorem formatOf_eq (quad : BitVec 64) :
    formatOf quad = if quad = 0 then Format.long else Format.quad := rfl

/-- The encoding that the arguments hold. -/
def encodingOf (hi lo quad : BitVec 64) : Nat := if quad = 0 then lo.toNat else (hi ++ lo).toNat

/-- The words hold an encoding, of which `top` is the high word. -/
structure Format.Holds (f : Format) (top hi lo : BitVec 64) (v : Nat) : Prop where
  top_eq : top.toNat = v >>> (f.width - 64)
  width_ge : 64 ≤ f.width
  exponent_le : f.exponentBits ≤ 58
  declet {k : Nat} (hk : k < f.declets) : decletAt hi lo k = (v >>> (10 * k)) % 1024

theorem decletAt_long (hi lo : BitVec 64) {k : Nat} (hk : k < 5) :
    decletAt hi lo k = (lo.toNat >>> (10 * k)) % 1024 := by
  unfold decletAt
  dsimp only
  rw [if_neg (by omega), if_neg (by omega), BitVec.toNat_ushiftRight]

theorem decletAt_quad (hi lo : BitVec 64) {k : Nat} (hk : k < 11) :
    decletAt hi lo k = ((hi ++ lo).toNat >>> (10 * k)) % 1024 := by
  refine Nat.eq_of_testBit_eq fun i => ?_
  rw [decletAt, show 1024 = 2 ^ 10 from rfl, Nat.testBit_mod_two_pow, Nat.testBit_mod_two_pow,
    Nat.testBit_shiftRight]
  by_cases hi10 : i < 10
  · simp only [hi10, decide_true, Bool.true_and, BitVec.testBit_toNat, BitVec.getLsbD_append]
    split_ifs with hhigh hlast hsplit
    · omega
    · rw [BitVec.getLsbD_ushiftRight, show 10 * k - 64 + i = 10 * k + i - 64 by omega]
    · -- The declet of both words: its low bits are in the one, its high bits in the other.
      rw [BitVec.getLsbD_or, BitVec.getLsbD_ushiftRight, BitVec.getLsbD_shiftLeft]
      simp [show i < 64 - 10 * k by omega]
    · rw [BitVec.getLsbD_or, BitVec.getLsbD_ushiftRight, BitVec.getLsbD_shiftLeft,
        BitVec.getLsbD_of_ge lo _ (by omega)]
      simp [show i < 64 by omega, show ¬ i < 64 - 10 * k by omega,
        show i - (64 - 10 * k) = 10 * k + i - 64 by omega]
    · rw [BitVec.getLsbD_ushiftRight]
    · omega
  · simp [hi10]

theorem holds_long (hi lo : BitVec 64) : Format.long.Holds lo hi lo lo.toNat where
  top_eq := rfl
  width_ge := by decide
  exponent_le := by decide
  declet := decletAt_long hi lo

theorem holds_quad (hi lo : BitVec 64) : Format.quad.Holds hi hi lo (hi ++ lo).toNat where
  top_eq := by
    refine Nat.eq_of_testBit_eq fun i => ?_
    rw [Nat.testBit_shiftRight, BitVec.testBit_toNat, BitVec.testBit_toNat, BitVec.getLsbD_append,
      show Format.quad.width - 64 = 64 from rfl, if_neg (by omega), Nat.add_sub_cancel_left]
  width_ge := by decide
  exponent_le := by decide
  declet := decletAt_quad hi lo

/-! ## The number of digits -/

/-- `d` counts the digits of a number from its first nonzero one on. -/
def Counts (d n : Nat) : Prop := ∀ e, n < 10 ^ e ↔ d ≤ e

namespace Counts

variable {d n : Nat}

theorem zero_iff (h : Counts d n) : d = 0 ↔ n = 0 := by
  have h0 := h 0
  rw [pow_zero] at h0
  omega

theorem of_bounds (hlow : 10 ^ d ≤ n) (hhigh : n < 10 ^ (d + 1)) : Counts (d + 1) n := by
  intro e
  constructor
  · intro hn
    exact (Nat.pow_lt_pow_iff_right (by decide)).mp (hlow.trans_lt hn)
  · intro hd
    exact hhigh.trans_le (Nat.pow_le_pow_right (by decide) hd)

/-- The count decides the comparison with any power of ten. -/
theorem lt_zpow_iff (h : Counts d n) (hn : n ≠ 0) (e : Int) :
    (n : ℚ) < 10 ^ e ↔ (d : Int) ≤ e := by
  have hd : d ≠ 0 := h.zero_iff.not.mpr hn
  cases e with
  | ofNat e =>
    rw [Int.ofNat_eq_natCast, zpow_natCast, Int.ofNat_le, ← h e]
    exact_mod_cast Iff.rfl
  | negSucc e =>
    have hle : (10 : ℚ) ^ Int.negSucc e ≤ 1 :=
      zpow_le_one_of_nonpos₀ (by norm_num) (Int.negSucc_lt_zero e).le
    have hge : (1 : ℚ) ≤ n := by exact_mod_cast Nat.one_le_iff_ne_zero.mpr hn
    constructor
    · intro hlt
      exact absurd hlt (hle.trans hge).not_gt
    · intro hle'
      have := Int.negSucc_lt_zero e
      omega

end Counts

theorem digitCount_bounds {n : Nat} (hn : n ≠ 0) (hlt : n < 1000) :
    10 ^ (digitCount n - 1) ≤ n ∧ n < 10 ^ digitCount n ∧ 1 ≤ digitCount n := by
  unfold digitCount
  split_ifs <;> omega

theorem thousand_pow (k : Nat) : 1000 ^ k = 10 ^ (3 * k) := by
  rw [pow_mul, show 10 ^ 3 = 1000 from rfl]

variable {f : Format} {top hi lo : BitVec 64} {v : Nat}

theorem significantDigits_counts (h : f.Holds top hi lo v) {k : Nat} (hk : k ≤ f.declets) :
    Counts (significantDigits hi lo k) (trailing v k) := by
  induction k with
  | zero =>
    intro e
    simp [significantDigits, trailing]
  | succ k ih =>
    unfold significantDigits
    rw [h.declet (by omega), trailing_succ]
    generalize hn : Declet.toNat ((v >>> (10 * k)) % 1024) = n
    dsimp only
    split_ifs with hzero
    · rw [hzero, Nat.zero_mul, Nat.zero_add]
      exact ih (by omega)
    · obtain ⟨hlow, hhigh, hpos⟩ := digitCount_bounds hzero (hn ▸ Declet.toNat_lt _)
      have hrest := trailing_lt v k
      obtain ⟨c, hc⟩ : ∃ c, digitCount n = c + 1 := ⟨digitCount n - 1, by omega⟩
      rw [hc] at hlow hhigh ⊢
      -- The declets below the first nonzero one are less than one unit of it.
      refine Counts.of_bounds ?_ ?_
      · calc 10 ^ (3 * k + c) = 10 ^ c * 1000 ^ k := by rw [thousand_pow, pow_add, Nat.mul_comm]
          _ ≤ n * 1000 ^ k := Nat.mul_le_mul_right _ hlow
          _ ≤ n * 1000 ^ k + trailing v k := Nat.le_add_right _ _
      · calc n * 1000 ^ k + trailing v k < (n + 1) * 1000 ^ k := by
              rw [Nat.add_mul, Nat.one_mul]
              exact Nat.add_lt_add_left hrest _
          _ ≤ 10 ^ (c + 1) * 1000 ^ k := Nat.mul_le_mul_right _ hhigh
          _ = 10 ^ (3 * k + c + 1) := by rw [thousand_pow, ← pow_add]; congr 1; omega

/-- The coefficient of a finite value that the words hold. -/
def heldCoefficient (f : Format) (top : BitVec 64) (v : Nat) : Nat :=
  firstDigit top * 1000 ^ f.declets + trailing v f.declets

theorem heldCoefficient_lt (hdigits : f.digits = 3 * f.declets + 1) :
    heldCoefficient f top v < 10 ^ f.digits := by
  calc heldCoefficient f top v < (firstDigit top + 1) * 1000 ^ f.declets := by
        rw [heldCoefficient, Nat.add_mul, Nat.one_mul]
        exact Nat.add_lt_add_left (trailing_lt v f.declets) _
    _ ≤ 10 * 1000 ^ f.declets := Nat.mul_le_mul_right _ (firstDigit_lt top)
    _ = 10 ^ f.digits := by rw [hdigits, thousand_pow, pow_succ']

theorem significant_counts (h : f.Holds top hi lo v) (hdigits : f.digits = 3 * f.declets + 1) :
    Counts (f.significant top hi lo) (heldCoefficient f top v) := by
  have hlt : heldCoefficient f top v < 10 ^ f.digits := heldCoefficient_lt hdigits
  unfold Format.significant
  split_ifs with hzero
  · rw [hdigits] at hlt ⊢
    refine Counts.of_bounds ?_ hlt
    calc 10 ^ (3 * f.declets) = 1 * 1000 ^ f.declets := by rw [thousand_pow, Nat.one_mul]
      _ ≤ firstDigit top * 1000 ^ f.declets :=
          Nat.mul_le_mul_right _ (Nat.one_le_iff_ne_zero.mpr hzero)
      _ ≤ heldCoefficient f top v := Nat.le_add_right _ _
  · rw [heldCoefficient, not_not.mp hzero, Nat.zero_mul, Nat.zero_add]
    exact significantDigits_counts h (Nat.le_refl _)

/-! ## Fields -/

theorem Format.Holds.shift (h : f.Holds top hi lo v) {a b : Nat} (hab : b = f.width - 64 + a) :
    top.toNat >>> a = v >>> b := by
  rw [h.top_eq, ← Nat.shiftRight_add, hab]

theorem Format.Holds.combination_eq (h : f.Holds top hi lo v) :
    combination top = (v >>> (f.width - 6)) % 32 := by
  have := h.width_ge
  rw [combination, h.shift (b := f.width - 6) (by omega)]

theorem Format.Holds.biased_eq (h : f.Holds top hi lo v) :
    f.biased top = (splitCombination (combination top)).1 * 2 ^ f.exponentBits +
      (v >>> (10 * f.declets)) % 2 ^ f.exponentBits := by
  have hwidth := h.width_ge
  have hexponent := h.exponent_le
  unfold Format.width at hwidth
  rw [Format.biased, h.shift (b := 10 * f.declets) (by unfold Format.width; omega),
    Nat.one_shiftLeft]
  unfold splitCombination
  split_ifs <;> rfl

/-- What the encoding stands for, from its high word. -/
theorem Format.Holds.decode_eq (h : f.Holds top hi lo v) :
    f.decode v =
      if combination top = 30 then .infinity (v.testBit (f.width - 1))
      else if combination top = 31 then
        .nan (v.testBit (f.width - 1)) (decide ((top.toNat >>> 57) % 2 = 1))
      else .finite (v.testBit (f.width - 1)) (heldCoefficient f top v) (f.biased top) := by
  have hwidth := h.width_ge
  rw [Format.decode, heldCoefficient, h.biased_eq, firstDigit_eq, h.combination_eq,
    h.shift (a := 57) (b := f.width - 7) (by omega), Nat.testBit_eq_decide_div_mod_eq (i := f.width - 7),
    Nat.shiftRight_eq_div_pow _ (f.width - 7)]

/-! ## The class -/

namespace Format

/-- The size of a finite value. -/
def magnitude (f : Format) (coefficient biased : Nat) : ℚ :=
  coefficient * 10 ^ ((biased : Int) - f.bias)

/-- A size below those of normal values. -/
def Small (f : Format) (coefficient biased : Nat) : Prop :=
  f.magnitude coefficient biased < 10 ^ f.minExponent

/-- The least or the greatest biased exponent. -/
def Extreme (f : Format) (biased : Nat) : Prop := biased = 0 ∨ biased = 3 * 2 ^ f.exponentBits - 1

/-- Bit `k` of a result is set for a value. Bits 0 to 5 tell the class and bits 8 to 13 the data
group, for which an extreme exponent and a first digit of zero count as well. -/
def Sets (f : Format) (k : Nat) : Datum → Prop
  | .nan _ signalling => k = (if signalling then 0 else 1) ∨ k = 8
  | .infinity _ => k = 2 ∨ k = 8
  | .finite _ n biased =>
      k = 5 ∧ n = 0 ∨
      k = 4 ∧ n ≠ 0 ∧ f.Small n biased ∨
      k = 3 ∧ n ≠ 0 ∧ ¬ f.Small n biased ∨
      k = 13 ∧ n = 0 ∧ ¬ f.Extreme biased ∨
      k = 12 ∧ n = 0 ∧ f.Extreme biased ∨
      k = 11 ∧ n ≠ 0 ∧ (f.Small n biased ∨ f.Extreme biased) ∨
      k = 10 ∧ n ≠ 0 ∧ ¬ f.Small n biased ∧ ¬ f.Extreme biased ∧ n / 1000 ^ f.declets = 0 ∨
      k = 9 ∧ n ≠ 0 ∧ ¬ f.Small n biased ∧ ¬ f.Extreme biased ∧ n / 1000 ^ f.declets ≠ 0

theorem small_iff {d n : Nat} (h : Counts d n) (hn : n ≠ 0) (biased : Nat) :
    f.Small n biased ↔ f.adjusted biased d < f.minExponent := by
  have hscale : (0 : ℚ) < 10 ^ ((biased : Int) - f.bias) := by positivity
  unfold Small magnitude adjusted
  rw [← lt_div_iff₀ hscale, ← zpow_sub₀ (by norm_num), h.lt_zpow_iff hn]
  omega

/-- A power of ten is small by its exponent. -/
theorem small_pow_iff (d biased : Nat) :
    f.Small (10 ^ d) biased ↔ (d : Int) + (biased - f.bias) < f.minExponent := by
  rw [Small, magnitude, Nat.cast_pow, Nat.cast_ofNat, ← zpow_natCast, ← zpow_add₀ (by norm_num),
    zpow_lt_zpow_iff_right₀ (by norm_num)]

end Format

/-! ## Bits -/

/-- The number of the bit of a class. -/
@[simp]
def ValueClass.place : ValueClass → Nat
  | zero => 5
  | subnormal => 4
  | normal => 3
  | infinity => 2
  | quietNaN => 1
  | signallingNaN => 0

theorem ValueClass.mask_eq (c : ValueClass) : c.mask = 2 ^ c.place := by cases c <;> rfl

theorem ValueClass.place_lt (c : ValueClass) : c.place < 6 := by cases c <;> decide

/-- The number of the bit of a data group, from bit 8 on. -/
@[simp]
def DataGroup.place : DataGroup → Nat
  | zero => 5
  | zeroExtreme => 4
  | subnormalOrExtreme => 3
  | firstDigitZero => 2
  | firstDigitNonzero => 1
  | special => 0

theorem DataGroup.mask_eq (g : DataGroup) : g.mask = 2 ^ g.place := by cases g <;> rfl

theorem DataGroup.place_lt (g : DataGroup) : g.place < 6 := by cases g <;> decide

theorem getLsbD_masks (c : ValueClass) (g : DataGroup) (k : Nat) :
    (BitVec.ofNat 64 (c.mask + g.mask * 256)).getLsbD k = true ↔
      k = c.place ∨ k = 8 + g.place := by
  have hall : ∀ i < 6, ∀ j < 6, ∀ k < 64,
      (BitVec.ofNat 64 (2 ^ i + 2 ^ j * 256)).getLsbD k = decide (k = i ∨ k = 8 + j) := by
    decide +kernel
  have hc := c.place_lt
  have hg := g.place_lt
  rw [c.mask_eq, g.mask_eq]
  by_cases hk : k < 64
  · rw [hall _ hc _ hg k hk, decide_eq_true_iff]
  · rw [BitVec.getLsbD_of_ge _ _ (Nat.le_of_not_lt hk)]
    exact iff_of_false Bool.false_ne_true (by omega)

/-- The class and the data group have the bits of the value that the words hold. -/
theorem classOf_sets (h : f.Holds top hi lo v) (hdigits : f.digits = 3 * f.declets + 1) (k : Nat) :
    k = (classOf f top hi lo).1.place ∨ k = 8 + (classOf f top hi lo).2.place ↔
      f.Sets k (f.decode v) := by
  rw [h.decode_eq]
  unfold classOf
  dsimp only
  by_cases hinf : combination top = 30
  · simp [hinf, Format.Sets]
  by_cases hnan : combination top = 31
  · by_cases hsignalling : (top.toNat >>> 57) % 2 = 1 <;>
      simp [hnan, hsignalling, Format.Sets]
  rw [if_neg hinf, if_neg hnan, if_neg hinf, if_neg hnan]
  have hcounts := significant_counts h hdigits
  have hfirst : heldCoefficient f top v / 1000 ^ f.declets = firstDigit top := by
    rw [heldCoefficient, Nat.mul_comm, Nat.mul_add_div (Nat.pow_pos (by decide)),
      Nat.div_eq_of_lt (trailing_lt v f.declets), Nat.add_zero]
  have hextreme : (f.biased top = 0 ∨ f.biased top = f.maxBiased) ↔ f.Extreme (f.biased top) := by
    rw [Format.Extreme, Format.maxBiased, Nat.one_shiftLeft]
  simp only [Format.Sets, hfirst]
  generalize heldCoefficient f top v = n at hcounts ⊢
  by_cases hzero : n = 0
  · rw [if_pos (hcounts.zero_iff.mpr hzero)]
    by_cases hlimit : f.biased top = 0 ∨ f.biased top = f.maxBiased
    · rw [if_pos hlimit]
      simp [hzero, hextreme.mp hlimit]
    · rw [if_neg hlimit]
      simp [hzero, hextreme.not.mp hlimit]
  rw [if_neg (hcounts.zero_iff.not.mpr hzero)]
  have hsmall := Format.small_iff (f := f) hcounts hzero (f.biased top)
  by_cases hless : f.adjusted (f.biased top) (f.significant top hi lo) < f.minExponent
  · rw [if_pos hless]
    simp [hzero, hsmall.mpr hless]
  rw [if_neg hless]
  have hlarge := hsmall.not.mpr hless
  by_cases hlimit : f.biased top = 0 ∨ f.biased top = f.maxBiased
  · rw [if_pos hlimit]
    simp [hzero, hlarge, hextreme.mp hlimit]
  rw [if_neg hlimit]
  by_cases hlead : firstDigit top = 0 <;>
    simp [hzero, hlarge, hextreme.not.mp hlimit, hlead]

/-! ## Exactness -/

/-- The steps of a classification stay inside their types: no shift is as long as a word, and the
numbers of the exponent fit 64 bits with a sign. -/
structure Format.Exact (f : Format) (top hi lo : BitVec 64) : Prop where
  continuation : f.exponentBits ≤ 58
  places : ∀ k < f.declets, if 64 ≤ 10 * k then 10 * k - 64 < 64
    else 10 * k < 64 ∧ (64 < 10 * k + 10 → 64 - 10 * k < 64)
  maxBiased_lt : f.maxBiased < 2 ^ 63
  biased_lt : f.biased top < 2 ^ 63
  significant_lt : f.significant top hi lo < 2 ^ 63
  unbiased : -2 ^ 63 ≤ (f.biased top : Int) - f.bias ∧ (f.biased top : Int) - f.bias < 2 ^ 63
  scaled : -2 ^ 63 ≤ (f.biased top : Int) - f.bias + f.significant top hi lo ∧
    (f.biased top : Int) - f.bias + f.significant top hi lo < 2 ^ 63
  adjusted : -2 ^ 63 ≤ f.adjusted (f.biased top) (f.significant top hi lo) ∧
    f.adjusted (f.biased top) (f.significant top hi lo) < 2 ^ 63

theorem Format.Holds.exact (h : f.Holds top hi lo v) (hdigits : f.digits = 3 * f.declets + 1)
    (hdeclets : f.declets ≤ 11) (hexponent : f.exponentBits ≤ 12)
    (hbias : 0 ≤ f.bias ∧ f.bias < 2 ^ 16) : f.Exact top hi lo := by
  have hstep : 2 ^ f.exponentBits ≤ 2 ^ 12 := Nat.pow_le_pow_right (by decide) hexponent
  have hbiased : f.biased top < 2 ^ 15 := by
    have hhigh : (splitCombination (combination top)).1 < 4 := by
      have := Nat.mod_lt (top.toNat >>> 58) (show 0 < 32 by decide)
      unfold splitCombination combination
      split_ifs
      · exact Nat.mod_lt _ (by decide)
      · dsimp only
        omega
    calc f.biased top < (splitCombination (combination top)).1 * 2 ^ f.exponentBits +
            2 ^ f.exponentBits := by
          rw [h.biased_eq]
          exact Nat.add_lt_add_left (Nat.mod_lt _ (Nat.two_pow_pos _)) _
      _ = ((splitCombination (combination top)).1 + 1) * 2 ^ f.exponentBits := by ring
      _ ≤ 4 * 2 ^ 12 := Nat.mul_le_mul hhigh hstep
      _ < 2 ^ 15 := by decide
  have hcount : f.significant top hi lo ≤ f.digits :=
    (significant_counts h hdigits f.digits).mp (heldCoefficient_lt hdigits)
  have hmax : f.maxBiased < 3 * 2 ^ 12 := by
    have := Nat.two_pow_pos f.exponentBits
    rw [Format.maxBiased, Nat.one_shiftLeft]
    omega
  refine ⟨by omega, fun k hk => ?_, by omega, by omega, by omega, by omega, by omega, ?_⟩
  · split_ifs <;> omega
  · unfold Format.adjusted
    omega

/-! ## The result -/

theorem classify_eq (hi lo quad : BitVec 64) :
    classify hi lo quad =
      let r := classOf (formatOf quad) (if quad = 0 then lo else hi) hi lo
      .ofNat 64 (r.1.mask + r.2.mask * 256) := by
  unfold classify
  rw [formatOf_eq]
  by_cases hquad : quad = 0 <;>
    simp only [hquad, ne_eq, not_true_eq_false, not_false_eq_true, if_true, if_false]

theorem holds_encodingOf (hi lo quad : BitVec 64) :
    (formatOf quad).Holds (if quad = 0 then lo else hi) hi lo (encodingOf hi lo quad) := by
  rw [formatOf_eq]
  unfold encodingOf
  split_ifs
  · exact holds_long hi lo
  · exact holds_quad hi lo

theorem digits_formatOf (quad : BitVec 64) :
    (formatOf quad).digits = 3 * (formatOf quad).declets + 1 := by
  unfold formatOf
  split_ifs <;> rfl

theorem exact_formatOf (hi lo quad : BitVec 64) :
    (formatOf quad).Exact (if quad = 0 then lo else hi) hi lo := by
  refine (holds_encodingOf hi lo quad).exact (digits_formatOf quad) ?_ ?_ ?_ <;>
    unfold formatOf <;> split_ifs <;> decide

/-- One of the low eight bits is set and one of the others. -/
theorem one_bit_each (c : ValueClass) (g : DataGroup) :
    (∃! k, k < 8 ∧ (BitVec.ofNat 64 (c.mask + g.mask * 256)).getLsbD k = true) ∧
      ∃! k, 8 ≤ k ∧ (BitVec.ofNat 64 (c.mask + g.mask * 256)).getLsbD k = true := by
  have hc := c.place_lt
  simp only [getLsbD_masks]
  refine ⟨⟨c.place, ⟨by omega, .inl rfl⟩, ?_⟩, ⟨8 + g.place, ⟨by omega, .inr rfl⟩, ?_⟩⟩ <;>
    rintro k ⟨hk, hcase⟩ <;> omega

theorem significantDigits_long {hi hi' lo : BitVec 64} : ∀ {k : Nat}, k ≤ 5 →
    significantDigits hi' lo k = significantDigits hi lo k
  | 0, _ => rfl
  | k + 1, hk => by
    rw [significantDigits, significantDigits, decletAt_long hi' lo hk, decletAt_long hi lo hk,
      significantDigits_long (Nat.le_of_succ_le hk)]

/-- The routine stays inside its types and sets one class bit and one group bit. The bits are those
of the value that the encoding stands for. A long value does not depend on the other word. -/
theorem classify_describes (hi lo quad : BitVec 64) :
    (formatOf quad).Exact (if quad = 0 then lo else hi) hi lo ∧
    (∃! k, k < 8 ∧ (classify hi lo quad).getLsbD k = true) ∧
    (∃! k, 8 ≤ k ∧ (classify hi lo quad).getLsbD k = true) ∧
    (∀ k, (classify hi lo quad).getLsbD k = true ↔
      (formatOf quad).Sets k ((formatOf quad).decode (encodingOf hi lo quad))) ∧
    ∀ hi', classify hi' lo 0 = classify hi lo 0 := by
  refine ⟨exact_formatOf hi lo quad, ?_, ?_, fun k => ?_, fun hi' => ?_⟩
  · rw [classify_eq]
    exact (one_bit_each _ _).1
  · rw [classify_eq]
    exact (one_bit_each _ _).2
  · rw [classify_eq, getLsbD_masks]
    exact classOf_sets (holds_encodingOf hi lo quad) (digits_formatOf quad) k
  · have hdeclets : Format.long.declets ≤ 5 := by decide
    have hsame : Format.long.significant lo hi' lo = Format.long.significant lo hi lo := by
      unfold Format.significant
      rw [significantDigits_long hdeclets]
    rw [classify_eq, classify_eq, formatOf_eq]
    simp only [if_true, classOf, hsame]

/-- At the least exponent, zero, the greatest subnormal and the least normal power of ten; then one,
a power of ten whose digit stands in both words, infinity and both NaNs. -/
theorem classify_describes_each :
    let bits (hi lo quad : BitVec 64) (i j : Nat) : Prop :=
      ∀ k, (classify hi lo quad).getLsbD k = true ↔ k = i ∨ k = j
    bits 0 0 0 5 12 ∧ bits 0 0x0000800000000000 0 4 11 ∧ bits 0 0x0400000000000000 0 3 11 ∧
      bits 0 0x2238000000000001 0 3 10 ∧ bits 0x2208000000000001 0 1 3 10 ∧
      bits 0 0x7800000000000000 0 2 8 ∧ bits 0 0x7C00000000000000 0 1 8 ∧
      bits 0 0x7E00000000000000 0 0 8 := by
  intro bits
  have hbits {hi lo quad : BitVec 64} {x : Datum} {i j : Nat}
      (hdecode : (formatOf quad).decode (encodingOf hi lo quad) = x)
      (hsets : ∀ k, (formatOf quad).Sets k x ↔ k = i ∨ k = j) : bits hi lo quad i j := fun k => by
    rw [(classify_describes hi lo quad).2.2.2.1, hdecode, hsets]
  have hone : (1 : BitVec 64) ≠ 0 := by decide
  refine ⟨hbits (x := .finite false 0 0) (by decide +kernel) fun k => ?_,
    hbits (x := .finite false (10 ^ 14) 0) (by decide +kernel) fun k => ?_,
    hbits (x := .finite false (10 ^ 15) 0) (by decide +kernel) fun k => ?_,
    hbits (x := .finite false (10 ^ 0) 398) (by decide +kernel) fun k => ?_,
    hbits (x := .finite false (10 ^ 19) 6176) (by decide +kernel) fun k => ?_,
    hbits (x := .infinity false) (by decide +kernel) fun k => .rfl,
    hbits (x := .nan false false) (by decide +kernel) fun k => .rfl,
    hbits (x := .nan false true) (by decide +kernel) fun k => .rfl⟩ <;>
    simp only [Format.Sets, Format.small_pow_iff, Format.Extreme] <;>
    norm_num [formatOf, hone]

end PowerLift.Decimal
