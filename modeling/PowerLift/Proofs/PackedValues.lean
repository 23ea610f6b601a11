import PowerLift.Proofs.PackedDigits

/-!
# Long decimals and packed digits

A long decimal is spelled in packed digits, with or without a sign, or is made of packed digits. One
undoes the other, as far as packed digits can hold the value.
-/

namespace PowerLift

open Decimal (Format Datum combination firstDigit splitCombination trailing)
open Declet (nibble number)

/-- The conversions: to packed digits, with the control that tells the sign code of positive values,
and from packed digits. -/
inductive DigitOp where
  | unpack (control : Nat)
  | pack (signed : Bool)
  deriving DecidableEq, Repr

namespace DigitOp

/-- The first digit that a combination stands for. -/
def leading (combo : BitVec 64) : BitVec 64 :=
  if combo >>> 3 == 3 then 8#64 ||| (combo &&& 1) else combo &&& 7

/-- The digits of a long decimal behind the first. -/
def packed (d : BitVec 64) : BitVec 64 := Declet.toPacked (d &&& 0x3FFFFFFFFFFFF)

/-- The code of the sign of a long decimal. -/
def signCode (control : Nat) (d : BitVec 64) : BitVec 64 :=
  if d.toInt < 0 then 0xD else if control = 2 then 0xC else 0xF

/-- Packed digits end in the code of a negative sign. -/
def minus (b : BitVec 64) : Bool := b &&& 0xF == 0xB || b &&& 0xF == 0xD

/-- The combination of a long decimal of exponent zero that starts with a digit. -/
def combo (first : BitVec 64) : BitVec 64 :=
  if (first.toNat : Int) < 8 then 0x8#64 ||| first else 0x1A#64 ||| (first &&& 1)

/-- A long decimal of exponent zero. -/
def assembled (sign combo declets : BitVec 64) : BitVec 64 :=
  sign ||| (combo ||| 0x8E#64 <<< 50) ||| declets

/-- What a conversion makes of a register. -/
def value : DigitOp → BitVec 64 → BitVec 64
  | unpack control, d =>
      if control < 2 then leading (d >>> 58 &&& 0x1F) <<< 60 ||| packed d
      else packed d <<< 4 ||| signCode control d
  | pack true, b =>
      assembled ((BitVec.ofBool (minus b)).setWidth 64 <<< 63) (8#64 <<< 58) (Declet.ofPacked (b >>> 4))
  | pack false, b =>
      assembled 0 (combo (b >>> 60) <<< 58) (Declet.ofPacked (b &&& 0xFFFFFFFFFFFFFFF))

end DigitOp

namespace DigitOp

/-! ## Parts of a long decimal -/

theorem combo_toNat (d : BitVec 64) : (d >>> 58 &&& 0x1F).toNat = combination d := by
  rw [BitVec.toNat_and, BitVec.toNat_ushiftRight]
  exact Nat.and_two_pow_sub_one_eq_mod _ 5

/-- The code finds the first digit of the value. -/
theorem leading_toNat (d : BitVec 64) : (leading (d >>> 58 &&& 0x1F)).toNat = firstDigit d := by
  have hall : ∀ n < 32, (leading (.ofNat 64 n)).toNat = (splitCombination n).2 := by decide
  have hcombo : d >>> 58 &&& 0x1F = .ofNat 64 (combination d) := by
    rw [← combo_toNat, BitVec.ofNat_toNat, BitVec.setWidth_eq]
  rw [hcombo, Decimal.firstDigit_eq]
  exact hall _ (Nat.mod_lt _ (by decide))

/-- The parts of an assembled value do not overlap. -/
theorem assembled_toNat (sign : Bool) {k t : BitVec 64} (hk : k.toNat < 32) (ht : t.toNat < 2 ^ 50) :
    (assembled ((BitVec.ofBool sign).setWidth 64 <<< 63) (k <<< 58) t).toNat =
      sign.toNat * 2 ^ 63 + k.toNat * 2 ^ 58 + 0x8E * 2 ^ 50 + t.toNat := by
  have hsign : ((BitVec.ofBool sign).setWidth 64 <<< 63 : BitVec 64).toNat = sign.toNat * 2 ^ 63 := by
    cases sign <;> rfl
  have hcombo : (k <<< 58).toNat = k.toNat * 2 ^ 58 := by
    rw [BitVec.toNat_shiftLeft, Nat.shiftLeft_eq]
    exact Nat.mod_eq_of_lt (by omega)
  have hexponent : (0x8E#64 <<< 50).toNat = 0x8E * 2 ^ 50 := rfl
  rw [assembled, BitVec.toNat_or, BitVec.toNat_or, BitVec.toNat_or, hsign, hcombo, hexponent,
    Declet.mul_or_eq (show 0x8E * 2 ^ 50 < 2 ^ 58 by decide),
    Declet.mul_or_eq (show k.toNat * 2 ^ 58 + 0x8E * 2 ^ 50 < 2 ^ 63 by omega),
    show sign.toNat * 2 ^ 63 + (k.toNat * 2 ^ 58 + 0x8E * 2 ^ 50) =
      (sign.toNat * 2 ^ 13 + k.toNat * 2 ^ 8 + 0x8E) * 2 ^ 50 by ring, Declet.mul_or_eq ht]
  ring

theorem trailing_congr {v v' : Nat} {n : Nat} (h : ∀ k < n, number v k = number v' k) :
    trailing v n = trailing v' n := by
  induction n with
  | zero => rfl
  | succ n ih =>
    have hn : Declet.toNat ((v >>> (10 * n)) % 1024) = Declet.toNat ((v' >>> (10 * n)) % 1024) :=
      h n (Nat.lt_succ_self n)
    rw [Decimal.trailing_succ, Decimal.trailing_succ, hn, ih fun k hk => h k (Nat.lt_succ_of_lt hk)]

/-- What an assembled value stands for. -/
theorem decode_assembled {sign : Bool} {k first : Nat} {v t : BitVec 64} (ht : t.toNat < 2 ^ 50)
    (hv : v.toNat = sign.toNat * 2 ^ 63 + k * 2 ^ 58 + 0x8E * 2 ^ 50 + t.toNat) (hk : k < 30)
    (hsplit : splitCombination k = (1, first)) :
    Format.long.decode v.toNat = .finite sign (first * 1000 ^ 5 + trailing t.toNat 5) 398 := by
  have hsign : v.toNat.testBit 63 = sign := by
    rw [Nat.testBit_eq_decide_div_mod_eq, hv]
    cases sign <;> simp only [Bool.toNat_true, Bool.toNat_false, decide_eq_true_eq,
      decide_eq_false_iff_not] <;> omega
  have hcombo : (v.toNat >>> 58) % 32 = k := by
    rw [Nat.shiftRight_eq_div_pow, hv]
    cases sign <;> simp only [Bool.toNat_true, Bool.toNat_false] <;> omega
  have hexponent : (v.toNat >>> 50) % 2 ^ 8 = 0x8E := by
    rw [Nat.shiftRight_eq_div_pow, hv]
    cases sign <;> simp only [Bool.toNat_true, Bool.toNat_false] <;> omega
  have hlow : v.toNat % 2 ^ 50 = t.toNat := by
    rw [hv]
    cases sign <;> simp only [Bool.toNat_true, Bool.toNat_false] <;> omega
  have htrailing : trailing v.toNat 5 = trailing t.toNat 5 :=
    trailing_congr fun k hk => by rw [← Declet.number_mod v.toNat hk, hlow]
  simp only [Format.decode, show Format.long.width = 64 from rfl,
    show Format.long.declets = 5 from rfl, show Format.long.exponentBits = 8 from rfl, hsign, hcombo,
    hexponent, htrailing, hsplit]
  rw [if_neg (by omega), if_neg (by omega)]
  rfl

/-! ## Packed digits and back -/

theorem packed_lt (d : BitVec 64) : (packed d).toNat < 2 ^ 60 := Declet.toPacked_lt _

theorem low_toNat (d : BitVec 64) : (d &&& 0x3FFFFFFFFFFFF).toNat = d.toNat % 2 ^ 50 := by
  rw [BitVec.toNat_and]
  exact Nat.and_two_pow_sub_one_eq_mod _ 50

theorem packed_eq {d t : BitVec 64} (h : d.toNat % 2 ^ 50 = t.toNat % 2 ^ 50) :
    packed d = Declet.toPacked t := by
  refine Declet.toPacked_congr ?_
  rw [low_toNat, Nat.mod_mod, h]

theorem value_unpack {control : Nat} (hcontrol : control < 2) (d : BitVec 64) :
    ((unpack control).value d).toNat = firstDigit d * 2 ^ 60 + (packed d).toNat := by
  have hfirst := Decimal.firstDigit_lt d
  rw [value, if_pos hcontrol, BitVec.toNat_or, BitVec.toNat_shiftLeft, leading_toNat,
    Nat.shiftLeft_eq, Nat.mod_eq_of_lt (by omega), Declet.mul_or_eq (packed_lt d)]

theorem signCode_lt (control : Nat) (d : BitVec 64) : (signCode control d).toNat < 16 := by
  unfold signCode
  split_ifs <;> decide

theorem value_unpack_signed {control : Nat} (hcontrol : ¬control < 2) (d : BitVec 64) :
    ((unpack control).value d).toNat = (packed d).toNat * 16 + (signCode control d).toNat := by
  have hpacked := packed_lt d
  rw [value, if_neg hcontrol, BitVec.toNat_or, BitVec.toNat_shiftLeft, Nat.shiftLeft_eq,
    Nat.mod_eq_of_lt (by omega), show 16 = 2 ^ 4 from rfl]
  exact Declet.mul_or_eq (signCode_lt control d) _

theorem value_pack_signed (b : BitVec 64) :
    ((pack true).value b).toNat = (minus b).toNat * 2 ^ 63 + 8 * 2 ^ 58 + 0x8E * 2 ^ 50 +
      (Declet.ofPacked (b >>> 4)).toNat :=
  assembled_toNat (minus b) (k := 8#64) (by decide) (Declet.ofPacked_lt _)

/-- A digit that starts a value is in its combination. -/
theorem combo_digit {n : Nat} (hn : n < 10) :
    (combo (.ofNat 64 n)).toNat < 30 ∧ splitCombination (combo (.ofNat 64 n)).toNat = (1, n) := by
  have hall : ∀ n < 10, (combo (.ofNat 64 n)).toNat < 30 ∧
      splitCombination (combo (.ofNat 64 n)).toNat = (1, n) := by decide
  exact hall n hn

theorem value_pack {b : BitVec 64} (hfirst : nibble b 15 < 10) :
    ((pack false).value b).toNat = (combo (.ofNat 64 (nibble b 15))).toNat * 2 ^ 58 +
      0x8E * 2 ^ 50 + (Declet.ofPacked (b &&& 0xFFFFFFFFFFFFFFF)).toNat := by
  have hshift : b >>> 60 = .ofNat 64 (nibble b 15) := by
    refine BitVec.eq_of_toNat_eq ?_
    rw [BitVec.toNat_ushiftRight, Nat.shiftRight_eq_div_pow, nibble, BitVec.toNat_ofNat]
    omega
  have hassembled := assembled_toNat false (Nat.lt_trans (combo_digit hfirst).1 (by decide))
    (Declet.ofPacked_lt (b &&& 0xFFFFFFFFFFFFFFF))
  rw [Bool.toNat_false, Nat.zero_mul, Nat.zero_add] at hassembled
  rw [value, hshift]
  exact hassembled

theorem digits_toNat (b : BitVec 64) : (b &&& 0xFFFFFFFFFFFFFFF).toNat = b.toNat % 2 ^ 60 := by
  rw [BitVec.toNat_and]
  exact Nat.and_two_pow_sub_one_eq_mod _ 60

theorem nibble_digits (b : BitVec 64) {i : Nat} (hi : i < 15) :
    nibble (b &&& 0xFFFFFFFFFFFFFFF) i = nibble b i := by
  have hsplit : 2 ^ 60 = 16 ^ i * 16 ^ (15 - i) := by
    rw [← Nat.pow_add, show i + (15 - i) = 15 by omega]
    rfl
  rw [nibble, digits_toNat, hsplit, Nat.mod_mul_right_div_self, nibble]
  exact Nat.mod_mod_of_dvd _ (dvd_pow_self 16 (by omega))

theorem minus_iff (b : BitVec 64) : minus b = true ↔ nibble b 0 = 0xB ∨ nibble b 0 = 0xD := by
  have hlow : (b &&& 0xF).toNat = nibble b 0 := by
    rw [BitVec.toNat_and, nibble, Nat.pow_zero, Nat.div_one]
    exact Nat.and_two_pow_sub_one_eq_mod _ 4
  rw [minus, Bool.or_eq_true, beq_iff_eq, beq_iff_eq, ← hlow, BitVec.toNat_eq, BitVec.toNat_eq]
  rfl

/-- Sixteen packed digits come back from the long decimal that is made of them. -/
theorem unpack_pack {control : Nat} (hcontrol : control < 2) {b : BitVec 64}
    (hb : ∀ i < 16, nibble b i ≤ 9) : (unpack control).value ((pack false).value b) = b := by
  have hfirst : nibble b 15 < 10 := Nat.lt_succ_of_le (hb 15 (by decide))
  obtain ⟨hk, hsplit⟩ := combo_digit hfirst
  have hv := value_pack hfirst
  have ht := Declet.ofPacked_lt (b &&& 0xFFFFFFFFFFFFFFF)
  generalize (pack false).value b = v at hv ⊢
  have hlead : firstDigit v = nibble b 15 := by
    have hcombo : combination v = (combo (.ofNat 64 (nibble b 15))).toNat := by
      rw [combination, Nat.shiftRight_eq_div_pow, hv]
      omega
    rw [Decimal.firstDigit_eq, hcombo, hsplit]
  have hdigits : packed v = b &&& 0xFFFFFFFFFFFFFFF := by
    rw [packed_eq (show v.toNat % 2 ^ 50 = (Declet.ofPacked (b &&& 0xFFFFFFFFFFFFFFF)).toNat % 2 ^ 50
      by omega)]
    refine Declet.eq_of_nibbles fun i hi => ?_
    rw [Declet.nibble_toPacked_ofPacked _ hi]
    split_ifs with hlow
    · rw [nibble_digits b hlow]
      exact Nat.mod_eq_of_lt (Nat.lt_succ_of_le (hb i hi))
    · obtain rfl : i = 15 := by omega
      rw [nibble, digits_toNat]
      omega
  refine BitVec.eq_of_toNat_eq ?_
  rw [value_unpack hcontrol, hlead, hdigits, digits_toNat, nibble]
  omega

/-- Fifteen packed digits come back modulo ten, with one of two sign codes. -/
theorem unpack_pack_signed (b : BitVec 64) :
    (∀ i < 15, nibble ((unpack 2).value ((pack true).value b)) (i + 1) = nibble b (i + 1) % 10) ∧
      nibble ((unpack 2).value ((pack true).value b)) 0 =
        if nibble b 0 = 0xB ∨ nibble b 0 = 0xD then 0xD else 0xC := by
  have hv := value_pack_signed b
  have ht := Declet.ofPacked_lt (b >>> 4)
  generalize (pack true).value b = v at hv ⊢
  have hpacked : packed v = Declet.toPacked (Declet.ofPacked (b >>> 4)) := by
    refine packed_eq ?_
    rw [hv]
    omega
  have hcode : (signCode 2 v).toNat = if nibble b 0 = 0xB ∨ nibble b 0 = 0xD then 0xD else 0xC := by
    have hnegative : v.toInt < 0 ↔ nibble b 0 = 0xB ∨ nibble b 0 = 0xD := by
      rw [BitVec.toInt_neg_iff, ← minus_iff, hv]
      cases minus b <;> simp only [Bool.toNat_true, Bool.toNat_false, Bool.false_eq_true, iff_true,
        iff_false] <;> omega
    simp only [signCode, hnegative, if_true]
    split_ifs <;> rfl
  have hsum := value_unpack_signed (show ¬2 < 2 by decide) v
  have hlt := signCode_lt 2 v
  constructor
  · intro i hi
    have hshift : nibble (b >>> 4) i = nibble b (i + 1) := by
      rw [nibble, BitVec.toNat_ushiftRight, Nat.shiftRight_eq_div_pow, Nat.div_div_eq_div_mul,
        show 2 ^ 4 * 16 ^ i = 16 ^ (i + 1) from Nat.pow_succ'.symm, nibble]
    rw [nibble, hsum, Nat.pow_succ', ← Nat.div_div_eq_div_mul,
      show ((packed v).toNat * 16 + (signCode 2 v).toNat) / 16 = (packed v).toNat by omega,
      ← nibble, hpacked, Declet.nibble_toPacked_ofPacked _ (by omega), if_pos hi, hshift]
  · rw [nibble, hsum, ← hcode]
    omega

/-- The parts of a finite value. -/
theorem parts_of_decode {d : BitVec 64} {negative : Bool} {coefficient biased : Nat}
    (hd : Format.long.decode d.toNat = .finite negative coefficient biased) :
    negative = decide (d.toInt < 0) ∧
      coefficient = firstDigit d * 1000 ^ 5 + trailing d.toNat 5 := by
  have hsign : d.toNat.testBit 63 = decide (d.toInt < 0) := by
    have hlt := d.isLt
    rw [Nat.testBit_eq_decide_div_mod_eq, decide_eq_decide, BitVec.toInt_neg_iff]
    omega
  rw [Decimal.firstDigit_eq]
  unfold Format.decode at hd
  dsimp only at hd
  split_ifs at hd
  obtain ⟨hnegative, hcoefficient, -⟩ := Datum.finite.inj hd
  exact ⟨hnegative.symm.trans hsign, hcoefficient.symm⟩

/-- Declets come back from their packed digits as far as they count. -/
theorem trailing_ofPacked_packed (d : BitVec 64) :
    trailing (Declet.ofPacked (packed d)).toNat 5 = trailing d.toNat 5 := by
  refine trailing_congr fun k hk => ?_
  rw [Declet.number_ofPacked _ hk, packed, Declet.unpackedNumber_toPacked _ hk, low_toNat,
    Declet.number_mod _ hk]

/-- A finite value of at most fifteen digits keeps its coefficient, and its sign where that is
spelled. -/
theorem decode_pack_unpack {signed : Bool} {control : Nat} (hcontrol : signed = true ↔ ¬control < 2)
    {d : BitVec 64} {negative : Bool} {coefficient biased : Nat}
    (hd : Format.long.decode d.toNat = .finite negative coefficient biased)
    (hsmall : coefficient < 10 ^ 15) :
    ∃ negative', Format.long.decode ((pack signed).value ((unpack control).value d)).toNat =
      .finite negative' coefficient 398 ∧ (signed = true → negative' = negative) := by
  obtain ⟨rfl, rfl⟩ := parts_of_decode hd
  have hfirst : firstDigit d = 0 := by omega
  have hpacked := packed_lt d
  rw [hfirst, Nat.zero_mul, Nat.zero_add, ← trailing_ofPacked_packed]
  cases signed with
  | false =>
    have hu : (unpack control).value d = packed d := by
      refine BitVec.eq_of_toNat_eq ?_
      rw [value_unpack (by simpa using hcontrol), hfirst, Nat.zero_mul, Nat.zero_add]
    have htop : nibble (packed d) 15 = 0 := Declet.nibble_toPacked_top _
    have hdigits : packed d &&& 0xFFFFFFFFFFFFFFF = packed d := by
      refine BitVec.eq_of_toNat_eq ?_
      rw [digits_toNat, Nat.mod_eq_of_lt hpacked]
    have hv := value_pack (show nibble (packed d) 15 < 10 by omega)
    rw [htop, hdigits] at hv
    refine ⟨false, ?_, fun h => absurd h Bool.false_ne_true⟩
    have hsum : ((pack false).value (packed d)).toNat = false.toNat * 2 ^ 63 +
        (combo (.ofNat 64 0)).toNat * 2 ^ 58 + 0x8E * 2 ^ 50 +
          (Declet.ofPacked (packed d)).toNat := by
      rw [hv, Bool.toNat_false, Nat.zero_mul, Nat.zero_add]
    obtain ⟨hk, hsplit⟩ := combo_digit (show 0 < 10 by decide)
    rw [hu, decode_assembled (Declet.ofPacked_lt (packed d)) hsum hk hsplit, Nat.zero_mul,
      Nat.zero_add]
  | true =>
    have hsum := value_unpack_signed (hcontrol.mp rfl) d
    have hcode := signCode_lt control d
    have hshift : (unpack control).value d >>> 4 = packed d := by
      refine BitVec.eq_of_toNat_eq ?_
      rw [BitVec.toNat_ushiftRight, Nat.shiftRight_eq_div_pow, hsum]
      omega
    have hminus : minus ((unpack control).value d) = decide (d.toInt < 0) := by
      have hlow : nibble ((unpack control).value d) 0 = (signCode control d).toNat := by
        rw [nibble, hsum]
        omega
      rw [Bool.eq_iff_iff, minus_iff, hlow, decide_eq_true_eq, signCode]
      split_ifs <;> simp_all
    have hv := value_pack_signed ((unpack control).value d)
    rw [hshift, hminus] at hv
    refine ⟨_, ?_, fun _ => rfl⟩
    rw [decode_assembled (Declet.ofPacked_lt (packed d)) hv (show 8 < 30 by decide)
      (show splitCombination 8 = (1, 0) by decide), Nat.zero_mul, Nat.zero_add]

end DigitOp

end PowerLift
