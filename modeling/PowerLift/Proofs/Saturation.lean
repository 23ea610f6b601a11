import PowerLift.Proofs.VectorSteps

/-!
# Saturation

A saturating instruction computes a number for each element of its result and gives the nearest one
that the element can have. That a number was out of range shows in two ways: the result differs from
the modular one, or an operand lies on the wrong side of a bound.
-/

namespace PowerLift

/-- What a saturating instruction computes. -/
inductive Saturating where
  /-- Sums and differences of elements. -/
  | sum (s : Sign) (width : Narrow) (subtract : Bool)
  /-- The elements of two vectors in half their width. -/
  | pack (s : Saturation) (width : Narrow)
  deriving DecidableEq, Repr

namespace Saturating

/-- The saturating instructions by their extended opcodes. -/
def ofXo? : Nat → Option Saturating
  | 512 => some (sum .unsigned .w8 false)
  | 576 => some (sum .unsigned .w16 false)
  | 640 => some (sum .unsigned .w32 false)
  | 768 => some (sum .signed .w8 false)
  | 832 => some (sum .signed .w16 false)
  | 896 => some (sum .signed .w32 false)
  | 1536 => some (sum .unsigned .w8 true)
  | 1600 => some (sum .unsigned .w16 true)
  | 1664 => some (sum .unsigned .w32 true)
  | 1792 => some (sum .signed .w8 true)
  | 1856 => some (sum .signed .w16 true)
  | 1920 => some (sum .signed .w32 true)
  | 142 => some (pack .unsigned .w8)
  | 206 => some (pack .unsigned .w16)
  | 1230 => some (pack .unsigned .w32)
  | 270 => some (pack .signedToUnsigned .w8)
  | 334 => some (pack .signedToUnsigned .w16)
  | 1358 => some (pack .signedToUnsigned .w32)
  | 398 => some (pack .signed .w8)
  | 462 => some (pack .signed .w16)
  | 1486 => some (pack .signed .w32)
  | _ => none

/-- The width of an element of the result. -/
def width : Saturating → Narrow
  | sum _ width _ | pack _ width => width

/-- How the result is bounded. -/
def bound : Saturating → Sign
  | sum s _ _ => s
  | pack s _ => s.target

/-- The number that an element of the result stands for, before it is cut to a range. -/
def exact (x y : BitVec 128) (i : Nat) : Saturating → Int
  | sum s width false => s.int (elementAt width.bits x i) + s.int (elementAt width.bits y i)
  | sum s width true => s.int (elementAt width.bits x i) - s.int (elementAt width.bits y i)
  | pack s width => s.source.int (joined width.double.bits x y i)

/-- The numbers cut to the range. -/
def result (s : Saturating) (x y : BitVec 128) : BitVec 128 :=
  ofElements s.width.bits fun i => s.bound.clamp s.width.bits (s.exact x y i)

/-- Some number is out of range. -/
def Overflows (s : Saturating) (x y : BitVec 128) : Prop :=
  ∃ i < 128 / s.width.bits, ¬s.bound.Fits s.width.bits (s.exact x y i)

instance (s : Saturating) (x y : BitVec 128) : Decidable (s.Overflows x y) :=
  inferInstanceAs (Decidable (∃ i < 128 / s.width.bits, _))

end Saturating

/-! ## Sums and differences -/

theorem lanewise_eq {n : Nat} (hn : n ∣ 128) (f : BitVec n → BitVec n → BitVec n)
    (x y : BitVec 128) :
    lanewise n f x y = ofElements n fun i => f (elementAt n x i) (elementAt n y i) :=
  eq_ofElements hn fun _ hi => elementAt_lanewise hn hi f

namespace Saturating

variable {s : Sign} {width : Narrow} {subtract : Bool} {x y : BitVec 128}

/-- The operator that saturates. -/
def operator (s : Sign) (width : Narrow) (subtract : Bool) : VectorOp :=
  if subtract then .satSub s width else .satAdd s width

/-- The operator that wraps around. -/
def modular (width : Narrow) (subtract : Bool) : VectorOp :=
  if subtract then .sub width.width else .add width.width

theorem meaning_operator (s : Sign) (width : Narrow) (subtract : Bool) :
    (operator s width subtract).meaning? = some (sum s width subtract).result := by
  cases subtract <;>
    exact congrArg some (funext₂ fun x y => lanewise_eq width.bits_dvd _ x y)

theorem meaning_modular (s : Sign) (width : Narrow) (subtract : Bool) :
    (modular width subtract).meaning? = some fun x y =>
      ofElements width.bits fun i => .ofInt _ ((sum s width subtract).exact x y i) := by
  have hadd (a b : BitVec width.bits) : a + b = .ofInt _ (s.int a + s.int b) := by
    rw [BitVec.ofInt_add, s.ofInt_int, s.ofInt_int]
  have hsub (a b : BitVec width.bits) : a - b = .ofInt _ (s.int a - s.int b) := by
    rw [ofInt_sub, s.ofInt_int, s.ofInt_int]
  cases subtract with
  | false =>
      refine congrArg some (funext₂ fun x y => (lanewise_eq width.bits_dvd _ x y).trans ?_)
      exact ofElements_congr width.bits_dvd fun _ _ => hadd _ _
  | true =>
      refine congrArg some (funext₂ fun x y => (lanewise_eq width.bits_dvd _ x y).trans ?_)
      exact ofElements_congr width.bits_dvd fun _ _ => hsub _ _

theorem exact_close (s : Sign) (width : Narrow) (subtract : Bool) (x y : BitVec 128) (i : Nat) :
    s.least width.bits - 2 ^ width.bits < (sum s width subtract).exact x y i ∧
    (sum s width subtract).exact x y i < s.greatest width.bits + 2 ^ width.bits := by
  obtain ⟨hle, hspan⟩ := s.least_le_greatest (pos_of_dvd width.bits_dvd)
  have hx := Sign.fits_iff.mp (s.fits_int (elementAt width.bits x i))
  have hy := Sign.fits_iff.mp (s.fits_int (elementAt width.bits y i))
  have hleast : s.least width.bits ≤ 0 ∧ 0 ≤ s.greatest width.bits := by
    cases s <;> cases width <;> decide
  cases subtract <;> simp only [exact] <;> omega

/-- A result that saturates differs from the modular one where a number is out of range. -/
theorem xor_ne_zero : (sum s width subtract).result x y ^^^
      (ofElements width.bits fun i => .ofInt _ ((sum s width subtract).exact x y i)) ≠ 0 ↔
    (sum s width subtract).Overflows x y := by
  rw [ne_zero_iff_elementAt width.bits_dvd]
  refine exists_congr fun i => and_congr_right fun hi => ?_
  obtain ⟨hlow, hhigh⟩ := exact_close s width subtract x y i
  have hresult : elementAt width.bits ((sum s width subtract).result x y) i =
      s.clamp width.bits ((sum s width subtract).exact x y i) :=
    elementAt_ofElements width.bits_dvd hi
  rw [elementAt_xor, hresult, elementAt_ofElements width.bits_dvd hi]
  refine (not_congr BitVec.xor_eq_zero_iff).trans (not_congr ?_)
  exact Sign.clamp_eq_iff (pos_of_dvd width.bits_dvd) hlow hhigh

end Saturating

/-! ## Packs -/

/-- What holds of some element of two vectors holds of some element of either. -/
theorem exists_joined {n : Nat} (x y : BitVec 128) (P : BitVec n → Prop) :
    (∃ i < 2 * (128 / n), P (joined n x y i)) ↔
      (∃ i < 128 / n, P (elementAt n x i)) ∨ ∃ i < 128 / n, P (elementAt n y i) := by
  constructor
  · rintro ⟨i, hi, hP⟩
    by_cases h : i < 128 / n
    · rw [joined, if_pos h] at hP
      exact .inl ⟨i, h, hP⟩
    · rw [joined, if_neg h] at hP
      exact .inr ⟨i - 128 / n, by omega, hP⟩
  · rintro (⟨i, hi, hP⟩ | ⟨i, hi, hP⟩)
    · refine ⟨i, by omega, ?_⟩
      rwa [joined, if_pos hi]
    · refine ⟨i + 128 / n, by omega, ?_⟩
      rwa [joined, if_neg (by omega), Nat.add_sub_cancel]

theorem Saturating.meaning_pack (s : Saturation) (width : Narrow) :
    (VectorOp.satNarrow s width).meaning? = some (pack s width).result := rfl

namespace Saturation

variable {s : Saturation} {width : Narrow} {x y : BitVec 128}

/-- The elements of a vector that lie outside the range of a pack's result. -/
def outside (s : Saturation) (width : Narrow) (x : BitVec 128) : BitVec 128 :=
  ofElements width.double.bits fun i =>
    if s.target.Fits width.bits (s.source.int (elementAt width.double.bits x i)) then 0
    else .allOnes _

theorem elementAt_outside {i : Nat} (hi : i < 128 / width.double.bits) :
    elementAt width.double.bits (s.outside width x) i ≠ 0 ↔
      ¬s.target.Fits width.bits (s.source.int (elementAt width.double.bits x i)) := by
  have hones : BitVec.allOnes width.double.bits ≠ 0 := by cases width <;> decide
  rw [outside, elementAt_ofElements width.double.bits_dvd hi]
  split
  next hfits => exact ⟨fun h => absurd rfl h, fun h => absurd hfits h⟩
  next hfits => exact ⟨fun _ => hfits, fun _ => hones⟩

theorem or_outside_ne_zero :
    s.outside width x ||| s.outside width y ≠ 0 ↔ (Saturating.pack s width).Overflows x y := by
  have hone (x : BitVec 128) : s.outside width x ≠ 0 ↔ ∃ i < 128 / width.double.bits,
      ¬s.target.Fits width.bits (s.source.int (elementAt width.double.bits x i)) := by
    rw [ne_zero_iff_elementAt width.double.bits_dvd]
    exact exists_congr fun i => and_congr_right elementAt_outside
  have hjoined := exists_joined x y fun a : BitVec width.double.bits =>
    ¬s.target.Fits width.bits (s.source.int a)
  rw [← width.lanes_eq, ← hone, ← hone] at hjoined
  refine Iff.trans ?_ hjoined.symm
  refine (not_congr BitVec.or_eq_zero_iff).trans ?_
  tauto

theorem outside_eq (P : BitVec width.double.bits → Prop) [DecidablePred P]
    (hP : ∀ a, P a ↔ ¬s.target.Fits width.bits (s.source.int a)) :
    (ofElements width.double.bits fun i =>
      if P (elementAt width.double.bits x i) then .allOnes _ else 0) = s.outside width x :=
  ofElements_congr width.double.bits_dvd fun i _ => by simp only [hP, ite_not]

/-- The elements on the wrong side of one of two bounds. -/
theorem outside_eq_or (P P' : BitVec width.double.bits → Prop) [DecidablePred P]
    [DecidablePred P'] (hP : ∀ a, P a ∨ P' a ↔ ¬s.target.Fits width.bits (s.source.int a)) :
    (ofElements width.double.bits fun i =>
        if P (elementAt width.double.bits x i) then .allOnes _ else 0) |||
      (ofElements width.double.bits fun i =>
        if P' (elementAt width.double.bits x i) then .allOnes _ else 0) = s.outside width x := by
  rw [← outside_eq (fun a => P a ∨ P' a) hP]
  refine eq_ofElements width.double.bits_dvd fun i hi => ?_
  rw [elementAt_or, elementAt_ofElements width.double.bits_dvd hi,
    elementAt_ofElements width.double.bits_dvd hi]
  by_cases h : P (elementAt width.double.bits x i) <;>
    by_cases h' : P' (elementAt width.double.bits x i) <;> simp [h, h']

end Saturation

section

open PowerLift.Expr (un bin)

variable {M : Type} {I : Interp M} {c : Point M} {S : GuestState → Prop} {e : Expr}
  {x : BitVec 128}

/-- The lanes that are above or below a bound. -/
theorem Point.Knows.compared (hI : I.Vectors) {width : Width} (s : Sign) (v : BitVec 64)
    (he : c.Knows I S e ⟨.v128, x⟩) :
    c.Knows I S (.bin (.vector (.cmpGT s width)) e (VectorInteger.splat width v))
        ⟨.v128, ofElements width.bits fun i =>
          if s.int (v.setWidth width.bits) < s.int (elementAt width.bits x i) then .allOnes _
          else 0⟩ ∧
      c.Knows I S (.bin (.vector (.cmpGT s width)) (VectorInteger.splat width v) e)
        ⟨.v128, ofElements width.bits fun i =>
          if s.int (elementAt width.bits x i) < s.int (v.setWidth width.bits) then .allOnes _
          else 0⟩ := by
  have hsplat : c.Knows I S _ _ := Point.knows_splat hI width v
  have hlanes (x y : BitVec 128) := lanewise_eq width.bits_dvd
    (fun a b => if s.int b < s.int a then BitVec.allOnes _ else 0) x y
  constructor
  · refine (he.two hI (.cmpGT s width) rfl hsplat).congr (congrArg (Value.mk .v128) ?_)
    refine (hlanes _ _).trans (ofElements_congr width.bits_dvd fun i hi => ?_)
    rw [elementAt_const width.bits_dvd hi]
  · refine (hsplat.two hI (.cmpGT s width) rfl he).congr (congrArg (Value.mk .v128) ?_)
    refine (hlanes _ _).trans (ofElements_congr width.bits_dvd fun i hi => ?_)
    rw [elementAt_const width.bits_dvd hi]

/-- The bounds of packs, as they stand in double lanes. -/
theorem Narrow.bounds (width : Narrow) :
    let unsignedMax : BitVec 64 := (BitVec.allOnes width.bits).setWidth 64
    let signedMax := unsignedMax >>> 1
    (∀ s : Sign, s.int (unsignedMax.setWidth width.double.bits) =
        Sign.unsigned.greatest width.bits) ∧
      Sign.signed.int ((0 : BitVec 64).setWidth width.double.bits) =
        Sign.unsigned.least width.bits ∧
      Sign.signed.int (signedMax.setWidth width.double.bits) = Sign.signed.greatest width.bits ∧
      Sign.signed.int ((~~~signedMax).setWidth width.double.bits) =
        Sign.signed.least width.bits := by
  refine ⟨fun s => ?_, ?_, ?_, ?_⟩
  · cases s <;> cases width <;> rfl
  all_goals cases width <;> rfl

theorem Point.Knows.outside (hI : I.Vectors) (s : Saturation) (width : Narrow)
    (he : c.Knows I S e ⟨.v128, x⟩) :
    c.Knows I S (VectorInteger.outOfRange s width e) ⟨.v128, s.outside width x⟩ := by
  obtain ⟨hunsigned, hzero, hsigned, hleast⟩ := width.bounds
  have hfits (s : Sign) (k : Int) : s.greatest width.bits < k ∨ k < s.least width.bits ↔
      ¬s.Fits width.bits k := by
    rw [Sign.fits_iff]
    omega
  cases s with
  | unsigned =>
      refine (he.compared hI .unsigned _).1.congr (congrArg (Value.mk .v128) ?_)
      refine Saturation.outside_eq (fun a => _ < Sign.unsigned.int a) fun a => ?_
      rw [hunsigned, ← hfits]
      exact (or_iff_left (Int.not_lt.mpr (Int.natCast_nonneg a.toNat))).symm
  | signedToUnsigned =>
      refine ((he.compared hI .signed _).1.two hI .or rfl (he.compared hI .signed _).2).congr
        (congrArg (Value.mk .v128) ?_)
      refine Saturation.outside_eq_or (fun a => _ < Sign.signed.int a)
        (fun a => Sign.signed.int a < _) fun a => ?_
      rw [hunsigned, hzero]
      exact hfits .unsigned _
  | signed =>
      refine ((he.compared hI .signed _).1.two hI .or rfl (he.compared hI .signed _).2).congr
        (congrArg (Value.mk .v128) ?_)
      refine Saturation.outside_eq_or (fun a => _ < Sign.signed.int a)
        (fun a => Sign.signed.int a < _) fun a => ?_
      rw [hsigned, hleast]
      exact hfits .signed _

end

end PowerLift
