import PowerLift.Family.Rotate
import PowerLift.Proofs.FlagConditions
import PowerLift.Proofs.RingMasks

/-!
# Rotations and shifts of words

The operators shift by less than the width. Amounts that are read from registers may reach further;
there the code chooses what the operators leave open.
-/

namespace PowerLift

open Point (Knows)
open PowerLift.Expr (un bin)

variable {M : Type} {I : Interp M} {c : Point M} {S : GuestState → Prop}
  {a b e amount limit zero : Expr} {v : Word} {x y : BitVec v.ty.bits} {k : BitVec 8}

/-- The conversion of a word to a byte. -/
def Word.lowByte : Word → Cast
  | w32 => .low32to8
  | w64 => .low64to8

theorem Word.toNat_lowByte {n : Nat} (hy : y.toNat < n) (hn : n ≤ 64) :
    (y.setWidth 8).toNat = y.toNat := by
  rw [BitVec.toNat_setWidth, Nat.mod_eq_of_lt (by omega)]

namespace Point

theorem knows_byte {n : Nat} (hn : n < 256) :
    ∃ k : BitVec 8, k.toNat = n ∧ ∀ {c : Point M} {S}, c.Knows I S (.u8 (.ofNat 8 n)) ⟨.i8, k⟩ :=
  ⟨.ofNat 8 n, Nat.mod_eq_of_lt hn, .const (.u8 (.ofNat 8 n))⟩

namespace Knows

/-! ## Rotations -/

theorem turned (hI : I.Bitwise) (he : Knows I c S e ⟨v.ty, x⟩) (ha : Knows I c S a ⟨.i8, k⟩)
    {j : BitVec 8} (hb : Knows I c S b ⟨.i8, j⟩) (hk : k.toNat ≠ 0) (hlt : k.toNat < v.bits)
    (hj : j.toNat = v.bits - k.toNat) :
    Knows I c S (.bin (.or v.width) (.bin (.shl v.width) e a) (.bin (.shr v.width) e b))
      ⟨v.ty, x.rotateLeft k.toNat⟩ := by
  have hbits : v.ty.bits = v.bits := v.ty_bits
  refine ((he.shl hI ha hlt).or (he.shr hI hb (by omega)) hI).congr ?_
  rw [rotateLeft_eq_or x (by omega), show v.ty.bits - k.toNat = j.toNat by omega]

/-- A rotation by a fixed amount. -/
theorem rotateBy (hI : I.Bitwise) (he : Knows I c S e ⟨v.ty, x⟩) (n : Nat) :
    Knows I c S (Rotate.rotateBy v e n) ⟨v.ty, x.rotateLeft n⟩ := by
  have hsmall : v.bits ≤ 64 := by cases v <;> decide
  have hlt : n % v.bits < v.bits := Nat.mod_lt _ (by cases v <;> decide)
  have hmod : x.rotateLeft n = x.rotateLeft (n % v.bits) := by
    rw [← BitVec.rotateLeft_mod_eq_rotateLeft]
    exact congrArg (fun m => x.rotateLeft (n % m)) v.ty_bits
  rw [hmod]
  unfold Rotate.rotateBy
  split
  next hzero =>
    rw [hzero, rotateLeft_zero]
    exact he
  next hne =>
    obtain ⟨k, hk, ha⟩ := knows_byte (M := M) (I := I) (n := n % v.bits) (by omega)
    obtain ⟨j, hj, hb⟩ := knows_byte (M := M) (I := I) (n := v.bits - n % v.bits) (by omega)
    have hturned := he.turned hI ha hb (by omega) (by omega) (by omega)
    rwa [hk] at hturned

/-- A rotation by an amount that is computed, which may be zero. -/
theorem rotate (hI : I.Modular) (he : Knows I c S e ⟨v.ty, x⟩)
    (ha : Knows I c S amount ⟨.i8, k⟩) (hk : k.toNat < v.bits) :
    Knows I c S (Rotate.rotate v e amount) ⟨v.ty, x.rotateLeft k.toNat⟩ := by
  have hsmall : v.bits ≤ 64 := by cases v <;> decide
  obtain ⟨n, hn, hbits⟩ := knows_byte (M := M) (I := I) (n := v.bits) (by omega)
  have hrest := (hbits (c := c) (S := S)).bin ha rfl (hI.sub .w8 n k)
  have hne : (k != 0) = decide (k.toNat ≠ 0) := by
    rw [Bool.eq_iff_iff, bne_iff_ne, ne_eq, ← BitVec.toNat_inj, decide_eq_true_eq]
    rfl
  have htest := ha.bin (.const (.u8 0)) rfl ((hI.cmpNE .w8 k 0).trans (congrArg BitVec.ofBool hne))
  have hcheck : c.stage.check (.bin (.or v.width) (.bin (.shl v.width) e amount)
      (.bin (.shr v.width) e (.bin (.sub .w8) (.u8 (.ofNat 8 v.bits)) amount))) = .ok v.ty := by
    cases v <;> exact Stage.check_bin rfl (Stage.check_bin rfl he.check ha.check)
      (Stage.check_bin rfl he.check hrest.check)
  refine .ite htest hcheck he.check ?_ ?_
  · intro hne
    refine he.turned hI.toBitwise ha hrest (of_decide_eq_true hne) hk ?_
    have hsub := BitVec.toNat_sub_of_le (x := n) (y := k) (BitVec.le_def.mpr (by omega))
    rwa [hn] at hsub
  · intro hzero
    have hk : k.toNat = 0 := by simpa using hzero
    rw [hk, rotateLeft_zero]
    exact he

/-! ## Shifts -/

section

variable {n : Nat} (he : Knows I c S e ⟨v.ty, x⟩) (hn : n < v.ty.bits)

include he hn

theorem shlFixed (hI : I.Bitwise) :
    Knows I c S (.bin (.shl v.width) e (.u8 (.ofNat 8 n))) ⟨v.ty, x <<< n⟩ := by
  have hsmall : v.ty.bits ≤ 64 := by cases v <;> decide
  obtain ⟨k, rfl, hk⟩ := knows_byte (M := M) (I := I) (n := n) (by omega)
  exact he.shl hI hk (v.ty_bits ▸ hn)

theorem sarFixed (hI : I.Integral) :
    Knows I c S (.bin (.sar v.width) e (.u8 (.ofNat 8 n))) ⟨v.ty, x.sshiftRight n⟩ := by
  have hsmall : v.ty.bits ≤ 64 := by cases v <;> decide
  obtain ⟨k, rfl, hk⟩ := knows_byte (M := M) (I := I) (n := n) (by omega)
  exact he.sar hI hk (v.ty_bits ▸ hn)

end

/-- A shift by an amount that may reach the width, and then leaves nothing. -/
theorem shiftOrZero (hI : I.Integral) (left : Bool) {amount8 : Expr} (he : Knows I c S e ⟨v.ty, x⟩)
    (hamount : Knows I c S amount ⟨v.ty, y⟩) (hbyte : Knows I c S amount8 ⟨.i8, y.setWidth 8⟩)
    (hlimit : Knows I c S limit ⟨v.ty, .ofNat _ v.bits⟩) (hzero : Knows I c S zero ⟨v.ty, 0⟩) :
    Knows I c S (.ite (.bin (.cmpLT v .unsigned) amount limit)
      (.bin (if left then .shl v.width else .shr v.width) e amount8) zero)
      ⟨v.ty, if left then x <<< y.toNat else x >>> y.toNat⟩ := by
  have hbits : (BitVec.ofNat v.ty.bits v.bits).toNat = v.bits := by cases v <;> rfl
  have hwidth : v.ty.bits = v.bits := v.ty_bits
  have hsmall : v.bits ≤ 64 := by cases v <;> decide
  have hnear := hamount.below hlimit hI
  rw [hbits] at hnear
  refine .ite hnear ?_ hzero.check ?_ ?_
  · cases left <;> cases v <;> exact Stage.check_bin rfl he.check hbyte.check
  · intro hlt
    rw [decide_eq_true_eq] at hlt
    have hlow : (y.setWidth 8).toNat = y.toNat := Word.toNat_lowByte hlt hsmall
    rw [← hlow] at hlt ⊢
    cases left with
    | true => exact he.shl hI.toBitwise hbyte hlt
    | false => exact he.shr hI.toBitwise hbyte hlt
  · intro hge
    rw [decide_eq_false_iff_not] at hge
    refine hzero.congr (congrArg (Value.mk v.ty) ?_)
    cases left with
    | true => exact (BitVec.shiftLeft_eq_zero (by omega)).symm
    | false => exact (BitVec.ushiftRight_eq_zero (by omega)).symm

theorem lowByte (hI : I.Bitwise) (hamount : Knows I c S amount ⟨v.ty, y⟩) :
    Knows I c S (.un (.cast v.lowByte) amount) ⟨.i8, y.setWidth 8⟩ := by
  cases v with
  | w32 => exact hamount.un rfl (hI.cast .low32to8 rfl .i32 rfl y)
  | w64 => exact hamount.un rfl (hI.cast .low64to8 rfl .i64 rfl y)

/-- The low byte of a small amount. -/
theorem nearByte (hI : I.Bitwise) (hamount : Knows I c S amount ⟨v.ty, y⟩) {n : Nat}
    (hy : y.toNat = n) (hn : n < 64) :
    ∃ k : BitVec 8, k.toNat = n ∧ Knows I c S (.un (.cast v.lowByte) amount) ⟨.i8, k⟩ :=
  ⟨_, (Word.toNat_lowByte (hy.trans_lt hn) (Nat.le_refl 64)).trans hy, hamount.lowByte hI⟩

/-- Whether an amount is above the number of the sign bit. -/
theorem far (hI : I.Integral) (hamount : Knows I c S amount ⟨v.ty, y⟩) :
    Knows I c S (.bin (.cmpLT v .unsigned) (FlagRule.lit v (.ofNat 64 (v.bits - 1))) amount)
      ⟨.i1, .ofBool (v.ty.bits ≤ y.toNat)⟩ := by
  have htop : ((BitVec.ofNat 64 (v.bits - 1)).setWidth v.ty.bits).toNat = v.ty.bits - 1 := by
    cases v <;> rfl
  refine ((knows_lit v (.ofNat 64 (v.bits - 1))).below hamount hI).congr ?_
  have hpos := v.one_lt_bits
  refine congrArg (fun p => Value.mk .i1 (.ofBool p)) ?_
  rw [htop, decide_eq_decide]
  omega

/-- An algebraic shift by an amount that may reach the width, and then leaves the sign. -/
theorem sarClamped (hI : I.Integral) (he : Knows I c S e ⟨v.ty, x⟩)
    (hamount : Knows I c S amount ⟨v.ty, y⟩) :
    Knows I c S (.bin (.sar v.width) e (Rotate.clamped v amount))
      ⟨v.ty, x.sshiftRight y.toNat⟩ := by
  have hbits : v.ty.bits = v.bits := v.ty_bits
  have hsmall : v.bits ≤ 64 := by cases v <;> decide
  have hpos := v.one_lt_bits
  have hsign : (FlagRule.signBit v).toNat = v.ty.bits - 1 := by cases v <;> rfl
  have hbyte := hamount.lowByte hI.toBitwise
  have htop := hamount.far hI
  by_cases hfar : v.ty.bits ≤ y.toNat
  · -- The amount becomes the number of the sign bit, which leaves the same.
    have hclamped : Knows I c S (Rotate.clamped v amount) ⟨.i8, FlagRule.signBit v⟩ := by
      cases v <;> exact .ite htop rfl hbyte.check (fun _ => .const (.u8 _))
        fun hnear => absurd hfar (of_decide_eq_false hnear)
    rw [← sshiftRight_far x hfar, ← hsign]
    exact he.sar hI hclamped (by omega)
  · have hclamped : Knows I c S (Rotate.clamped v amount) ⟨.i8, y.setWidth 8⟩ := by
      cases v <;> exact .ite htop rfl hbyte.check
        (fun h => absurd (of_decide_eq_true h) hfar) fun _ => hbyte
    have hlow : (y.setWidth 8).toNat = y.toNat :=
      Word.toNat_lowByte (Nat.lt_of_not_le hfar) (by omega)
    rw [← hlow]
    exact he.sar hI hclamped (by omega)

end Knows

end Point

/-! ## The carry of algebraic shifts -/

namespace FlagRule

variable {res l r carryIn : Expr}

/-- The carry rule of algebraic shifts by a register. -/
def sra : Word → FlagRule
  | .w32 => sraw
  | .w64 => srad

/-- The carry rule of algebraic shifts by a fixed amount. -/
def srai : Word → FlagRule
  | .w32 => srawi
  | .w64 => sradi

theorem check_dropsOne (hl : c.Knows I S l ⟨v.ty, x⟩) (hr : c.Knows I S r ⟨v.ty, y⟩) :
    c.stage.check (dropsOne v l r) = .ok .i1 := by
  have hlit : ∀ k, c.stage.check (lit v k) = .ok v.ty := fun k =>
    (Point.knows_lit (I := I) (S := S) v k).check
  cases v <;> exact Stage.check_bin rfl (Stage.check_bin rfl (Stage.check_bin rfl hl.check rfl)
    (Stage.check_bin rfl hl.check (Stage.check_bin rfl (Stage.check_bin rfl (hlit 1)
      (Stage.check_un rfl hr.check)) (hlit 1)))) (hlit 0)

theorem knows_dropsOne (hI : I.Integral) (hl : c.Knows I S l ⟨v.ty, x⟩)
    (hr : c.Knows I S r ⟨v.ty, y⟩) (hy : y.toNat < v.ty.bits) :
    c.Knows I S (dropsOne v l r) ⟨.i1, .ofBool (dropsOnes x y.toNat)⟩ := by
  have hbits : v.ty.bits = v.bits := v.ty_bits
  have hsmall : v.ty.bits ≤ 64 := by cases v <;> decide
  have hsign : (signBit v).toNat = v.ty.bits - 1 := by cases v <;> rfl
  have hlow : (y.setWidth 8).toNat = y.toNat := Word.toNat_lowByte hy hsmall
  have hone : c.Knows I S (lit v 1) ⟨v.ty, 1⟩ :=
    (Point.knows_lit v 1).congr (by cases v <;> rfl)
  have hbelow := (hone.shl hI.toBitwise (hr.lowByte hI.toBitwise) (by omega)).sub hone hI.toModular
  have hmasked := (hl.sar hI (.const (.u8 (signBit v))) (by omega)).and
    (hl.and hbelow hI.toBitwise) hI.toBitwise
  have hcond := hmasked.unequal (Point.knows_zero v) hI.toModular
  rw [hsign, hlow, sign_and_below_ne_zero x hy] at hcond
  cases v <;> exact hcond

theorem sra_carry (hI : I.Integral) (hl : c.Knows I S l ⟨v.ty, x⟩)
    (hr : c.Knows I S r ⟨v.ty, y⟩) :
    Holds I c S ((sra v).carry v.ty res l r carryIn) (dropsOnes x y.toNat) := by
  have hpos := v.one_lt_bits
  have hnegative : c.Knows I S (bin (.cmpLT v .signed) l (lit v 0)) ⟨.i1, .ofBool x.msb⟩ := by
    refine (hl.bin (Point.knows_zero v) (by cases v <;> rfl) (hI.cmpLT v .signed x 0)).congr ?_
    simp only [Sign.int, BitVec.ofNat_eq_ofNat, BitVec.toInt_zero, BitVec.msb_eq_toInt]
    rfl
  refine ⟨_, ?_, .ite (hr.far hI) hnegative.check (check_dropsOne hl hr) ?_ ?_⟩
  · rw [carry, widthOf_ty]
    cases v <;> rfl
  · intro hfar
    rw [dropsOnes_far x (by omega) (of_decide_eq_true hfar)]
    exact hnegative
  · intro hnear
    exact knows_dropsOne hI hl hr (Nat.lt_of_not_le (of_decide_eq_false hnear))

theorem srai_carry (hI : I.Integral) (hl : c.Knows I S l ⟨v.ty, x⟩)
    (hr : c.Knows I S r ⟨v.ty, y⟩) {n : Nat} (hy : y.toNat = n) (hn : n < v.ty.bits) :
    Holds I c S ((srai v).carry v.ty res l r carryIn) (dropsOnes x n) := by
  subst hy
  refine ⟨dropsOne v l r, ?_, knows_dropsOne hI hl hr hn⟩
  rw [carry, widthOf_ty]
  cases v <;> rfl

end FlagRule

end PowerLift
