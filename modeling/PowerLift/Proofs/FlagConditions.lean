import PowerLift.Proofs.Addends
import PowerLift.Proofs.IntegerSteps

/-!
# Flag conditions

The conditions under which overflow and carry are set are expressions over operands and result. Each
is a fact about the exact numbers, of which the result is the low part.
-/

namespace PowerLift

open Point (Knows)
open PowerLift.Expr (un bin)

variable {M : Type} {I : Interp M} {c : Point M} {S : GuestState → Prop}
  {a b e res l r carryIn : Expr} {w : Word}

/-! ## Operators on words -/

namespace Point.Knows

variable {x y : BitVec w.ty.bits}

section

variable (ha : Knows I c S a ⟨w.ty, x⟩)

include ha

theorem not (hI : I.Bitwise) : Knows I c S (.un (.not w.width) a) ⟨w.ty, ~~~x⟩ := by
  cases w <;> exact ha.un rfl (hI.not _ x)

theorem shl (hI : I.Bitwise) {k : BitVec 8} (hb : Knows I c S b ⟨.i8, k⟩) (hk : k.toNat < w.bits) :
    Knows I c S (.bin (.shl w.width) a b) ⟨w.ty, x <<< k.toNat⟩ := by
  cases w <;> exact ha.bin hb rfl (hI.shl _ x k hk)

theorem shr (hI : I.Bitwise) {k : BitVec 8} (hb : Knows I c S b ⟨.i8, k⟩) (hk : k.toNat < w.bits) :
    Knows I c S (.bin (.shr w.width) a b) ⟨w.ty, x >>> k.toNat⟩ := by
  cases w <;> exact ha.bin hb rfl (hI.shr _ x k hk)

theorem sar (hI : I.Integral) {k : BitVec 8} (hb : Knows I c S b ⟨.i8, k⟩) (hk : k.toNat < w.bits) :
    Knows I c S (.bin (.sar w.width) a b) ⟨w.ty, x.sshiftRight k.toNat⟩ := by
  cases w <;> exact ha.bin hb rfl (hI.sar _ x k hk)

variable (hb : Knows I c S b ⟨w.ty, y⟩)

include hb

theorem and (hI : I.Bitwise) : Knows I c S (.bin (.and w.width) a b) ⟨w.ty, x &&& y⟩ := by
  cases w <;> exact ha.bin hb rfl (hI.and _ x y)

theorem or (hI : I.Bitwise) : Knows I c S (.bin (.or w.width) a b) ⟨w.ty, x ||| y⟩ := by
  cases w <;> exact ha.bin hb rfl (hI.or _ x y)

theorem xor (hI : I.Bitwise) : Knows I c S (.bin (.xor w.width) a b) ⟨w.ty, x ^^^ y⟩ := by
  cases w <;> exact ha.bin hb rfl (hI.xor _ x y)

theorem add (hI : I.Modular) : Knows I c S (.bin (.add w.width) a b) ⟨w.ty, x + y⟩ := by
  cases w <;> exact ha.bin hb rfl (hI.add _ x y)

theorem sub (hI : I.Modular) : Knows I c S (.bin (.sub w.width) a b) ⟨w.ty, x - y⟩ := by
  cases w <;> exact ha.bin hb rfl (hI.sub _ x y)

theorem mul (hI : I.Integral) : Knows I c S (.bin (.mul w.width) a b) ⟨w.ty, x * y⟩ := by
  cases w <;> exact ha.bin hb rfl (hI.mul _ x y)

theorem equal (hI : I.Integral) : Knows I c S (FlagRule.equal w a b) ⟨.i1, .ofBool (x == y)⟩ := by
  cases w <;> exact ha.bin hb rfl (hI.cmpEQ _ x y)

theorem unequal (hI : I.Modular) :
    Knows I c S (FlagRule.unequal w a b) ⟨.i1, .ofBool (x != y)⟩ := by
  cases w <;> exact ha.bin hb rfl (hI.cmpNE _ x y)

/-- Unsigned numbers in order. -/
theorem below (hI : I.Integral) :
    Knows I c S (.bin (.cmpLT w .unsigned) a b) ⟨.i1, .ofBool (x.toNat < y.toNat)⟩ := by
  refine (ha.bin hb (by cases w <;> rfl) (hI.cmpLT w .unsigned x y)).congr ?_
  simp only [Sign.int, Nat.cast_lt]
  rfl

/-- Unsigned numbers in weak order. -/
theorem notAbove (hI : I.Integral) :
    Knows I c S (.bin (.cmpLE w .unsigned) a b) ⟨.i1, .ofBool (x.toNat ≤ y.toNat)⟩ := by
  refine (ha.bin hb (by cases w <;> rfl) (hI.cmpLE w .unsigned x y)).congr ?_
  simp only [Sign.int, Nat.cast_le]
  rfl

end

/-- Both of two conditions. -/
theorem both (hI : I.Integral) {p q : Bool} (ha : Knows I c S a ⟨.i1, .ofBool p⟩)
    (hb : Knows I c S b ⟨.i1, .ofBool q⟩) :
    Knows I c S (.bin .and1 a b) ⟨.i1, .ofBool (p && q)⟩ := ha.bin hb rfl (hI.and1 p q)

/-- One of two conditions. -/
theorem either (hI : I.Integral) {p q : Bool} (ha : Knows I c S a ⟨.i1, .ofBool p⟩)
    (hb : Knows I c S b ⟨.i1, .ofBool q⟩) :
    Knows I c S (.bin .or1 a b) ⟨.i1, .ofBool (p || q)⟩ := ha.bin hb rfl (hI.or1 p q)

end Point.Knows

/-! ## Parts of the conditions -/

theorem Word.one_lt_bits (w : Word) : 1 < w.ty.bits := by cases w <;> decide

theorem Point.knows_zero (w : Word) : c.Knows I S (FlagRule.lit w 0) ⟨w.ty, 0⟩ := by
  cases w <;> exact Point.knows_lit _ _

theorem Point.knows_minusOne (w : Word) :
    c.Knows I S (FlagRule.minusOne w) ⟨w.ty, .allOnes _⟩ := by
  cases w <;> exact Point.knows_lit _ _

theorem Point.knows_least (w : Word) : c.Knows I S (FlagRule.least w) ⟨w.ty, .intMin _⟩ := by
  cases w with
  | w32 => exact (Point.knows_lit .w32 _).congr (by decide)
  | w64 => exact (Point.knows_lit .w64 _).congr (by decide)

/-- The sign bit is all that a shift by one less than the width leaves. -/
theorem shiftRight_ne_zero {n : Nat} (x : BitVec n) : (x >>> (n - 1) != 0) = x.msb := by
  rw [BitVec.msb_eq_decide, Bool.eq_iff_iff]
  simp only [bne_iff_ne, ne_eq, decide_eq_true_eq, ← BitVec.toNat_inj, BitVec.toNat_ushiftRight,
    BitVec.ofNat_eq_ofNat, BitVec.toNat_ofNat, Nat.zero_mod, Nat.shiftRight_eq_div_pow]
  rw [Nat.div_eq_zero_iff_lt (Nat.two_pow_pos _), Nat.not_lt]

namespace Point.Knows

variable {x y z : BitVec w.ty.bits}

theorem isNegative (hI : I.Modular) (ha : Knows I c S a ⟨w.ty, x⟩) :
    Knows I c S (FlagRule.isNegative w a) ⟨.i1, .ofBool x.msb⟩ := by
  have hbit : (FlagRule.signBit w).toNat = w.ty.bits - 1 := by cases w <;> rfl
  have hlt : (FlagRule.signBit w).toNat < w.bits := by cases w <;> decide
  have hshifted := ha.shr hI.toBitwise (.const (.u8 (FlagRule.signBit w))) hlt
  refine (hshifted.unequal (Point.knows_zero w) hI).congr ?_
  rw [hbit, shiftRight_ne_zero]

theorem signBroken (hI : I.Modular) (hres : Knows I c S res ⟨w.ty, z⟩)
    (hl : Knows I c S l ⟨w.ty, x⟩) (hr : Knows I c S r ⟨w.ty, y⟩) :
    Knows I c S (FlagRule.signBroken w res l r)
      ⟨.i1, .ofBool (!(x.msb ^^ y.msb) && (x.msb ^^ z.msb))⟩ := by
  have hagree := (hl.xor hr hI.toBitwise).xor (Point.knows_minusOne w) hI.toBitwise
  refine ((hagree.and (hl.xor hres hI.toBitwise) hI.toBitwise).isNegative hI).congr ?_
  have hpos := w.one_lt_bits
  rw [BitVec.msb_and, BitVec.msb_xor, BitVec.msb_xor, BitVec.msb_xor, BitVec.msb_allOnes (by omega),
    Bool.xor_true]

end Point.Knows

/-! ## Sums -/

namespace FlagRule

variable {s : Addends w.ty.bits} {x y z : BitVec w.ty.bits}

theorem add_overflow (hI : I.Modular) {rule : FlagRule} (hrule : rule = .add ∨ rule = .addE)
    (hres : c.Knows I S res ⟨w.ty, s.sum⟩) (hl : c.Knows I S l ⟨w.ty, s.left⟩)
    (hr : c.Knows I S r ⟨w.ty, s.right⟩) :
    Holds I c S (rule.overflow w.ty res l r) s.overflows := by
  refine ⟨signBroken w res l r, ?_, ?_⟩
  · rw [overflow, widthOf_ty]
    rcases hrule with rfl | rfl <;> rfl
  · rw [Addends.overflows_eq w.one_lt_bits]
    exact hres.signBroken hI hl hr

/-- A difference adds the complement of its first operand. -/
theorem subf_overflow (hI : I.Modular) {rule : FlagRule}
    (hrule : rule = .subf ∨ rule = .subfC ∨ rule = .subfE)
    (hres : c.Knows I S res ⟨w.ty, s.sum⟩) (hl : c.Knows I S l ⟨w.ty, x⟩) (hleft : s.left = ~~~x)
    (hr : c.Knows I S r ⟨w.ty, s.right⟩) :
    Holds I c S (rule.overflow w.ty res l r) s.overflows := by
  refine ⟨signBroken w res (un (.not w.width) l) r, ?_, ?_⟩
  · rw [overflow, widthOf_ty]
    rcases hrule with rfl | rfl | rfl <;> rfl
  · rw [Addends.overflows_eq w.one_lt_bits]
    exact hres.signBroken hI (hleft ▸ hl.not hI.toBitwise) hr

/-- Of all operands, only the least number overflows when it is negated. -/
theorem neg_overflow (hI : I.Integral) (hl : c.Knows I S l ⟨w.ty, x⟩) :
    Holds I c S (neg.overflow w.ty res l r)
      (Addends.overflows ⟨~~~x, 0, true⟩) := by
  refine ⟨equal w l (least w), ?_, ?_⟩
  · rw [overflow, widthOf_ty]
    rfl
  · rw [Addends.overflows_negation w.one_lt_bits]
    exact hl.equal (Point.knows_least w) hI

theorem add_carry (hI : I.Integral) (hc : s.carryIn = false) (hres : c.Knows I S res ⟨w.ty, s.sum⟩)
    (hl : c.Knows I S l ⟨w.ty, s.left⟩) :
    Holds I c S (add.carry w.ty res l r carryIn) s.carries := by
  refine ⟨bin (.cmpLT w .unsigned) res l, ?_, ?_⟩
  · rw [carry, widthOf_ty]
    rfl
  · -- The rule compares with the first operand, and the lemma with the second.
    have hswap : s.swap.carryIn = false := hc
    have hpos := w.one_lt_bits
    rw [← Addends.carries_swap, Addends.carries_of_not (by omega) hswap, Addends.sum_swap]
    exact hres.below hl hI

theorem subf_carry (hI : I.Integral) {rule : FlagRule} (hrule : rule = .subfC ∨ rule = .subfI)
    (hc : s.carryIn = true) (hres : c.Knows I S res ⟨w.ty, s.sum⟩)
    (hr : c.Knows I S r ⟨w.ty, s.right⟩) :
    Holds I c S (rule.carry w.ty res l r carryIn) s.carries := by
  refine ⟨bin (.cmpLE w .unsigned) res r, ?_, ?_⟩
  · rw [carry, widthOf_ty]
    rcases hrule with rfl | rfl <;> rfl
  · have hpos := w.one_lt_bits
    rw [Addends.carries_of_carryIn (by omega) hc]
    exact hres.notAbove hr hI

/-- A carry into the sum, as a word. -/
def carryWord (w : Word) (c : Bool) : BitVec w.ty.bits := (BitVec.ofBool c).setWidth _

theorem extended_carry (hI : I.Integral) (hc : c.Knows I S carryIn ⟨w.ty, carryWord w s.carryIn⟩)
    (hres : c.Knows I S res ⟨w.ty, s.sum⟩) (hr : c.Knows I S r ⟨w.ty, s.right⟩) :
    c.Knows I S (bin .or1 (bin (.cmpLT w .unsigned) res r)
      (bin .and1 (equal w carryIn (lit w 1)) (equal w res r))) ⟨.i1, .ofBool s.carries⟩ := by
  have hpos := w.one_lt_bits
  have hone : (carryWord w s.carryIn == (1 : BitVec 64).setWidth _) = s.carryIn := by
    cases w <;> cases s.carryIn <;> rfl
  have hmeets := (hc.equal (Point.knows_lit w 1) hI).both hI (hres.equal hr hI)
  rw [hone] at hmeets
  rw [Addends.carries_eq (by omega)]
  exact (hres.below hr hI).either hI hmeets

theorem addE_carry (hI : I.Integral) (hc : c.Knows I S carryIn ⟨w.ty, carryWord w s.carryIn⟩)
    (hres : c.Knows I S res ⟨w.ty, s.sum⟩) (hl : c.Knows I S l ⟨w.ty, s.left⟩) :
    Holds I c S (addE.carry w.ty res l r carryIn) s.carries := by
  rw [← Addends.carries_swap]
  rw [← Addends.sum_swap] at hres
  refine ⟨_, ?_, extended_carry hI hc hres hl⟩
  rw [carry, widthOf_ty]
  rfl

theorem subfE_carry (hI : I.Integral) (hc : c.Knows I S carryIn ⟨w.ty, carryWord w s.carryIn⟩)
    (hres : c.Knows I S res ⟨w.ty, s.sum⟩) (hr : c.Knows I S r ⟨w.ty, s.right⟩) :
    Holds I c S (subfE.carry w.ty res l r carryIn) s.carries := by
  refine ⟨_, ?_, extended_carry hI hc hres hr⟩
  rw [carry, widthOf_ty]
  rfl

end FlagRule

end PowerLift
