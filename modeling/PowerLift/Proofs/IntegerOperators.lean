import Mathlib.Tactic.NormNum
import PowerLift.Proofs.Meaning

/-!
# Integer operators

Products, quotients and comparisons read their operands as signed or unsigned numbers and give
the low part of the exact result. A quotient has a meaning where it exists and fits, a shift for
amounts below the width.
-/

namespace PowerLift

variable {M : Type}

/-- A number as an operator reads it. -/
def Sign.int {n : Nat} : Sign → BitVec n → Int
  | signed, x => x.toInt
  | unsigned, x => x.toNat

/-- The numbers that fit a width. -/
def Sign.Fits : Sign → Nat → Int → Prop
  | signed, n, k => -2 ^ (n - 1) ≤ k ∧ k < 2 ^ (n - 1)
  | unsigned, n, k => 0 ≤ k ∧ k < 2 ^ n

instance (s : Sign) (n : Nat) (k : Int) : Decidable (s.Fits n k) := by
  cases s <;> exact inferInstanceAs (Decidable (_ ∧ _))

theorem Sign.ofInt_int {n : Nat} (s : Sign) (x : BitVec n) : BitVec.ofInt n (s.int x) = x := by
  cases s with
  | signed => exact BitVec.ofInt_toInt
  | unsigned =>
      calc
        BitVec.ofInt n x.toNat = BitVec.ofNat n x.toNat := BitVec.ofInt_natCast n x.toNat
        _ = x.setWidth n := BitVec.ofNat_toNat n x
        _ = x := BitVec.setWidth_eq x

theorem ofInt_sub {n : Nat} (k l : Int) :
    BitVec.ofInt n (k - l) = BitVec.ofInt n k - BitVec.ofInt n l := by
  rw [Int.sub_eq_add_neg, BitVec.ofInt_add, BitVec.ofInt_neg, BitVec.sub_eq_add_neg]

theorem two_pow_eq {n : Nat} (hn : 0 < n) : (2 ^ n : Int) = 2 * 2 ^ (n - 1) := by
  rw [← Int.pow_succ', Nat.sub_add_cancel hn]

/-- A number that fits is read back. -/
theorem Sign.int_ofInt {s : Sign} {n : Nat} (hn : 0 < n) {k : Int} (hk : s.Fits n k) :
    s.int (BitVec.ofInt n k) = k := by
  cases s with
  | signed =>
      obtain ⟨hlow, hhigh⟩ := hk
      exact BitVec.toInt_ofInt_eq_self hn hlow hhigh
  | unsigned =>
      obtain ⟨hlow, hhigh⟩ := hk
      simp only [int, BitVec.toNat_ofInt]
      rw [Int.toNat_of_nonneg (Int.emod_nonneg _ (by positivity))]
      exact Int.emod_eq_of_lt hlow (by exact_mod_cast hhigh)

/-- The operators that the arithmetic of integers gives a meaning to. -/
def Op.isIntegral : Op → Bool
  | .add _ | .sub _ | .mul _ | .or _ | .and _ | .xor _ | .shl _ | .shr _ | .sar _ | .cmpEQ _
  | .cmpNE _ | .not _ | .or1 | .and1 | .cmpLT _ _ | .cmpLE _ _ | .cmpORD _ _ | .mull _ _
  | .div _ _ | .divExt _ _ => true
  | .cast c => c.isPlain || [.sext32to64, .high64to32, .low128to64, .high128to64].contains c
  | _ => false

namespace Interp

/-- Besides what bits and sums are, products, quotients, comparisons and truth values are those of
the numbers that the operands stand for. -/
structure Integral (I : Interp M) : Prop extends I.Modular where
  mul (w : Width) (x y : BitVec w.ty.bits) : I.op (.mul w) [⟨w.ty, x⟩, ⟨w.ty, y⟩] = x * y
  sar (w : Width) (x : BitVec w.ty.bits) (k : BitVec 8) (hk : k.toNat < w.bits) :
    I.op (.sar w) [⟨w.ty, x⟩, ⟨.i8, k⟩] = x.sshiftRight k.toNat
  cmpEQ (w : Width) (x y : BitVec w.ty.bits) :
    I.op (.cmpEQ w) [⟨w.ty, x⟩, ⟨w.ty, y⟩] = .ofBool (x == y)
  or1 (a b : Bool) : I.op .or1 [⟨.i1, .ofBool a⟩, ⟨.i1, .ofBool b⟩] = .ofBool (a || b)
  and1 (a b : Bool) : I.op .and1 [⟨.i1, .ofBool a⟩, ⟨.i1, .ofBool b⟩] = .ofBool (a && b)
  cmpLT (w : Word) (s : Sign) (x y : BitVec w.ty.bits) :
    I.op (.cmpLT w s) [⟨w.ty, x⟩, ⟨w.ty, y⟩] = .ofBool (s.int x < s.int y)
  cmpLE (w : Word) (s : Sign) (x y : BitVec w.ty.bits) :
    I.op (.cmpLE w s) [⟨w.ty, x⟩, ⟨w.ty, y⟩] = .ofBool (s.int x ≤ s.int y)
  cmpORD (w : Word) (s : Sign) (x y : BitVec w.ty.bits) :
    I.op (.cmpORD w s) [⟨w.ty, x⟩, ⟨w.ty, y⟩] = orderCode (s.int x < s.int y) (s.int y < s.int x)
  mull (s : Sign) (w : Word) (x y : BitVec w.ty.bits) :
    I.op (.mull s w) [⟨w.ty, x⟩, ⟨w.ty, y⟩] = .ofInt _ (s.int x * s.int y)
  div (s : Sign) (w : Word) (x y : BitVec w.ty.bits) (hy : y ≠ 0)
    (hfits : s.Fits w.bits ((s.int x).tdiv (s.int y))) :
    I.op (.div s w) [⟨w.ty, x⟩, ⟨w.ty, y⟩] = .ofInt _ ((s.int x).tdiv (s.int y))
  divExt (s : Sign) (w : Word) (x y : BitVec w.ty.bits) (hy : y ≠ 0) :
    I.op (.divExt s w) [⟨w.ty, x⟩, ⟨w.ty, y⟩] =
      .ofInt _ ((s.int x * 2 ^ w.bits).tdiv (s.int y))
  sext32to64 (x : BitVec 32) : I.op (.cast .sext32to64) [⟨.i32, x⟩] = x.signExtend 64
  high64to32 (x : BitVec 64) : I.op (.cast .high64to32) [⟨.i64, x⟩] = x.extractLsb' 32 32
  low128to64 (x : BitVec 128) : I.op (.cast .low128to64) [⟨.i128, x⟩] = x.setWidth 64
  high128to64 (x : BitVec 128) : I.op (.cast .high128to64) [⟨.i128, x⟩] = x.extractLsb' 64 64

/-! ## A concrete interpretation -/

/-- The operators on integers; a quotient that does not exist is zero. -/
def integralOp : (op : Op) → List Value → BitVec op.signature.ret.bits
  | .mul w => binary w.ty w.ty (· * ·)
  | .sar w => binary w.ty .i8 fun x k => x.sshiftRight k.toNat
  | .cmpEQ w => binary w.ty w.ty fun x y => .ofBool (x == y)
  | .or1 => binary .i1 .i1 (· ||| ·)
  | .and1 => binary .i1 .i1 (· &&& ·)
  | .cmpLT w s => binary w.ty w.ty fun x y => .ofBool (s.int x < s.int y)
  | .cmpLE w s => binary w.ty w.ty fun x y => .ofBool (s.int x ≤ s.int y)
  | .cmpORD w s => binary w.ty w.ty fun x y => orderCode (s.int x < s.int y) (s.int y < s.int x)
  | .mull s w => binary w.ty w.ty fun x y => .ofInt _ (s.int x * s.int y)
  | .div s w => binary w.ty w.ty fun x y => .ofInt _ ((s.int x).tdiv (s.int y))
  | .divExt s w => binary w.ty w.ty fun x y => .ofInt _ ((s.int x * 2 ^ w.bits).tdiv (s.int y))
  | .cast .sext32to64 => unary .i32 (·.signExtend 64)
  | .cast .high64to32 => unary .i64 (·.extractLsb' 32 32)
  | .cast .low128to64 => unary .i128 (·.setWidth 64)
  | .cast .high128to64 => unary .i128 (·.extractLsb' 64 64)
  | op => modularOp op

/-- The interpretation with the arithmetic of integers and without memory. -/
def integral (order : ByteOrder) : Interp Unit := { zero order with op := integralOp }

theorem integral_integral (order : ByteOrder) : (integral order).Integral where
  or w x y := binary_mk (· ||| ·) x y
  and w x y := binary_mk (· &&& ·) x y
  xor w x y := binary_mk (· ^^^ ·) x y
  not w x := unary_mk (~~~·) x
  shl w x k _ := binary_mk (fun x (k : BitVec Ty.i8.bits) => x <<< k.toNat) x k
  shr w x k _ := binary_mk (fun x (k : BitVec Ty.i8.bits) => x >>> k.toNat) x k
  cast c hc ty harg x := by
    have hplain :=
      (modular_of_op (I := { zero order with op := modularOp }) rfl).cast c hc ty harg x
    cases c <;> first | exact hplain | contradiction
  add w x y := binary_mk (· + ·) x y
  sub w x y := binary_mk (· - ·) x y
  cmpNE w x y := binary_mk (fun x y => .ofBool (x != y)) x y
  mul w x y := binary_mk (· * ·) x y
  sar w x k _ := binary_mk (fun x (k : BitVec Ty.i8.bits) => x.sshiftRight k.toNat) x k
  cmpEQ w x y := binary_mk (fun x y => .ofBool (x == y)) x y
  or1 a b := by
    refine (binary_mk (· ||| ·) _ _).trans ?_
    cases a <;> cases b <;> rfl
  and1 a b := by
    refine (binary_mk (· &&& ·) _ _).trans ?_
    cases a <;> cases b <;> rfl
  cmpLT w s x y := binary_mk (fun x y => .ofBool (s.int x < s.int y)) x y
  cmpLE w s x y := binary_mk (fun x y => .ofBool (s.int x ≤ s.int y)) x y
  cmpORD w s x y := binary_mk (fun x y => orderCode (s.int x < s.int y) (s.int y < s.int x)) x y
  mull s w x y := binary_mk (fun x y => .ofInt _ (s.int x * s.int y)) x y
  div s w x y _ _ := binary_mk (fun x y => .ofInt _ ((s.int x).tdiv (s.int y))) x y
  divExt s w x y _ := binary_mk (fun x y => .ofInt _ ((s.int x * 2 ^ w.bits).tdiv (s.int y))) x y
  sext32to64 x := unary_mk (fun x : BitVec Ty.i32.bits => x.signExtend 64) x
  high64to32 x := unary_mk (fun x : BitVec Ty.i64.bits => x.extractLsb' 32 32) x
  low128to64 x := unary_mk (fun x : BitVec Ty.i128.bits => x.setWidth 64) x
  high128to64 x := unary_mk (fun x : BitVec Ty.i128.bits => x.extractLsb' 64 64) x

/-- Another interpretation of these operators that agrees has the arithmetic of integers too. -/
theorem Integral.congr {N : Type} {I : Interp M} {J : Interp N} (hJ : J.Integral)
    (h : ∀ op, op.isIntegral = true → I.op op = J.op op) : I.Integral where
  or w x y := (congrFun (h _ rfl) _).trans (hJ.or w x y)
  and w x y := (congrFun (h _ rfl) _).trans (hJ.and w x y)
  xor w x y := (congrFun (h _ rfl) _).trans (hJ.xor w x y)
  not w x := (congrFun (h _ rfl) _).trans (hJ.not w x)
  shl w x k hk := (congrFun (h _ rfl) _).trans (hJ.shl w x k hk)
  shr w x k hk := (congrFun (h _ rfl) _).trans (hJ.shr w x k hk)
  cast c hc ty harg x := by
    have hop : Op.isIntegral (.cast c) = true := by rw [Op.isIntegral, hc, Bool.true_or]
    exact (congrFun (h _ hop) _).trans (hJ.cast c hc ty harg x)
  add w x y := (congrFun (h _ rfl) _).trans (hJ.add w x y)
  sub w x y := (congrFun (h _ rfl) _).trans (hJ.sub w x y)
  cmpNE w x y := (congrFun (h _ rfl) _).trans (hJ.cmpNE w x y)
  mul w x y := (congrFun (h _ rfl) _).trans (hJ.mul w x y)
  sar w x k hk := (congrFun (h _ rfl) _).trans (hJ.sar w x k hk)
  cmpEQ w x y := (congrFun (h _ rfl) _).trans (hJ.cmpEQ w x y)
  or1 a b := (congrFun (h _ rfl) _).trans (hJ.or1 a b)
  and1 a b := (congrFun (h _ rfl) _).trans (hJ.and1 a b)
  cmpLT w s x y := (congrFun (h _ rfl) _).trans (hJ.cmpLT w s x y)
  cmpLE w s x y := (congrFun (h _ rfl) _).trans (hJ.cmpLE w s x y)
  cmpORD w s x y := (congrFun (h _ rfl) _).trans (hJ.cmpORD w s x y)
  mull s w x y := (congrFun (h _ rfl) _).trans (hJ.mull s w x y)
  div s w x y hy hfits := (congrFun (h _ rfl) _).trans (hJ.div s w x y hy hfits)
  divExt s w x y hy := (congrFun (h _ rfl) _).trans (hJ.divExt s w x y hy)
  sext32to64 x := (congrFun (h _ rfl) _).trans (hJ.sext32to64 x)
  high64to32 x := (congrFun (h _ rfl) _).trans (hJ.high64to32 x)
  low128to64 x := (congrFun (h _ rfl) _).trans (hJ.low128to64 x)
  high128to64 x := (congrFun (h _ rfl) _).trans (hJ.high128to64 x)

end Interp

end PowerLift
