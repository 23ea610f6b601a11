import PowerLift.Proofs.Elements
import PowerLift.Proofs.IntegerOperators

/-!
# Vector operators

Operators on vectors act on all bits at once, on lanes one by one, or move lanes about. A saturating
operator gives the number nearest to the exact result that the lane can have.
-/

namespace PowerLift

variable {M : Type}

theorem Width.bits_dvd (w : Width) : w.bits ∣ 128 := by
  cases w <;> decide

namespace Narrow

theorem bits_dvd (w : Narrow) : w.bits ∣ 128 := w.width.bits_dvd

theorem double_bits (w : Narrow) : w.double.bits = 2 * w.bits := by
  cases w <;> rfl

theorem lanes_eq (w : Narrow) : 128 / w.bits = 2 * (128 / w.double.bits) := by
  cases w <;> rfl

end Narrow

/-! ## Clamping -/

namespace Sign

/-- The least number that fits a width. -/
def least : Sign → Nat → Int
  | signed, n => -2 ^ (n - 1)
  | unsigned, _ => 0

/-- The greatest number that fits a width. -/
def greatest : Sign → Nat → Int
  | signed, n => 2 ^ (n - 1) - 1
  | unsigned, n => 2 ^ n - 1

/-- The number nearest to `k` that fits a width. -/
def clamp (s : Sign) (n : Nat) (k : Int) : BitVec n :=
  .ofInt n (max (s.least n) (min k (s.greatest n)))

theorem fits_iff {s : Sign} {n : Nat} {k : Int} :
    s.Fits n k ↔ s.least n ≤ k ∧ k ≤ s.greatest n := by
  cases s <;> simp only [Fits, least, greatest] <;> omega

theorem fits_int (s : Sign) {n : Nat} (x : BitVec n) : s.Fits n (s.int x) := by
  cases s with
  | signed => exact ⟨x.le_toInt, x.toInt_lt⟩
  | unsigned => exact ⟨Int.natCast_nonneg _, Int.ofNat_lt.mpr x.isLt⟩

theorem least_le_greatest (s : Sign) {n : Nat} (hn : 0 < n) :
    s.least n ≤ s.greatest n ∧ s.greatest n = s.least n + 2 ^ n - 1 := by
  have hpow := two_pow_eq hn
  have hpos : (0 : Int) < 2 ^ (n - 1) := by positivity
  cases s <;> simp only [least, greatest] <;> omega

end Sign

/-- Numbers that agree in a width and differ by less than its range are equal. -/
theorem eq_of_ofInt_eq {n : Nat} {a b : Int} (h : BitVec.ofInt n a = BitVec.ofInt n b)
    (hclose : |a - b| < 2 ^ n) : a = b := by
  have hmod : a % 2 ^ n = b % 2 ^ n := by
    have htoNat := congrArg BitVec.toNat h
    simp only [BitVec.toNat_ofInt] at htoNat
    have ha : 0 ≤ a % ((2 ^ n : Nat) : Int) := Int.emod_nonneg _ (by positivity)
    have hb : 0 ≤ b % ((2 ^ n : Nat) : Int) := Int.emod_nonneg _ (by positivity)
    push_cast at ha hb htoNat
    omega
  have hdvd : (2 : Int) ^ n ∣ a - b :=
    Int.dvd_of_emod_eq_zero (Int.emod_eq_emod_iff_emod_sub_eq_zero.mp hmod)
  exact sub_eq_zero.mp (Int.eq_zero_of_abs_lt_dvd hdvd hclose)

/-- Where the exact number is out of range by less than a whole range, clamping it differs from
cutting it. -/
theorem Sign.clamp_eq_iff {s : Sign} {n : Nat} (hn : 0 < n) {k : Int}
    (hlow : s.least n - 2 ^ n < k) (hhigh : k < s.greatest n + 2 ^ n) :
    s.clamp n k = .ofInt n k ↔ s.Fits n k := by
  obtain ⟨hle, hspan⟩ := s.least_le_greatest hn
  rw [fits_iff]
  constructor
  · intro h
    have hclamped : max (s.least n) (min k (s.greatest n)) = k := by
      refine eq_of_ofInt_eq h ?_
      rw [abs_lt]
      omega
    omega
  · rintro ⟨hlow, hhigh⟩
    rw [clamp, min_eq_left hhigh, max_eq_right hlow]

namespace Saturation

/-- How a saturating narrowing reads its operands. -/
def source : Saturation → Sign
  | unsigned => .unsigned
  | signed | signedToUnsigned => .signed

/-- How a saturating narrowing bounds its result. -/
def target : Saturation → Sign
  | unsigned | signedToUnsigned => .unsigned
  | signed => .signed

end Saturation

/-! ## The meaning of operators -/

/-- The elements of a half of two vectors, taken in turns. -/
def interleaved (n : Nat) (high : Bool) (x y : BitVec 128) : BitVec 128 :=
  ofElements n fun i =>
    elementAt n (if i % 2 = 0 then x else y) (i / 2 + if high then 0 else 128 / n / 2)

/-- Byte `i` is the byte of `x` that the low four bits of byte `i` of `y` name, both counted from
the least significant byte. -/
def permuted (x y : BitVec 128) : BitVec 128 :=
  ofLanes 8 fun i => laneAt 8 x ((laneAt 8 y i).toNat % 16)

/-- What an operator makes of two vectors, for the operators that are given a meaning. -/
def VectorOp.meaning? : VectorOp → Option (BitVec 128 → BitVec 128 → BitVec 128)
  | and => some (· &&& ·)
  | or => some (· ||| ·)
  | xor => some (· ^^^ ·)
  | add w => some (lanewise w.bits (· + ·))
  | sub w => some (lanewise w.bits (· - ·))
  | satAdd s w => some (lanewise w.bits fun a b => s.clamp w.bits (s.int a + s.int b))
  | satSub s w => some (lanewise w.bits fun a b => s.clamp w.bits (s.int a - s.int b))
  | satNarrow s w => some fun x y => ofElements w.bits fun i =>
      s.target.clamp w.bits (s.source.int (joined w.double.bits x y i))
  | cmpGT s w => some (lanewise w.bits fun a b => if s.int b < s.int a then .allOnes _ else 0)
  | mulEven s w => some fun x y => ofElements w.double.bits fun i =>
      .ofInt _ (s.int (elementAt w.bits x (2 * i)) * s.int (elementAt w.bits y (2 * i)))
  | shl w => some (lanewise w.bits fun a k => a <<< (k.toNat % w.bits))
  | shr w => some (lanewise w.bits fun a k => a >>> (k.toNat % w.bits))
  | sar w => some (lanewise w.bits fun a k => a.sshiftRight (k.toNat % w.bits))
  | permute => some permuted
  | interleaveHigh w => some (interleaved w.bits true)
  | interleaveLow w => some (interleaved w.bits false)
  | _ => none

theorem VectorOp.signature_of_meaning? {op : VectorOp} {f : BitVec 128 → BitVec 128 → BitVec 128}
    (h : op.meaning? = some f) : op.signature = .same .v128 := by
  cases op <;> first | rfl | cases h

namespace Interp

/-- Besides the arithmetic of integers, vectors are combined lane by lane, shifted, taken apart and
put together. -/
structure Vectors (I : Interp M) : Prop extends I.Integral, I.Shifts where
  two (op : VectorOp) (f : BitVec 128 → BitVec 128 → BitVec 128) (hf : op.meaning? = some f)
    (x y : BitVec 128) :
    (⟨op.signature.ret, I.op (.vector op) [⟨.v128, x⟩, ⟨.v128, y⟩]⟩ : Value) = ⟨.v128, f x y⟩
  complement (x : BitVec 128) : I.op (.vector .not) [⟨.v128, x⟩] = ~~~x
  shlAll (x : BitVec 128) (k : BitVec 8) (hk : k.toNat < 128) :
    I.op (.vector .shlAll) [⟨.v128, x⟩, ⟨.i8, k⟩] = x <<< k.toNat
  dup (w : Narrow) (x : BitVec w.width.ty.bits) :
    I.op (.vector (.dup w)) [⟨w.width.ty, x⟩] = ofLanes w.width.ty.bits fun _ => x
  lowVto64 (x : BitVec 128) : I.op (.cast .lowVto64) [⟨.v128, x⟩] = x.setWidth 64
  highVto64 (x : BitVec 128) : I.op (.cast .highVto64) [⟨.v128, x⟩] = x.extractLsb' 64 64
  cat32to64 (x y : BitVec 32) : I.op (.cast .cat32to64) [⟨.i32, x⟩, ⟨.i32, y⟩] = x ++ y
  cat64toV (x y : BitVec 64) : I.op (.cast .cat64toV) [⟨.i64, x⟩, ⟨.i64, y⟩] = x ++ y

/-! ## A concrete interpretation -/

/-- An operator on two vectors. -/
def onVectors (op : VectorOp) : List Value → BitVec op.signature.ret.bits :=
  binary .v128 .v128 fun x y =>
    match op.meaning? with
    | some f => (f x y).setWidth _
    | none => 0

theorem onVectors_mk {op : VectorOp} {f : BitVec 128 → BitVec 128 → BitVec 128}
    (hf : op.meaning? = some f) (x y : BitVec 128) :
    (⟨op.signature.ret, onVectors op [⟨.v128, x⟩, ⟨.v128, y⟩]⟩ : Value) = ⟨.v128, f x y⟩ := by
  have hbits : onVectors op [⟨.v128, x⟩, ⟨.v128, y⟩] = (f x y).setWidth _ := by
    have hcut (x : BitVec 128) : (⟨.v128, x⟩ : Value).cut .v128 = x := BitVec.setWidth_eq x
    simp only [onVectors, binary, hf, hcut]
  rw [hbits, VectorOp.signature_of_meaning? hf]
  exact congrArg (Value.mk .v128) (BitVec.setWidth_eq _)

/-- The operators on integers and vectors. -/
def vectorOp : (op : Op) → List Value → BitVec op.signature.ret.bits
  | .vector .not => unary .v128 (~~~·)
  | .vector .shlAll => binary .v128 .i8 fun x k => x <<< k.toNat
  | .vector .shrAll => binary .v128 .i8 fun x k => x >>> k.toNat
  | .vector (.dup w) => unary w.width.ty fun x => ofLanes w.width.ty.bits fun _ => x
  | .vector op => onVectors op
  | .cast .lowVto32 => unary .v128 (·.setWidth 32)
  | .cast .lowVto64 => unary .v128 (·.setWidth 64)
  | .cast .highVto64 => unary .v128 (·.extractLsb' 64 64)
  | .cast .cat32to64 => binary .i32 .i32 fun (x y : BitVec 32) => x ++ y
  | .cast .cat64toV => binary .i64 .i64 fun (x y : BitVec 64) => x ++ y
  | op => integralOp op

/-- The interpretation with the arithmetic of integers and vectors and without memory. -/
def vectors (order : ByteOrder) : Interp Unit := { zero order with op := vectorOp }

theorem vectors_vectors (order : ByteOrder) : (vectors order).Vectors where
  toIntegral := (integral_integral order).congr fun op hop => by
    cases op with
    | vector v => cases hop
    | cast c => cases c <;> first | rfl | cases hop
    | _ => rfl
  shrAll x k _ :=
    binary_mk (fun (x : BitVec Ty.v128.bits) (k : BitVec Ty.i8.bits) => x >>> k.toNat) x k
  lowVto32 x := unary_mk (fun x : BitVec Ty.v128.bits => x.setWidth 32) x
  two op f hf x y := by
    refine Eq.trans ?_ (onVectors_mk hf x y)
    cases op <;> first | rfl | cases hf
  complement x := unary_mk (fun x : BitVec Ty.v128.bits => ~~~x) x
  shlAll x k _ :=
    binary_mk (fun (x : BitVec Ty.v128.bits) (k : BitVec Ty.i8.bits) => x <<< k.toNat) x k
  dup w x := unary_mk (fun x => ofLanes w.width.ty.bits fun _ => x) x
  lowVto64 x := unary_mk (fun x : BitVec Ty.v128.bits => x.setWidth 64) x
  highVto64 x := unary_mk (fun x : BitVec Ty.v128.bits => x.extractLsb' 64 64) x
  cat32to64 x y := binary_mk (fun (x y : BitVec Ty.i32.bits) => x ++ y) x y
  cat64toV x y := binary_mk (fun (x y : BitVec Ty.i64.bits) => x ++ y) x y

/-- Another interpretation that agrees on these operators has the arithmetic of vectors too. -/
theorem Vectors.congr {N : Type} {I : Interp M} {J : Interp N} (hJ : J.Vectors)
    (h : ∀ op, (∀ f, op ≠ .float f) → I.op op = J.op op) : I.Vectors where
  toIntegral := hJ.toIntegral.congr fun op hop => h op fun f hf => by
    subst hf
    cases hop
  shrAll x k hk := (congrFun (h _ fun _ => Op.noConfusion) _).trans (hJ.shrAll x k hk)
  lowVto32 x := (congrFun (h _ fun _ => Op.noConfusion) _).trans (hJ.lowVto32 x)
  two op f hf x y := by
    rw [h _ fun _ => Op.noConfusion]
    exact hJ.two op f hf x y
  complement x := (congrFun (h _ fun _ => Op.noConfusion) _).trans (hJ.complement x)
  shlAll x k hk := (congrFun (h _ fun _ => Op.noConfusion) _).trans (hJ.shlAll x k hk)
  dup w x := (congrFun (h _ fun _ => Op.noConfusion) _).trans (hJ.dup w x)
  lowVto64 x := (congrFun (h _ fun _ => Op.noConfusion) _).trans (hJ.lowVto64 x)
  highVto64 x := (congrFun (h _ fun _ => Op.noConfusion) _).trans (hJ.highVto64 x)
  cat32to64 x y := (congrFun (h _ fun _ => Op.noConfusion) _).trans (hJ.cat32to64 x y)
  cat64toV x y := (congrFun (h _ fun _ => Op.noConfusion) _).trans (hJ.cat64toV x y)

end Interp

end PowerLift
