import PowerLift.Proofs.ByteMemory
import PowerLift.Proofs.IntegerOperators

/-!
# Operators of loads, stores and branches

Narrow values are extended with their sign, and the bytes of a value are reversed. A value with its
bytes reversed stands in memory as the value itself does in the other byte order.
-/

namespace PowerLift

/-- The conversions that fill with the sign of their operand. -/
def Cast.extendsSign : Cast → Bool
  | sext1to32 | sext1to64 | sext8to32 | sext8to64 | sext16to32 | sext16to64 | sext32to64 => true
  | _ => false

/-- The byte order that is not `order`. -/
def ByteOrder.opposite (order : ByteOrder) : ByteOrder :=
  match order with
  | .little => .big
  | .big => .little

theorem ByteOrder.position_opposite (order : ByteOrder) {n i : Nat} (hi : i < n) :
    n - 1 - order.opposite.position n i = order.position n i := by
  cases order with
  | little =>
      simp only [opposite, position]
      omega
  | big => rfl

/-- The bytes of a number in reverse order. -/
def Ty.reversed (ty : Ty) (x : BitVec ty.bits) : BitVec ty.bits :=
  GuestState.read (fun i => x.extractLsb' (8 * (ty.bytes - 1 - i)) 8) .little 0 ty

namespace GuestState

variable {σ : GuestState} {order : ByteOrder} {offset : Nat} {ty : Ty}

/-- A byte of a number that was read. -/
theorem extract_read (hty : ty ≠ .i1) {i : Nat} (hi : i < ty.bytes) :
    (σ.read order offset ty).extractLsb' (8 * i) 8 = σ (offset + order.position ty.bytes i) := by
  refine BitVec.eq_of_getLsbD_eq fun k hk => ?_
  have hbit : 8 * i + k < ty.bits := by
    rw [bits_eq_bytes hty]
    omega
  rw [BitVec.getLsbD_extractLsb', getLsbD_read hty hbit, show (8 * i + k) / 8 = i by omega,
    show (8 * i + k) % 8 = k by omega, decide_eq_true hk, Bool.true_and]

end GuestState

theorem Ty.extract_reversed {ty : Ty} (hty : ty ≠ .i1) (x : BitVec ty.bits) {i : Nat}
    (hi : i < ty.bytes) :
    (ty.reversed x).extractLsb' (8 * i) 8 = x.extractLsb' (8 * (ty.bytes - 1 - i)) 8 := by
  rw [reversed, GuestState.extract_read hty hi]
  simp only [ByteOrder.position, Nat.zero_add]

/-- A number with its bytes reversed has the bytes of the number in the other order. -/
theorem Value.byteAt_reversed {ty : Ty} (hty : ty ≠ .i1) (x : BitVec ty.bits) (order : ByteOrder)
    {i : Nat} (hi : i < ty.bytes) :
    (⟨ty, ty.reversed x⟩ : Value).byteAt order i = (⟨ty, x⟩ : Value).byteAt order.opposite i := by
  have hposition := order.opposite.position_opposite hi
  have horder : order.opposite.opposite = order := by cases order <;> rfl
  rw [horder] at hposition
  simp only [byteAt]
  rw [Ty.extract_reversed hty x (GuestState.position_lt order hi), hposition]

namespace ByteMemory

variable {bytes : ByteMemory} {order : ByteOrder} {addr : BitVec 64} {ty : Ty}

/-- A byte of a number that was read, by its place in memory. -/
theorem byteAt_read (hty : ty ≠ .i1) {i : Nat} (hi : i < ty.bytes) :
    (⟨ty, bytes.read order addr ty⟩ : Value).byteAt order i = bytes (addr + .ofNat 64 i) := by
  refine (GuestState.extract_read hty (GuestState.position_lt order hi)).trans ?_
  simp only [Nat.zero_add]
  rw [GuestState.position_position order hi]

theorem read_reversed (hty : ty ≠ .i1) :
    ty.reversed (bytes.read order addr ty) = bytes.read order.opposite addr ty := by
  refine (read_eq_of_bytes (v := ⟨ty, ty.reversed (bytes.read order addr ty)⟩) hty ?_).symm
  intro i hi
  have horder : order.opposite.opposite = order := by cases order <;> rfl
  rw [Value.byteAt_reversed hty _ _ hi, horder, byteAt_read hty hi]

theorem write_reversed (hty : ty ≠ .i1) (x : BitVec ty.bits) :
    bytes.write order addr ⟨ty, ty.reversed x⟩ = bytes.write order.opposite addr ⟨ty, x⟩ := by
  funext a
  by_cases ha : (a - addr).toNat < ty.bytes
  · rw [write_inside ha, write_inside (v := ⟨ty, x⟩) ha, Value.byteAt_reversed hty x order ha]
  · rw [write_outside ha, write_outside (v := ⟨ty, x⟩) ha]

end ByteMemory

namespace Interp

variable {M : Type}

/-- Besides the arithmetic of integers, truth values are negated, narrow numbers are extended with
their sign, and bytes are reversed. -/
structure Scalar (I : Interp M) : Prop extends I.Integral where
  not1 (b : Bool) : I.op .not1 [⟨.i1, .ofBool b⟩] = .ofBool (!b)
  extend (c : Cast) (hc : c.extendsSign = true) (ty : Ty) (harg : c.signature.args = [ty])
    (x : BitVec ty.bits) : I.op (.cast c) [⟨ty, x⟩] = x.signExtend _
  reverse16 (x : BitVec 16) : I.op .reverse16 [⟨.i16, x⟩] = Ty.reversed .i16 x
  reverse (w : Word) (x : BitVec w.ty.bits) : I.op (.reverse w) [⟨w.ty, x⟩] = w.ty.reversed x

/-! ## A concrete interpretation -/

/-- The operators on integers with conversions and reversals. -/
def scalarOp : (op : Op) → List Value → BitVec op.signature.ret.bits
  | .not1 => unary .i1 (~~~·)
  | .reverse16 => unary .i16 (Ty.reversed .i16)
  | .reverse w => unary w.ty w.ty.reversed
  | .cast c =>
      match c.extendsSign, c.signature.args with
      | true, [ty] => unary ty (·.signExtend _)
      | _, _ => integralOp (.cast c)
  | op => integralOp op

/-- The interpretation with memory in bytes and the arithmetic of integers; helpers give zero. -/
def scalar (order : ByteOrder) : Interp Reserved := { bytewise order with op := scalarOp }

theorem scalar_bytewise (order : ByteOrder) : (scalar order).Bytewise Reserved.bytes where
  load := (bytewise_bytewise order).load
  store := (bytewise_bytewise order).store
  storeConditional := (bytewise_bytewise order).storeConditional

theorem scalar_scalar (order : ByteOrder) : (scalar order).Scalar where
  toIntegral := (integral_integral order).congr fun op hop => by
    cases op with
    | not1 | reverse16 | reverse _ => cases hop
    | cast c => cases c <;> first | rfl | cases hop
    | _ => rfl
  not1 b := by
    refine (unary_mk (fun x : BitVec Ty.i1.bits => ~~~x) _).trans ?_
    cases b <;> rfl
  extend c hc ty harg x := by
    change scalarOp (.cast c) [⟨ty, x⟩] = _
    simp only [scalarOp, hc, harg]
    exact unary_mk (fun x => x.signExtend _) x
  reverse16 x := unary_mk (Ty.reversed .i16) x
  reverse w x := unary_mk w.ty.reversed x

end Interp

end PowerLift
