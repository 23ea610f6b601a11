import PowerLift.Lift.Memory

/-!
# Overflow, carry and comparison results

Operands are given at the width at which the instruction computes: words for word instructions
also on a 64-bit processor.

* sum: overflow where the operands agree in sign and the result does not; carry where the result is
  below the first operand
* difference: overflow where the operands differ in sign and the result has the subtrahend's sign;
  carry where the result is not above the minuend
* negation: overflow where the operand is the least number
* product: overflow where the high half is not the sign of the low half
* quotient: overflow where the divisor is zero, or the least number is divided by minus one
* right shift: carry where the operand is negative and a one is shifted out
-/

namespace PowerLift

open PowerLift.Expr (un bin)

namespace FlagRule

/-- The width of a flag computation. -/
def widthOf : Ty → Except Fault Word
  | .i32 => .ok .w32
  | .i64 => .ok .w64
  | ty => .error (.flagWidth ty)

/-- A literal at a width. -/
def lit (w : Word) (v : BitVec 64) : Expr :=
  match w with
  | .w32 => .u32 (v.setWidth 32)
  | .w64 => .u64 v

/-- The number of the sign bit at a width. -/
def signBit (w : Word) : BitVec 8 := .ofNat 8 (w.bits - 1)

/-- The least signed number at a width. -/
def least (w : Word) : Expr := lit w (1 <<< (w.bits - 1))

/-- Minus one at a width. -/
def minusOne (w : Word) : Expr := lit w (.allOnes 64)

/-- Whether the sign bit is set. -/
def isNegative (w : Word) (e : Expr) : Expr :=
  bin (.cmpNE w.width) (bin (.shr w.width) e (.u8 (signBit w))) (lit w 0)

def equal (w : Word) (a b : Expr) : Expr := bin (.cmpEQ w.width) a b

def unequal (w : Word) (a b : Expr) : Expr := bin (.cmpNE w.width) a b

/-- Where `l` and `r` agree in sign and the result differs from `l`. -/
def signBroken (w : Word) (res l r : Expr) : Expr :=
  let agree := bin (.xor w.width) (bin (.xor w.width) l r) (minusOne w)
  isNegative w (bin (.and w.width) agree (bin (.xor w.width) l res))

/-- The overflow condition. -/
def overflow (rule : FlagRule) (ty : Ty) (res l r : Expr) : Except Fault Expr := do
  let w ← widthOf ty
  match rule with
  | .add | .addE => return signBroken w res l r
  | .subf | .subfC | .subfE => return signBroken w res (un (.not w.width) l) r
  | .neg => return equal w l (least w)
  | .mulLw =>
      if w ≠ .w32 then throw (.wordProduct w.bits)
      let product := bin (.mull .signed .w32) l r
      return bin .cmpNE32 (un (.cast .high64to32) product)
        (bin .sar32 (un (.cast .low64to32) product) (.u8 31))
  | .mulLd =>
      if w ≠ .w64 then throw (.doublewordProduct w.bits)
      let product := bin (.mull .signed .w64) l r
      return bin .cmpNE64 (un (.cast .high128to64) product)
        (bin .sar64 (un (.cast .low128to64) product) (.u8 63))
  | .divW | .divD =>
      return bin .or1 (equal w r (lit w 0))
        (bin .and1 (equal w l (least w)) (equal w r (minusOne w)))
  | .divWU | .divDU => return equal w r (lit w 0)
  | .divWEU | .divDEU =>
      return bin .or1 (equal w r (lit w 0)) (bin (.cmpLE w .unsigned) r l)
  | .divWE | .divDE =>
      let operands := bin .and1 (unequal w l (lit w 0)) (unequal w r (lit w 0))
      return bin .or1 (bin .and1 (equal w res (lit w 0)) operands) (equal w r (lit w 0))
  | .subfI | .sraw | .srawi | .srad | .sradi => throw (.noOverflow rule)

/-- Whether `l` is negative and a shift by `amount` drops a one, for amounts below the width. -/
def dropsOne (w : Word) (l amount : Expr) : Expr :=
  let amount8 := match w with
    | .w32 => un (.cast .low32to8) amount
    | .w64 => un (.cast .low64to8) amount
  let dropped := bin (.sub w.width) (bin (.shl w.width) (lit w 1) amount8) (lit w 1)
  let sign := bin (.sar w.width) l (.u8 (signBit w))
  unequal w (bin (.and w.width) sign (bin (.and w.width) l dropped)) (lit w 0)

/-- The carry condition. The incoming carry is read by the extended rules only. -/
def carry (rule : FlagRule) (ty : Ty) (res l r carryIn : Expr) : Except Fault Expr := do
  let w ← widthOf ty
  let extended (x : Expr) : Expr :=
    bin .or1 (bin (.cmpLT w .unsigned) res x)
      (bin .and1 (equal w carryIn (lit w 1)) (equal w res x))
  match rule with
  | .add => return bin (.cmpLT w .unsigned) res l
  | .addE => return extended l
  | .subf | .subfC | .subfI => return bin (.cmpLE w .unsigned) res r
  | .subfE => return extended r
  | .sraw | .srad =>
      let far := bin (.cmpLT w .unsigned) (lit w (.ofNat 64 (w.bits - 1))) r
      return .ite far (bin (.cmpLT w .signed) l (lit w 0)) (dropsOne w l r)
  | .srawi | .sradi => return dropsOne w l r
  | .neg | .mulLw | .mulLd | .divW | .divWU | .divD | .divDU | .divWE | .divWEU | .divDE
  | .divDEU => throw (.noCarry rule)

end FlagRule

namespace Lift

/-- Writes the overflow bit and adds it to the summary bit. -/
def setOverflow (rule : FlagRule) (res l r : Expr) : Lift Unit := do
  let ty ← typeOf res
  let ov ← bind (un (.cast .zext1to8) (← ofExcept (rule.overflow ty res l r)))
  putXerOv ov
  putXerSo (bin .or8 (← getXerSo) ov)

/-- Writes the carry bit. -/
def setCarry (rule : FlagRule) (res l r carryIn : Expr) : Lift Unit := do
  let ty ← typeOf res
  putXerCa (un (.cast .zext1to8) (← ofExcept (rule.carry ty res l r carryIn)))

/-- Writes condition field `f`: an ordering byte, and the summary overflow. -/
def setCrOrdering (f : Nat) (byte : Expr) : Lift Unit := do
  putCr321 f byte
  putCr0 f (← getXerSo)

/-- Compares a result with zero into condition field 0. -/
def recordResult (res : Expr) : Lift Unit := do
  match ← typeOf res with
  | .i32 => setCrOrdering 0 (un (.cast .low32to8) (bin (.cmpORD .w32 .signed) res (.u32 0)))
  | .i64 => setCrOrdering 0 (un (.cast .low64to8) (bin (.cmpORD .w64 .signed) res (.u64 0)))
  | ty => fault (.signOf ty)

/-- Writes an ordering into a condition field. -/
def setCrFromOrder (f : Nat) (order : Expr) : Lift Unit := do
  match ← typeOf order with
  | .i32 => setCrOrdering f (un (.cast .low32to8) order)
  | .i64 => setCrOrdering f (un (.cast .low64to8) order)
  | .i8 => setCrOrdering f order
  | ty => fault (.orderOf ty)

/-- Condition field 6 after a vector comparison: bit 1 where no lane holds, and bit 3 where all
do, if that is tested. -/
def recordLanes (res : Expr) (testAll : Bool) : Lift Unit := do
  let (hi, lo) ← splitHalves res
  let none := un (.cast .zext1to8) (bin .cmpEQ64 (bin .or64 hi lo) (.u64 0))
  let cr := bin (.shl .w8) none (.u8 1)
  let all := un (.cast .zext1to8) (bin .cmpEQ64 (bin .and64 hi lo) (.u64 (.allOnes 64)))
  putCr321 6 (if testAll then bin .or8 cr (bin (.shl .w8) all (.u8 3)) else cr)
  putCr0 6 (.u8 0)

/-- Condition field 1 after a floating-point instruction. Exceptions are not tracked. -/
def recordFloat : Lift Unit := do
  putCr321 1 (.u8 0)
  putCr0 1 (.u8 0)

end Lift

end PowerLift
