import PowerLift.Family.Logic

/-!
# Rotates and shifts

A word rotate on a 64-bit processor stands in both halves of the register before it is masked, so
that a mask which wraps around selects bits of the upper copy.
-/

namespace PowerLift.Rotate

open Lift
open PowerLift.Expr (un bin)
open Logic (finish)

/-- A left rotation by a fixed amount. -/
def rotateBy (w : Word) (e : Expr) (n : Nat) : Expr :=
  if n % w.bits = 0 then e
  else
    let n := n % w.bits
    bin (.or w.width) (bin (.shl w.width) e (.u8 (.ofNat 8 n)))
      (bin (.shr w.width) e (.u8 (.ofNat 8 (w.bits - n))))

/-- A left rotation by a computed amount, which may be zero. -/
def rotate (w : Word) (e amount : Expr) : Expr :=
  let rotated := bin (.or w.width) (bin (.shl w.width) e amount)
    (bin (.shr w.width) e (bin (.sub .w8) (.u8 (.ofNat 8 w.bits)) amount))
  .ite (bin (.cmpNE .w8) amount (.u8 0)) rotated e

/-- Rotates of words: insert under a mask, or mask. -/
def rotateWord (w : Insn) : Lift Unit := do
  let s ← low32 (← getGpr w.rs)
  let amount ← match w.opcode with
    | 23 => do
        listed s!"rlwnm{w.dot} r{w.ra},r{w.rs},r{w.rb},{w.mb5},{w.me5}"
        pure (un (.cast .low32to8) (bin .and32 (← low32 (← getGpr w.rb)) (.u32 31)))
    | opcode => do
        let name := if opcode = 20 then "rlwimi" else "rlwinm"
        listed s!"{name}{w.dot} r{w.ra},r{w.rs},{w.sh5},{w.mb5},{w.me5}"
        pure (.u8 (.ofNat 8 w.sh5))
  let amount ← bind amount
  let rot ← bind (rotate .w32 s amount)
  let (rot, mask) ← if ← mode64 then do
      let r ← bind (un (.cast .zext32to64) rot)
      let mask ← ofExcept (Bits.mask32In64 w.mb5 w.me5)
      pure (bin .or64 r (bin .shl64 r (.u8 32)), mask)
    else do
      let mask ← ofExcept (Bits.mask32 w.mb5 w.me5)
      pure (rot, mask.setWidth 64)
  let masked := bin (← wordOp .and) rot (← imm mask)
  if w.opcode = 20 then
    let kept := bin (← wordOp .and) (← getGpr w.ra) (← imm (~~~mask))
    finish w (bin (← wordOp .or) masked kept)
  else finish w masked

/-- The rotated value, the mask, and whether the result is inserted. -/
structure MaskedRotate where
  value : Expr
  mask : BitVec 64
  insert : Bool

/-- Rotates of doublewords by a fixed amount. -/
def rotateFixed (w : Insn) (s : Expr) : Lift MaskedRotate := do
  let rot := rotateBy .w64 s w.sh6
  let operands := s!"{w.dot} r{w.ra},r{w.rs},{w.sh6},{w.mb6}"
  match w.xo3 with
  | 0 =>
      listed s!"rldicl{operands}"
      return ⟨rot, ← ofExcept (Bits.mask64 w.mb6 63), false⟩
  | 1 =>
      listed s!"rldicr{operands}"
      return ⟨rot, ← ofExcept (Bits.mask64 0 w.mb6), false⟩
  | 2 =>
      listed s!"rldic{operands}"
      return ⟨rot, ← ofExcept (Bits.mask64 w.mb6 (63 - w.sh6)), false⟩
  | _ =>
      listed s!"rldimi{operands}"
      return ⟨rot, ← ofExcept (Bits.mask64 w.mb6 (63 - w.sh6)), true⟩

/-- Rotates of doublewords by a register. -/
def rotateByRegister (w : Insn) (s : Expr) : Lift MaskedRotate := do
  let amount ← bind (un (.cast .low64to8) (bin .and64 (← getGpr w.rb) (.u64 63)))
  let rot := rotate .w64 s amount
  let operands := s!"{w.dot} r{w.ra},r{w.rs},r{w.rb},{w.mb6}"
  match w.xo4 with
  | 8 =>
      listed s!"rldcl{operands}"
      return ⟨rot, ← ofExcept (Bits.mask64 w.mb6 63), false⟩
  | 9 =>
      listed s!"rldcr{operands}"
      return ⟨rot, ← ofExcept (Bits.mask64 0 w.mb6), false⟩
  | _ => unrecognized w "rotate doubleword MDS"

/-- Rotates of doublewords. -/
def rotateDoubleword (w : Insn) : Lift Unit := do
  needMode64 w "rotate doubleword"
  let s ← getGpr w.rs
  let r ← if w.xo3 ≤ 3 then rotateFixed w s else rotateByRegister w s
  let rot ← bind r.value
  let masked := bin .and64 rot (.u64 r.mask)
  if r.insert then
    finish w (bin .or64 masked (bin .and64 (← getGpr w.ra) (.u64 (~~~r.mask))))
  else finish w masked

/-- Algebraic shifts of doublewords by a fixed amount, and the shift of a sign-extended word. -/
def shiftFixed (w : Insn) (s : Expr) : Lift Unit := do
  needMode64 w "doubleword shift immediate"
  let amount : Expr := .u8 (.ofNat 8 w.sh6)
  let operands := s!"{w.dot} r{w.ra},r{w.rs},{w.sh6}"
  let res ← if w.xo10 >>> 1 = 413 then do
      listed s!"sradi{operands}"
      let res ← bind (bin .sar64 s amount)
      setCarry .sradi res s (.u64 (.ofNat 64 w.sh6)) (.u64 0)
      pure res
    else do
      listed s!"extswsli{operands}"
      bind (bin .shl64 (un (.cast .sext32to64) (un (.cast .low64to32) s)) amount)
  putGpr w.ra res
  if w.record then recordResult res

/-- The amount of an algebraic shift, never beyond the sign bit. -/
def clamped (w : Word) (amount : Expr) : Expr :=
  let top := FlagRule.lit w (.ofNat 64 (w.bits - 1))
  let low8 : Cast := match w with
    | .w32 => .low32to8
    | .w64 => .low64to8
  .ite (bin (.cmpLT w .unsigned) top amount) (.u8 (FlagRule.signBit w)) (un low8 amount)

/-- Shifts by a register, and word shifts by a fixed amount. -/
def shift (w : Insn) : Lift Unit := do
  let s ← bind (← getGpr w.rs)
  if w.xo10 >>> 1 = 413 ∨ w.xo10 >>> 1 = 445 then return ← shiftFixed w s
  let operands := s!"{w.dot} r{w.ra},r{w.rs},r{w.rb}"
  match w.xo10 with
  | 24 | 536 =>
      let left := w.xo10 == 24
      let name := if left then "slw" else "srw"
      listed s!"{name}{operands}"
      let s ← low32 s
      let amount ← bind (bin .and32 (← low32 (← getGpr w.rb)) (.u32 63))
      let shifted := bin (if left then .shl32 else .shr32) s (un (.cast .low32to8) amount)
      let res := Expr.ite (bin (.cmpLT .w32 .unsigned) amount (.u32 32)) shifted (.u32 0)
      finish w (← widen res false)
  | 792 =>
      listed s!"sraw{operands}"
      let s ← bind (← low32 s)
      let amount ← bind (bin .and32 (← low32 (← getGpr w.rb)) (.u32 63))
      let res ← bind (bin .sar32 s (clamped .w32 amount))
      setCarry .sraw res s amount (.u32 0)
      finish w (← widen res true)
  | 824 =>
      listed s!"srawi{w.dot} r{w.ra},r{w.rs},{w.sh5}"
      let s ← bind (← low32 s)
      let res ← bind (bin .sar32 s (.u8 (.ofNat 8 w.sh5)))
      setCarry .srawi res s (.u32 (.ofNat 32 w.sh5)) (.u32 0)
      finish w (← widen res true)
  | 27 | 539 =>
      needMode64 w "doubleword shift"
      let left := w.xo10 == 27
      let name := if left then "sld" else "srd"
      listed s!"{name}{operands}"
      let amount ← bind (bin .and64 (← getGpr w.rb) (.u64 127))
      let shifted := bin (if left then .shl64 else .shr64) s (un (.cast .low64to8) amount)
      finish w (.ite (bin (.cmpLT .w64 .unsigned) amount (.u64 64)) shifted (.u64 0))
  | 794 =>
      needMode64 w "srad"
      listed s!"srad{operands}"
      let amount ← bind (bin .and64 (← getGpr w.rb) (.u64 127))
      let res ← bind (bin .sar64 s (clamped .w64 amount))
      setCarry .srad res s amount (.u64 0)
      finish w res
  | _ => unrecognized w "shift"

/-- Lifts an instruction of the family. -/
def lift (w : Insn) : Lift Unit :=
  match w.opcode with
  | 20 | 21 | 23 => rotateWord w
  | 30 => rotateDoubleword w
  | 31 => shift w
  | _ => unrecognized w "rotate"

end PowerLift.Rotate
