import PowerLift.Family.Basic

/-!
# Integer comparison

Comparisons write an ordering into a condition field; two forms write a general register.
-/

namespace PowerLift.Comparison

open Lift
open PowerLift.Expr (un bin)

/-- Compares a register with a register or an immediate. -/
def compare (w : Insn) : Lift Unit := do
  reservedZero w (w.slice 9 1) "compare bit 9"
  let long := w.lBit
  invalidIf w (long && !(← mode64)) "64-bit compare in 32-bit mode"
  let a ← getGpr w.ra
  let width := if long then "d" else "w"
  let (sign, b) ← match w.opcode with
    | 11 => do
        listed s!"cmp{width}i cr{w.crfd},r{w.ra},{w.simm16}"
        pure (Sign.signed, ← imm w.simm64)
    | 10 => do
        listed s!"cmpl{width}i cr{w.crfd},r{w.ra},{w.uimm16}"
        pure (Sign.unsigned, ← imm (.ofNat 64 w.uimm16))
    | _ => do
        reservedClear w w.record "compare Rc"
        let signed := w.xo10 == 0
        let name := if signed then "cmp" else "cmpl"
        listed s!"{name}{width} cr{w.crfd},r{w.ra},r{w.rb}"
        pure (Sign.ofSigned signed, ← getGpr w.rb)
  let order ← if long then pure (bin (.cmpORD .w64 sign) a b)
    else pure (bin (.cmpORD .w32 sign) (← low32 a) (← low32 b))
  setCrFromOrder w.crfd (← bind order)

/-- Sets each byte of the result to all ones where the bytes of the operands agree. -/
def compareBytes (w : Insn) : Lift Unit := do
  reservedClear w w.record "cmpb Rc"
  listed s!"cmpb r{w.ra},r{w.rs},r{w.rb}"
  let env ← read
  let width := env.arch.word
  let s ← bind (← getGpr w.rs)
  let b ← bind (← getGpr w.rb)
  let low8 : Cast := match width with
    | .w32 => .low32to8
    | .w64 => .low64to8
  let byteOf (e : Expr) (i : Nat) : Expr :=
    un low8 (bin (.shr width.width) e (.u8 (.ofNat 8 (8 * i))))
  let lane (i : Nat) : Expr :=
    .ite (bin (.cmpEQ .w8) (byteOf s i) (byteOf b i)) (env.imm (0xFF <<< (8 * i))) (env.imm 0)
  let res := (List.range env.arch.wordBytes).foldl
    (fun acc i => bin (.or width.width) acc (lane i)) (env.imm 0)
  putGpr w.ra res

/-- Minus one, one or zero as a condition field says less, greater or neither. -/
def setFromField (w : Insn) : Lift Unit := do
  reservedZero w (w.slice 14 7) "setb reserved"
  reservedClear w w.record "setb Rc"
  let f := w.slice 11 3
  listed s!"setb r{w.rd},cr{f}"
  let less := bin .cmpNE32 (← getCrBit (4 * f)) (.u32 0)
  let greater := bin .cmpNE32 (← getCrBit (4 * f + 1)) (.u32 0)
  putGpr w.rd (.ite less (← imm (.allOnes 64)) (.ite greater (← imm 1) (← imm 0)))

/-- Lifts an instruction of the family. -/
def lift (w : Insn) : Lift Unit :=
  match w.opcode, w.xo10 with
  | 10, _ | 11, _ | 31, 0 | 31, 32 => compare w
  | 31, 508 => compareBytes w
  | 31, 128 => setFromField w
  | _, _ => unrecognized w "integer compare"

end PowerLift.Comparison
