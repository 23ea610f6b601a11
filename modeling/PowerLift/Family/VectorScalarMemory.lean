import PowerLift.Family.VectorScalar

/-!
# Vector-scalar loads, stores and moves

A scalar access uses the high half of a register. A scalar load clears the low half.
-/

namespace PowerLift.VectorScalarMemory

open Lift
open PowerLift.Expr (un bin)
open VectorScalar (halves highHalf highDouble bitsOfDouble)

def load (w : Insn) : Lift Unit := do
  let operands := s!"vs{w.xt},r{w.ra},r{w.rb}"
  let ea ← bind (← eaOr0Idx w.ra w.rb)
  let value ← match w.xo10 with
    | 12 => do
        listed s!"lxsiwzx {operands}"
        pure (highHalf (un (.cast .zext32to64) (← Lift.load .i32 ea)))
    | 76 => do
        listed s!"lxsiwax {operands}"
        pure (highHalf (un (.cast .sext32to64) (← Lift.load .i32 ea)))
    | 524 => do
        listed s!"lxsspx {operands}"
        pure (highHalf (bitsOfDouble (un (.float .ofSingle) (← Lift.load .f32 ea))))
    | 588 => do
        listed s!"lxsdx {operands}"
        pure (highHalf (← Lift.load .i64 ea))
    | 332 => do
        listed s!"lxvdsx {operands}"
        let d ← bind (← Lift.load .i64 ea)
        pure (halves d d)
    | 844 => do
        listed s!"lxvd2x {operands}"
        pure (halves (← Lift.load .i64 ea) (← Lift.load .i64 (← addrPlus ea 8)))
    | _ => do
        listed s!"lxvw4x {operands}"
        let word (offset : BitVec 64) : Lift Expr := do Lift.load .i32 (← addrPlus ea offset)
        pure (.ofWords (← word 0) (← word 4) (← word 8) (← word 12))
  putVsr w.xt value

def store (w : Insn) : Lift Unit := do
  let operands := s!"vs{w.xt},r{w.ra},r{w.rb}"
  let ea ← bind (← eaOr0Idx w.ra w.rb)
  let v ← bind (← getVsr w.xt)
  match w.xo10 with
  | 140 =>
      listed s!"stxsiwx {operands}"
      Lift.store ea (un (.cast .low64to32) (un (.cast .highVto64) v))
  | 652 =>
      listed s!"stxsspx {operands}"
      Lift.store ea (bin (.float .toSingle) (← rounding) (highDouble v))
  | 716 =>
      listed s!"stxsdx {operands}"
      Lift.store ea (un (.cast .highVto64) v)
  | 972 =>
      listed s!"stxvd2x {operands}"
      Lift.store ea (un (.cast .highVto64) v)
      Lift.store (← addrPlus ea 8) (un (.cast .lowVto64) v)
  | _ =>
      listed s!"stxvw4x {operands}"
      (← splitWords v).zipIdx.forM fun (word, i) => do
        Lift.store (← addrPlus ea (.ofNat 64 (4 * i))) word

/-- Moves between general and vector-scalar registers. -/
def move (w : Insn) : Lift Unit := do
  reservedZero w w.rb "VSR move rB"
  match w.xo10 with
  | 51 =>
      needMode64 w "mfvsrd"
      listed s!"mfvsrd r{w.ra},vs{w.xt}"
      putGpr w.ra (un (.cast .highVto64) (← getVsr w.xt))
  | 115 =>
      listed s!"mfvsrwz r{w.ra},vs{w.xt}"
      let word := un (.cast .low64to32) (un (.cast .highVto64) (← getVsr w.xt))
      putGpr w.ra (← widen word false)
  | 179 =>
      needMode64 w "mtvsrd"
      listed s!"mtvsrd vs{w.xt},r{w.ra}"
      putVsr w.xt (highHalf (← getGpr w.ra))
  | xo =>
      let signed := xo == 211
      let letter := if signed then "a" else "z"
      listed s!"mtvsrw{letter} vs{w.xt},r{w.ra}"
      let word ← low32 (← getGpr w.ra)
      putVsr w.xt (highHalf (un (.cast (if signed then .sext32to64 else .zext32to64)) word))

/-- Extended opcodes that version 2.07 of the architecture added. -/
def since207 : List Nat := [12, 76, 524, 140, 652, 51, 115, 179, 211, 243]

/-- Lifts an instruction of the family. -/
def lift (w : Insn) : Lift Unit := do
  if since207.contains w.xo10 && !(← read).features.isa207 then missing w .isa207
  match w.xo10 with
  | 51 | 115 | 179 | 211 | 243 => move w
  | 12 | 76 | 524 | 588 | 332 | 780 | 844 => load w
  | 140 | 652 | 716 | 908 | 972 => store w
  | _ => unrecognized w "VSX XX1-form"

end PowerLift.VectorScalarMemory
