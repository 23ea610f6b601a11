import PowerLift.Family.Basic

/-!
# Condition-register logic and moves
-/

namespace PowerLift.ConditionRegister

open Lift
open PowerLift.Expr (un bin)

/-- The mnemonic and the value of an operation on two condition bits. -/
def bitOperation? (xo : Nat) (a b : Expr) : Option (String × Expr) :=
  match xo with
  | 257 => some ("crand", bin .and32 a b)
  | 129 => some ("crandc", bin .and32 a (un (.not .w32) b))
  | 289 => some ("creqv", un (.not .w32) (bin .xor32 a b))
  | 225 => some ("crnand", un (.not .w32) (bin .and32 a b))
  | 33 => some ("crnor", un (.not .w32) (bin .or32 a b))
  | 449 => some ("cror", bin .or32 a b)
  | 417 => some ("crorc", bin .or32 a (un (.not .w32) b))
  | 193 => some ("crxor", bin .xor32 a b)
  | _ => none

/-- Operations on condition bits. -/
def bits (w : Insn) : Lift Unit := do
  reservedClear w w.record "CR logical bit 31"
  let a ← bind (← getCrBit w.ra)
  let b ← bind (← getCrBit w.rb)
  match bitOperation? w.xo10 a b with
  | some (name, value) =>
      listed s!"{name} crb{w.rd},crb{w.ra},crb{w.rb}"
      putCrBit w.rd value
  | none => unrecognized w "CR logical"

/-- Copies a condition field. -/
def moveField (w : Insn) : Lift Unit := do
  reservedZero w (w.slice 9 2) "mcrf bits 9..10"
  reservedZero w (w.slice 14 7) "mcrf bits 14..20"
  reservedClear w w.record "mcrf bit 31"
  listed s!"mcrf cr{w.crfd},cr{w.crfs}"
  putCrField w.crfd (← getCrField w.crfs)

/-- Moves the overflow and carry bits to a condition field and clears them. -/
def moveFromXer (w : Insn) : Lift Unit := do
  reservedZero w (w.slice 9 12) "mcrxr bits 9..20"
  reservedClear w w.record "mcrxr bit 31"
  listed s!"mcrxr cr{w.crfd}"
  putCrField w.crfd (bin .shr32 (← getXer) (.u8 28))
  putXerSo (.u8 0)
  putXerOv (.u8 0)
  putXerCa (.u8 0)

/-- The condition field that a mask with a single bit selects. -/
def singleField? (mask : Nat) : Option Nat :=
  (List.range 8).find? fun f => mask == 0x80 >>> f

/-- The four bits of each condition field that an eight-bit mask selects. -/
def fieldMask (mask : Nat) : BitVec 64 :=
  (List.range 8).foldl
    (fun acc f => if mask.testBit (7 - f) then acc ||| (0xF <<< (28 - 4 * f)) else acc) 0

/-- Reads the condition register, or one field of it in place. -/
def read (w : Insn) : Lift Unit := do
  reservedClear w w.record "mfcr bit 31"
  reservedZero w (w.slice 20 1) "mfcr bit 20"
  let cr ← getCr
  let value ← if w.slice 11 1 = 1 then
      match singleField? w.crm with
      | some f => do
          listed s!"mfocrf r{w.rd},{Text.hex w.crm}"
          pure (bin .and32 cr (.u32 (0xF <<< (28 - 4 * f))))
      | none => invalid w "mfocrf field mask not one-hot"
    else do
      reservedZero w (w.slice 12 8) "mfcr bits 12..19"
      listed s!"mfcr r{w.rd}"
      pure cr
  let v ← bind value
  putGpr w.rd (← widen v false)

/-- Writes the condition fields that a mask selects. -/
def write (w : Insn) : Lift Unit := do
  reservedClear w w.record "mtcrf bit 31"
  reservedZero w (w.slice 20 1) "mtcrf bit 20"
  if w.slice 11 1 = 1 then
    invalidIf w (singleField? w.crm).isNone "mtocrf field mask not one-hot"
    listed s!"mtocrf {Text.hex w.crm},r{w.rs}"
  else listed s!"mtcrf {Text.hex w.crm},r{w.rs}"
  putCrMasked (← low32 (← getGpr w.rs)) (fieldMask w.crm)

/-- Lifts an instruction of the family. -/
def lift (w : Insn) : Lift Unit :=
  match w.opcode, w.xo10 with
  | 19, 0 => moveField w
  | 19, _ => bits w
  | 31, 512 => moveFromXer w
  | 31, 19 => read w
  | 31, 144 => write w
  | _, _ => unrecognized w "condition register"

end PowerLift.ConditionRegister
