import PowerLift.Family.Basic

/-!
# Transactional memory

No transaction ever starts: its beginning reports a failure through condition field 0 and the
transaction registers, and every other instruction finds no transaction.
-/

namespace PowerLift.Transaction

open Lift

/-- The transaction status after a failed beginning: persistent, with a failure recorded. -/
def failedStatus : BitVec 64 := (1 <<< 56) ||| (1 <<< 27)

/-- Writes condition field 0 from a literal ordering. -/
def setCr0 (order : BitVec 8) : Lift Unit := do
  putCr321 0 (.u8 order)
  putCr0 0 (.u8 0)

def begin (w : Insn) : Lift Unit := do
  reservedZero w (w.slice 6 4 ||| w.slice 11 10) "tbegin. reserved bits"
  listed s!"tbegin. {w.slice 10 1}"
  let env ← read
  putSlot SpecialSlot.texasr (.u64 failedStatus)
  putSlot SpecialSlot.texasru (.u32 0)
  putSlot SpecialSlot.tfiar (.u64 env.cia)
  putSlot SpecialSlot.tfhar (.u64 env.nia)
  setCr0 2

/-- A check finds a doomed transaction. -/
def check (w : Insn) : Lift Unit := do
  reservedZero w (w.slice 9 12 ||| w.record.toNat) "tcheck reserved bits"
  listed s!"tcheck cr{w.crfd}"
  putCrField w.crfd (.u32 8)

/-- Instructions that only report that there is no transaction. -/
def outside (w : Insn) : Lift Unit := do
  match w.xo10 with
  | 686 =>
      reservedZero w (w.slice 7 14) "tend. reserved bits"
      listed s!"tend. {w.slice 6 1}"
  | 910 =>
      reservedZero w (w.rd ||| w.rb) "tabort. reserved bits"
      listed s!"tabort. r{w.ra}"
  | 782 => listed s!"tabortwc. {w.trapOn},r{w.ra},r{w.rb}"
  | 814 => listed s!"tabortdc. {w.trapOn},r{w.ra},r{w.rb}"
  | 846 => listed s!"tabortwci. {w.trapOn},r{w.ra},{w.rb}"
  | 878 => listed s!"tabortdci. {w.trapOn},r{w.ra},{w.rb}"
  | 750 =>
      reservedZero w (w.slice 6 4 ||| w.slice 11 10) "tsr. reserved bits"
      listed s!"tsr. {w.slice 10 1}"
  | 942 =>
      reservedZero w (w.rd ||| w.rb) "treclaim. reserved bits"
      listed s!"treclaim. r{w.ra}"
  | 1006 =>
      reservedZero w (w.rd ||| w.ra ||| w.rb) "trechkpt. reserved bits"
      listed "trechkpt."
  | _ => unrecognized w "TM instruction"
  setCr0 0

/-- Lifts an instruction of the family. -/
def lift (w : Insn) : Lift Unit :=
  if w.xo10 = 718 then check w
  else if !w.record then unrecognized w "TM instruction without record bit"
  else if w.xo10 = 654 then begin w
  else outside w

end PowerLift.Transaction
