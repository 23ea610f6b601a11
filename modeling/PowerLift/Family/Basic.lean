import PowerLift.Lift.Flags

/-!
# Shared conditions of instruction families
-/

namespace PowerLift

namespace Lift

/-- A reserved field must be zero. -/
def reservedZero (w : Insn) (field : Nat) (what : String) : Lift Unit := do
  if field ≠ 0 then reserved w what

/-- A reserved bit must be clear. -/
def reservedClear (w : Insn) (bit : Bool) (what : String) : Lift Unit := do
  if bit then reserved w what

/-- Operand combinations that are undefined. -/
def invalidIf (w : Insn) (bad : Bool) (what : String) : Lift Unit := do
  if bad then invalid w what

/-- Instructions that exist on 64-bit processors only. -/
def needMode64 (w : Insn) (what : String) : Lift Unit := do
  if !(← mode64) then unrecognized w what

end Lift

namespace Insn

/-- The mark of record forms in disassembly. -/
def dot (w : Insn) : String := if w.record then "." else ""

/-- The marks of overflow and record forms in disassembly. -/
def marks (w : Insn) : String := (if w.oe then "o" else "") ++ w.dot

/-- The signed immediate as 64 bits. -/
def simm64 (w : Insn) : BitVec 64 := .ofInt 64 w.simm16

/-- The signed displacement of doubleword forms as 64 bits. -/
def ds64 (w : Insn) : BitVec 64 := .ofInt 64 w.ds

end Insn

end PowerLift
