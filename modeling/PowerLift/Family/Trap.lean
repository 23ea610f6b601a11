import PowerLift.Family.Basic

/-!
# Conditional traps
-/

namespace PowerLift.Trap

open Lift
open PowerLift.Expr (un bin)

/-! Conditions of the trap field, the most significant bit first. -/

/-- Less, as signed numbers. -/
def less : Nat := 0x10
/-- Greater, as signed numbers. -/
def greater : Nat := 0x08
/-- Equal. -/
def equal : Nat := 0x04
/-- Less, as unsigned numbers. -/
def lessUnsigned : Nat := 0x02
/-- Greater, as unsigned numbers. -/
def greaterUnsigned : Nat := 0x01

/-- Whether every pair of operands traps. -/
def always (field : Nat) : Bool :=
  let signed := less ||| greater ||| equal
  let unsigned := equal ||| lessUnsigned ||| greaterUnsigned
  field &&& signed == signed || field &&& unsigned == unsigned

/-- The bits of an ordering that trap, where a condition of the trap field stands for each. -/
def orderMask (field : Nat) (conditions : List (Nat × BitVec 64)) : BitVec 64 :=
  conditions.foldl (fun acc (c, bit) => if field &&& c ≠ 0 then acc ||| bit else acc) 0

/-- Emits the trap; the answer tells whether it always happens. -/
def emit (field : Nat) (w : Word) (a b : Expr) : Lift Bool := do
  let cia := (← read).cia
  if always field then
    exit (.u1 true) .sigTrap cia
    return true
  if field = 0 then return false
  let a ← bind a
  let b ← bind b
  let signed ← bind (bin (.cmpORD w .signed) a b)
  let unsigned ← bind (bin (.cmpORD w .unsigned) a b)
  let hit (order : Expr) (mask : BitVec 64) : List Expr :=
    if mask = 0 then []
    else [bin (.cmpNE w.width) (bin (.and w.width) order (FlagRule.lit w mask)) (FlagRule.lit w 0)]
  let hits := hit signed (orderMask field [(less, 8), (greater, 4), (equal, 2)]) ++
    hit unsigned (orderMask field [(lessUnsigned, 8), (greaterUnsigned, 4)])
  match hits with
  | [] => return false
  | first :: rest =>
      exit (rest.foldl (bin .or1) first) .sigTrap cia
      return false

/-- Lifts an instruction of the family. -/
def lift (w : Insn) : Lift Unit := do
  let (double, register) ← match w.opcode, w.xo10 with
    | 3, _ => pure (false, false)
    | 2, _ => pure (true, false)
    | 31, 4 => pure (false, true)
    | 31, 68 => pure (true, true)
    | _, _ => unrecognized w "trap"
  if register then reservedClear w w.record "trap bit 31"
  if double then needMode64 w "doubleword trap"
  let name := if double then "td" else "tw"
  if register then listed s!"{name} {w.trapOn},r{w.ra},r{w.rb}"
  else listed s!"{name}i {w.trapOn},r{w.ra},{w.simm16}"
  let a ← getGpr w.ra
  let b ← if register then getGpr w.rb else imm w.simm64
  let unconditional ← if double then emit w.trapOn .w64 a b
    else emit w.trapOn .w32 (← low32 a) (← low32 b)
  if unconditional then stopAtNext .boring

end PowerLift.Trap
