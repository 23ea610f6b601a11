import PowerLift.Family.Basic

/-!
# Load-and-reserve and store-conditional

Reserved addresses must be naturally aligned; any other leaves the block with a bus error.
-/

namespace PowerLift.Reservation

open Lift
open PowerLift.Expr (un bin)

/-- The letter of a width in mnemonics. -/
def letter : Width → String
  | .w8 => "b"
  | .w16 => "h"
  | .w32 => "w"
  | .w64 => "d"

/-- The address of a transfer, checked for alignment. -/
def alignedAddress (w : Insn) (bytes : Nat) : Lift Expr := do
  let ea ← bind (← eaOr0Idx w.ra w.rb)
  requireAligned ea (.ofNat 64 bytes)
  return ea

/-- Reads memory with a reservation. -/
def loadLinked (t : Nat) (addr : Expr) : Lift Unit := do
  let env ← read
  onStage (·.loadLinked env.host t addr)

/-- Writes memory under a reservation. -/
def storeConditional (t : Nat) (addr value : Expr) : Lift Unit := do
  let env ← read
  onStage (·.storeConditional env.host t addr value)

def load (w : Insn) (width : Width) : Lift Unit := do
  if width = .w64 then needMode64 w "ldarx"
  listed s!"l{letter width}arx r{w.rd},r{w.ra},r{w.rb},{w.record.toNat}"
  let ea ← alignedAddress w (width.bits / 8)
  let t ← newTemp width.ty
  loadLinked t ea
  putGpr w.rd (← widen (.tmp t) false)

/-- Condition field 0 after a conditional store: whether it happened, and the summary overflow. -/
def recordStore (ok : Nat) : Lift Unit :=
  setCrOrdering 0 (bin (.shl .w8) (un (.cast .zext1to8) (.tmp ok)) (.u8 1))

def store (w : Insn) (width : Width) : Lift Unit := do
  if width = .w64 then needMode64 w "stdcx."
  invalidIf w (!w.record) "store-conditional without record bit"
  listed s!"st{letter width}cx. r{w.rs},r{w.ra},r{w.rb}"
  let ea ← alignedAddress w (width.bits / 8)
  let value ← narrow (← getGpr w.rs) width.ty
  let ok ← newTemp .i1
  storeConditional ok ea value
  recordStore ok

def loadQuad (w : Insn) : Lift Unit := do
  needMode64 w "lqarx"
  invalidIf w (w.rd % 2 != 0) "lqarx odd target"
  invalidIf w (w.rd == w.ra || w.rd == w.rb) "lqarx target overlaps address registers"
  listed s!"lqarx r{w.rd},r{w.ra},r{w.rb}"
  let ea ← alignedAddress w 16
  let (hiAddr, loAddr) ← quadHalves ea
  let hi ← newTemp .i64
  let lo ← newTemp .i64
  loadLinked hi hiAddr
  loadLinked lo loAddr
  putGpr w.rd (.tmp hi)
  putGpr (w.rd + 1) (.tmp lo)

def storeQuad (w : Insn) : Lift Unit := do
  needMode64 w "stqcx."
  invalidIf w (!w.record) "store-conditional without record bit"
  invalidIf w (w.rs % 2 != 0) "stqcx. odd source"
  listed s!"stqcx. r{w.rs},r{w.ra},r{w.rb}"
  let ea ← alignedAddress w 16
  let (hiAddr, loAddr) ← quadHalves ea
  let ok ← newTemp .i1
  storeConditional ok hiAddr (← getGpr w.rs)
  Lift.store loAddr (← getGpr (w.rs + 1))
  recordStore ok

/-- Lifts an instruction of the family. -/
def lift (w : Insn) : Lift Unit :=
  match w.xo10 with
  | 52 => load w .w8
  | 116 => load w .w16
  | 20 => load w .w32
  | 84 => load w .w64
  | 694 => store w .w8
  | 726 => store w .w16
  | 150 => store w .w32
  | 214 => store w .w64
  | 276 => loadQuad w
  | 182 => storeQuad w
  | _ => unrecognized w "atomic"

end PowerLift.Reservation
