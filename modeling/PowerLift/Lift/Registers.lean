import PowerLift.Lift.Basic

/-!
# Registers

Reads of registers are expressions over the guest state, writes are statements. Registers that are
spread over several slots are put together when read and taken apart when written.
-/

namespace PowerLift.Lift

open PowerLift.Expr (un bin)

/-- Reads the guest state at a place. -/
def getPlace (p : Except Fault Layout.Place) : Lift Expr := do
  let p ← ofExcept p
  return .get p.offset p.ty

/-- Writes the guest state at a place. -/
def putPlace (p : Except Fault Layout.Place) (e : Expr) : Lift Unit := do
  let p ← ofExcept p
  onStage (·.put p.offset p.ty e)

def getSlot (s : Slot) : Lift Expr := do getPlace (Layout.locate (← read).layout s)

def putSlot (s : Slot) (e : Expr) : Lift Unit := do putPlace (Layout.locate (← read).layout s) e

/-! ## General, floating-point and vector registers -/

def getGpr (i : Nat) : Lift Expr := do getPlace (Layout.gpr (← read).layout i)

def putGpr (i : Nat) (e : Expr) : Lift Unit := do putPlace (Layout.gpr (← read).layout i) e

def getFpr (i : Nat) : Lift Expr := do
  let env ← read
  getPlace (Layout.fpr env.layout i env.host)

def putFpr (i : Nat) (e : Expr) : Lift Unit := do
  let env ← read
  putPlace (Layout.fpr env.layout i env.host) e

def getVr (i : Nat) : Lift Expr := do getPlace (Layout.vr (← read).layout i)

def putVr (i : Nat) (e : Expr) : Lift Unit := do putPlace (Layout.vr (← read).layout i) e

def getVsr (i : Nat) : Lift Expr := do getPlace (Layout.vsr (← read).layout i)

def putVsr (i : Nat) (e : Expr) : Lift Unit := do putPlace (Layout.vsr (← read).layout i) e

/-- A floating-point register as its bit pattern. -/
def getFprBits (i : Nat) : Lift Expr := return un (.float .bits64) (← getFpr i)

/-- Writes a floating-point register from a bit pattern. -/
def putFprBits (i : Nat) (e : Expr) : Lift Unit := putFpr i (un (.float .ofBits64) e)

/-! ## Condition register -/

/-- A byte slot as 32 bits. -/
def getByte32 (s : Slot) : Lift Expr := return un (.cast .zext8to32) (← getSlot s)

/-- A condition bit as 0 or 1. -/
def getCrBit (bi : Nat) : Lift Expr := do
  let p ← ofExcept (Layout.crBit bi)
  let byte ← getByte32 p.slot
  if p.bit = 0 then return bin .and32 byte (.u32 1)
  else return bin .and32 (bin .shr32 byte (.u8 (.ofNat 8 p.bit))) (.u32 1)

/-- Writes a condition bit from the low bit of `e`; the other bits of its byte stay. -/
def putCrBit (bi : Nat) (e : Expr) : Lift Unit := do
  let p ← ofExcept (Layout.crBit bi)
  let bit := bin .and32 e (.u32 1)
  if p.bit = 0 then putSlot p.slot (un (.cast .low32to8) bit)
  else
    let old ← getByte32 p.slot
    let kept := bin .and32 old (.u32 (~~~(1 <<< p.bit)))
    let merged := bin .or32 kept (bin .shl32 bit (.u8 (.ofNat 8 p.bit)))
    putSlot p.slot (un (.cast .low32to8) merged)

/-- A condition field as four bits. -/
def getCrField (f : Nat) : Lift Expr := do
  let hi := bin .and32 (← getByte32 (.cr321 f)) (.u32 0xE)
  let lo := bin .and32 (← getByte32 (.cr0 f)) (.u32 1)
  return bin .or32 hi lo

/-- Writes the less, greater and equal bits of a condition field. -/
def putCr321 (f : Nat) (e : Expr) : Lift Unit := putSlot (.cr321 f) e

/-- Writes the summary-overflow bit of a condition field. -/
def putCr0 (f : Nat) (e : Expr) : Lift Unit := putSlot (.cr0 f) e

/-- Writes a condition field from four bits. -/
def putCrField (f : Nat) (e : Expr) : Lift Unit := do
  let v ← bind e
  putCr321 f (un (.cast .low32to8) (bin .and32 v (.u32 0xE)))
  putCr0 f (un (.cast .low32to8) (bin .and32 v (.u32 1)))

/-! ## Fixed-point exception register -/

/-- Bits of a byte slot. -/
def getMasked (s : Slot) (mask : BitVec 8) : Lift Expr := return bin .and8 (← getSlot s) (.u8 mask)

/-- Writes bits of a byte slot and clears the others. -/
def putMasked (s : Slot) (mask : BitVec 8) (e : Expr) : Lift Unit :=
  putSlot s (bin .and8 e (.u8 mask))

def getXerSo : Lift Expr := getMasked SpecialSlot.xerSo 1
def getXerOv : Lift Expr := getMasked SpecialSlot.xerOv 1
def getXerCa : Lift Expr := getMasked SpecialSlot.xerCa 1
def getXerBc : Lift Expr := getMasked SpecialSlot.xerBc 0x7F

/-- The carry as 32 bits. -/
def getXerCa32 : Lift Expr := return un (.cast .zext8to32) (← getXerCa)

def putXerSo (e : Expr) : Lift Unit := putMasked SpecialSlot.xerSo 1 e
def putXerOv (e : Expr) : Lift Unit := putMasked SpecialSlot.xerOv 1 e
def putXerCa (e : Expr) : Lift Unit := putMasked SpecialSlot.xerCa 1 e
def putXerBc (e : Expr) : Lift Unit := putMasked SpecialSlot.xerBc 0x7F e

/-- The exception register in 32 bits. -/
def getXer : Lift Expr := do
  let so := bin .shl32 (un (.cast .zext8to32) (← getXerSo)) (.u8 31)
  let ov := bin .shl32 (un (.cast .zext8to32) (← getXerOv)) (.u8 30)
  let ca := bin .shl32 (un (.cast .zext8to32) (← getXerCa)) (.u8 29)
  let bc := un (.cast .zext8to32) (← getXerBc)
  return bin .or32 (bin .or32 so ov) (bin .or32 ca bc)

/-- Writes the exception register from 32 bits. -/
def putXer (e : Expr) : Lift Unit := do
  let v ← bind e
  putXerSo (un (.cast .low32to8) (bin .shr32 v (.u8 31)))
  putXerOv (un (.cast .low32to8) (bin .shr32 v (.u8 30)))
  putXerCa (un (.cast .low32to8) (bin .shr32 v (.u8 29)))
  putXerBc (un (.cast .low32to8) v)

/-! ## Condition and status registers as a whole -/

/-- The bits of the condition register above which field `f` stands. -/
def crShift (f : Nat) : BitVec 8 := .ofNat 8 (28 - 4 * f)

/-- The condition register in 32 bits. -/
def getCr : Lift Expr := do
  let first := bin .shl32 (← getCrField 0) (.u8 (crShift 0))
  [1, 2, 3, 4, 5, 6, 7].foldlM
    (fun acc f => return bin .or32 acc (bin .shl32 (← getCrField f) (.u8 (crShift f)))) first

/-- Writes the condition fields of which `mask` has a bit. -/
def putCrMasked (e : Expr) (mask : BitVec 64) : Lift Unit := do
  let v ← bind e
  (List.range 8).forM fun f => do
    if (mask >>> (28 - 4 * f)) &&& 0xF != 0 then
      putCrField f (bin .and32 (bin .shr32 v (.u8 (crShift f))) (.u32 0xF))

/-- Bits of the floating-point status that hold the binary rounding mode. -/
def fpscrRn : BitVec 64 := 0x3
/-- Bits of the floating-point status that hold class and comparison results. -/
def fpscrClass : BitVec 64 := 0x1F <<< 12
/-- Bits of the floating-point status that hold the decimal rounding mode. -/
def fpscrDrn : BitVec 64 := 0x7 <<< 32

/-- The floating-point status in 64 bits. -/
def getFpscr : Lift Expr := do
  let rn := un (.cast .zext8to64) (← getMasked SpecialSlot.fpRound 3)
  let cls := bin .shl64 (un (.cast .zext8to64) (← getMasked SpecialSlot.cFpcc 0x1F)) (.u8 12)
  let drn := bin .shl64 (un (.cast .zext8to64) (← getMasked SpecialSlot.dfpRound 7)) (.u8 32)
  return bin .or64 (bin .or64 rn cls) drn

/-- Writes the parts of the floating-point status of which `mask` has a bit. -/
def putFpscrMasked (e : Expr) (mask : BitVec 64) : Lift Unit := do
  let v ← bind e
  if mask &&& fpscrRn != 0 then
    putMasked SpecialSlot.fpRound 3 (un (.cast .low64to8) v)
  if mask &&& fpscrClass != 0 then
    putMasked SpecialSlot.cFpcc 0x1F (un (.cast .low64to8) (bin .shr64 v (.u8 12)))
  if mask &&& fpscrDrn != 0 then
    putMasked SpecialSlot.dfpRound 7 (un (.cast .low64to8) (bin .shr64 v (.u8 32)))

/-! ## Special registers by name -/

def getSpecial : SpecialReg → Lift Expr
  | .plain s => getSlot s
  | .xer => getXer
  | .cr => getCr
  | .fpscr => getFpscr

def putSpecial (r : SpecialReg) (e : Expr) : Lift Unit :=
  match r with
  | .plain s => putSlot s e
  | .xer => putXer e
  | .cr => putCrMasked e 0xFFFFFFFF
  | .fpscr => putFpscrMasked e (.allOnes 64)

/-- Writes the parts of the condition or status register that `mask` selects. -/
def putSpecialMasked (r : SpecialReg) (e : Expr) (mask : BitVec 64) : Lift Unit :=
  match r with
  | .cr => putCrMasked e mask
  | .fpscr => putFpscrMasked e mask
  | _ => fault (.notComposite r)

/-- The processor's encoding of a rounding mode as the operators encode it. -/
def roundingOf (rm : Expr) : Expr :=
  bin .xor32 rm (bin .and32 (bin .shl32 rm (.u8 1)) (.u32 2))

/-- The binary rounding mode. -/
def rounding : Lift Expr :=
  return roundingOf (bin .and32 (← getByte32 SpecialSlot.fpRound) (.u32 3))

/-- The decimal rounding mode. -/
def decimalRounding : Lift Expr :=
  return roundingOf (bin .and32 (← getByte32 SpecialSlot.dfpRound) (.u32 7))

end PowerLift.Lift
