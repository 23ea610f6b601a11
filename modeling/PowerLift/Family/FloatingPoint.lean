import PowerLift.Family.Basic

/-!
# Binary floating point

Floating-point registers hold double-precision values. Single-precision loads widen, and
single-precision arithmetic rounds its result while it keeps the double format. Of the status
register, the rounding modes and the result class are kept.
-/

namespace PowerLift.FloatingPoint

open Lift
open PowerLift.Expr (un bin tri quad)

/-! ## Loads and stores -/

/-- What a floating-point transfer moves. -/
inductive Datum where
  | single | double
  /-- The low word of the bit pattern, extended when loaded. -/
  | word (signed : Bool)
  deriving DecidableEq, Repr, Inhabited

/-- A floating-point load or store. -/
structure Transfer where
  name : String
  datum : Datum
  store : Bool := false
  update : Bool := false
  deriving DecidableEq, Repr, Inhabited

namespace Transfer

/-- Transfers with an immediate displacement, by primary opcode. -/
def ofOpcode? : Nat → Option Transfer
  | 48 => some { name := "lfs", datum := .single }
  | 49 => some { name := "lfsu", datum := .single, update := true }
  | 50 => some { name := "lfd", datum := .double }
  | 51 => some { name := "lfdu", datum := .double, update := true }
  | 52 => some { name := "stfs", datum := .single, store := true }
  | 53 => some { name := "stfsu", datum := .single, store := true, update := true }
  | 54 => some { name := "stfd", datum := .double, store := true }
  | 55 => some { name := "stfdu", datum := .double, store := true, update := true }
  | _ => none

/-- Transfers with an indexed address, by extended opcode. -/
def ofIndexed? : Nat → Option Transfer
  | 535 => some { name := "lfsx", datum := .single }
  | 567 => some { name := "lfsux", datum := .single, update := true }
  | 599 => some { name := "lfdx", datum := .double }
  | 631 => some { name := "lfdux", datum := .double, update := true }
  | 855 => some { name := "lfiwax", datum := .word true }
  | 887 => some { name := "lfiwzx", datum := .word false }
  | 663 => some { name := "stfsx", datum := .single, store := true }
  | 695 => some { name := "stfsux", datum := .single, store := true, update := true }
  | 727 => some { name := "stfdx", datum := .double, store := true }
  | 759 => some { name := "stfdux", datum := .double, store := true, update := true }
  | 983 => some { name := "stfiwx", datum := .word false, store := true }
  | _ => none

end Transfer

/-- Emits a transfer between the target register and memory at `ea`. -/
def emit (w : Insn) (x : Transfer) (ea : Expr) : Lift Unit := do
  let ea ← bind ea
  if x.store then
    let value ← match x.datum with
      | .single => do pure (bin (.float .toSingle) (← rounding) (← getFpr w.rd))
      | .double => getFpr w.rd
      | .word _ => do pure (un (.cast .low64to32) (← getFprBits w.rd))
    store ea value
  else
    match x.datum with
    | .single => putFpr w.rd (un (.float .ofSingle) (← load .f32 ea))
    | .double => putFpr w.rd (← load .f64 ea)
    | .word signed =>
        let op : Cast := if signed then .sext32to64 else .zext32to64
        putFprBits w.rd (un op (← load .i32 ea))
  if x.update then putGpr w.ra ea

def immediate (w : Insn) : Lift Unit :=
  match Transfer.ofOpcode? w.opcode with
  | some x => do
      listed s!"{x.name} fr{w.rd},{w.simm16}(r{w.ra})"
      invalidIf w (x.update && w.ra == 0) "FP update form with rA = 0"
      emit w x (← if x.update then eaDisp w.ra w.simm64 else eaOr0Disp w.ra w.simm64)
  | none => unrecognized w "FP D-form load/store"

/-- Two neighbouring registers as two consecutive doublewords. -/
def pair (w : Insn) (isStore indexed : Bool) : Lift Unit := do
  invalidIf w (w.rd % 2 != 0) "odd FPR pair"
  let name := if isStore then "stfdp" else "lfdp"
  let ea ← if indexed then do
      listed s!"{name}x fr{w.rd},r{w.ra},r{w.rb}"
      eaOr0Idx w.ra w.rb
    else do
      listed s!"{name} fr{w.rd},{w.ds}(r{w.ra})"
      eaOr0Disp w.ra w.ds64
  let ea ← bind ea
  let second ← bind (← addrPlus ea 8)
  if isStore then
    let hi ← getFpr w.rd
    let lo ← getFpr (w.rd + 1)
    store ea hi
    store second lo
  else
    let hi ← load .f64 ea
    let lo ← load .f64 second
    putFpr w.rd hi
    putFpr (w.rd + 1) lo

def indexed (w : Insn) : Lift Unit := do
  reservedClear w w.record "FP X-form load/store bit 31"
  match w.xo10 with
  | 791 => pair w false true
  | 919 => pair w true true
  | xo => match Transfer.ofIndexed? xo with
    | some x =>
        listed s!"{x.name} fr{w.rd},r{w.ra},r{w.rb}"
        invalidIf w (x.update && w.ra == 0) "FP update form with rA = 0"
        emit w x (← if x.update then eaIdx w.ra w.rb else eaOr0Idx w.ra w.rb)
    | none => unrecognized w "FP X-form load/store"

/-! ## Arithmetic -/

/-- Writes a result and clears condition field 1 where asked. -/
def finish (w : Insn) (value : Expr) : Lift Unit := do
  putFpr w.rd value
  if w.record then recordFloat

/-- Arithmetic of up to three operands, in double precision or rounded to single. -/
def arithmetic (w : Insn) : Lift Unit := do
  let single := w.opcode == 59
  let (d, a, b, c) := (w.rd, w.ra, w.rb, w.rcField)
  let marks := (if single then "s" else "") ++ w.dot
  let rm ← bind (← rounding)
  let pick (double sgl : FloatOp) : Op := .float (if single then sgl else double)
  let rounded (e : Expr) : Expr := if single then bin (.float .roundToSingle) rm e else e
  let sum (name : String) (op : Op) : Lift Expr := do
    reservedZero w c "FRC of fadd/fsub/fdiv"
    listed s!"{name}{marks} fr{d},fr{a},fr{b}"
    return tri op rm (← getFpr a) (← getFpr b)
  let fused (name : String) (op : Op) : Lift Expr := do
    listed s!"{name}{marks} fr{d},fr{a},fr{c},fr{b}"
    return quad op rm (← getFpr a) (← getFpr c) (← getFpr b)
  let mulSub := pick .mulSub .mulSubSingle
  let mulAdd := pick .mulAdd .mulAddSingle
  let value ← match w.xo5 with
    | 18 => sum "fdiv" (pick .div .divSingle)
    | 20 => sum "fsub" (pick .sub .subSingle)
    | 21 => sum "fadd" (pick .add .addSingle)
    | 22 => do
        reservedZero w (a ||| c) "FRA/FRC of fsqrt"
        listed s!"fsqrt{marks} fr{d},fr{b}"
        pure (rounded (bin (.float .sqrt) rm (← getFpr b)))
    | 23 => do
        if single then unrecognized w "FP A-form"
        listed s!"fsel{w.dot} fr{d},fr{a},fr{c},fr{b}"
        let cc ← bind (bin (.float .cmp) (← getFpr a) (.f64 0))
        let notLess := bin .or1 (bin .cmpEQ32 cc (.u32 FloatOrder.greater.code))
          (bin .cmpEQ32 cc (.u32 FloatOrder.equal.code))
        pure (.ite notLess (← getFpr c) (← getFpr b))
    | 24 => do
        reservedZero w (a ||| c) "FRA/FRC of fre"
        listed s!"fre{marks} fr{d},fr{b}"
        pure (rounded (un (.float .recipEst) (← getFpr b)))
    | 25 => do
        reservedZero w b "FRB of fmul"
        listed s!"fmul{marks} fr{d},fr{a},fr{c}"
        pure (tri (pick .mul .mulSingle) rm (← getFpr a) (← getFpr c))
    | 26 => do
        reservedZero w (a ||| c) "FRA/FRC of frsqrte"
        listed s!"frsqrte{marks} fr{d},fr{b}"
        pure (rounded (un (.float .rsqrtEst) (← getFpr b)))
    | 28 => fused "fmsub" mulSub
    | 29 => fused "fmadd" mulAdd
    | 30 => do pure (un (.float .neg) (← fused "fnmsub" mulSub))
    | 31 => do pure (un (.float .neg) (← fused "fnmadd" mulAdd))
    | _ => unrecognized w "FP A-form"
  finish w value

/-- Integers to single precision. -/
def singleOfInteger (w : Insn) : Lift Unit := do
  reservedZero w w.ra "FRA of fcfid[u]s"
  let (name, op) ← match w.xo10 with
    | 846 => pure ("fcfids", FloatOp.singleOfI64S)
    | 974 => pure ("fcfidus", FloatOp.singleOfI64U)
    | _ => unrecognized w "FP single X-form"
  listed s!"{name}{w.dot} fr{w.rd},fr{w.rb}"
  let value := bin op (← rounding) (← getFprBits w.rb)
  finish w (un (.float .ofSingle) value)

/-! ## Comparison -/

/-- Writes four comparison bits to a condition field and to the status register. -/
def putComparison (f : Nat) (cc : Expr) : Lift Unit := do
  putCrField f cc
  let kept ← getMasked SpecialSlot.cFpcc 0x10
  putSlot SpecialSlot.cFpcc (bin .or8 kept (un (.cast .low32to8) cc))

/-- Writes the outcome of a comparison operator as a single comparison bit. -/
def putOrder (f : Nat) (order : Expr) : Lift Unit := do
  let hi := bin .and32 (un (.not .w32) (bin .shr32 order (.u8 5))) (.u32 2)
  let lo := bin .and32 (bin .xor32 order (bin .shr32 order (.u8 6))) (.u32 1)
  let cc ← bind (bin .shl32 (.u32 1) (un (.cast .low32to8) (bin .or32 hi lo)))
  putComparison f cc

def compare (w : Insn) : Lift Unit := do
  reservedZero w (w.slice 9 2 ||| w.record.toNat) "fcmp reserved bits"
  let name := if w.xo10 = 0 then "fcmpu" else "fcmpo"
  listed s!"{name} cr{w.crfd},fr{w.ra},fr{w.rb}"
  let order ← bind (bin (.float .cmp) (← getFpr w.ra) (← getFpr w.rb))
  putOrder w.crfd order

/-! ## Class tests on bit patterns -/

def exponent (bits : Expr) : Expr := bin .and64 (bin .shr64 bits (.u8 52)) (.u64 0x7FF)
def magnitude (bits : Expr) : Expr := bin .and64 bits (.u64 0x7FFFFFFFFFFFFFFF)
def notFinite (bits : Expr) : Expr := bin .cmpEQ64 (exponent bits) (.u64 0x7FF)
def infinite (bits : Expr) : Expr := bin .cmpEQ64 (magnitude bits) (.u64 0x7FF0000000000000)
def isZero (bits : Expr) : Expr := bin .cmpEQ64 (magnitude bits) (.u64 0)
def negative (bits : Expr) : Expr := bin (.cmpLT .w64 .signed) bits (.u64 0)

def denormal (bits : Expr) : Expr :=
  bin .and1 (bin .cmpEQ64 (exponent bits) (.u64 0)) (bin .cmpNE64 (magnitude bits) (.u64 0))

/-- Whether one of several conditions holds. -/
def anyOf : List Expr → Expr
  | [] => .u1 false
  | e :: es => es.foldl (bin .or1) e

/-- Tests whether a division or square root needs care: special values and zeros in bit 1, zeros,
denormals and infinities in bit 2. -/
def test (w : Insn) : Lift Unit := do
  reservedZero w (w.slice 9 2 ||| w.record.toNat) "ftdiv/ftsqrt reserved bits"
  let b ← bind (← getFprBits w.rb)
  let (fe, fg) ← if w.xo10 = 128 then do
      listed s!"ftdiv cr{w.crfd},fr{w.ra},fr{w.rb}"
      let a ← bind (← getFprBits w.ra)
      pure (anyOf [notFinite a, notFinite b, isZero b],
        anyOf [infinite a, infinite b, isZero b, denormal b])
    else do
      reservedZero w w.ra "FRA of ftsqrt"
      listed s!"ftsqrt cr{w.crfd},fr{w.rb}"
      pure (anyOf [notFinite b, isZero b, negative b], anyOf [infinite b, isZero b, denormal b])
  let fe := bin .shl32 (un (.cast .zext1to32) fe) (.u8 1)
  let fg := bin .shl32 (un (.cast .zext1to32) fg) (.u8 2)
  putCrField w.crfd (bin .or32 (.u32 8) (bin .or32 fg fe))

/-! ## Rounding, conversion and sign -/

/-- Forms with one operand, and the copy of a sign. -/
def unary (w : Insn) : Lift Unit := do
  let xo := w.xo10
  if xo ≠ 8 then reservedZero w w.ra "FRA of unary FP op"
  let b ← getFpr w.rb
  let operands := s!"{w.dot} fr{w.rd},fr{w.rb}"
  let towardZero := xo % 2 == 1
  let mode : Lift Expr := if towardZero then return .u32 Rounding.zero.code else rounding
  let marks (unsigned : Bool) : String :=
    (if unsigned then "u" else "") ++ (if towardZero then "z" else "")
  let toInt (name : String) (rm : Rounding) : Lift Expr := do
    listed s!"{name}{operands}"
    return bin (.float .roundToInt) (.u32 rm.code) b
  let value ← match xo with
    | 12 => do
        listed s!"frsp{operands}"
        pure (bin (.float .roundToSingle) (← rounding) b)
    | 14 | 15 | 142 | 143 => do
        let unsigned := 142 ≤ xo
        listed s!"fctiw{marks unsigned}{operands}"
        let op : FloatOp := if unsigned then .toI32U else .toI32S
        pure (un (.float .ofBits64) (un (.cast .zext32to64) (bin op (← mode) b)))
    | 814 | 815 | 942 | 943 => do
        let unsigned := 942 ≤ xo
        listed s!"fctid{marks unsigned}{operands}"
        let op : FloatOp := if unsigned then .toI64U else .toI64S
        pure (un (.float .ofBits64) (bin op (← mode) b))
    | 846 => do
        listed s!"fcfid{operands}"
        pure (bin (.float .ofI64S) (← rounding) (← getFprBits w.rb))
    | 974 => do
        listed s!"fcfidu{operands}"
        pure (bin (.float .ofI64U) (← rounding) (← getFprBits w.rb))
    | 392 => toInt "frin" .nearestEven
    | 424 => toInt "friz" .zero
    | 456 => toInt "frip" .posInf
    | 488 => toInt "frim" .negInf
    | 72 => do
        listed s!"fmr{operands}"
        pure b
    | 40 => do
        listed s!"fneg{operands}"
        pure (un (.float .neg) b)
    | 264 => do
        listed s!"fabs{operands}"
        pure (un (.float .abs) b)
    | 136 => do
        listed s!"fnabs{operands}"
        pure (un (.float .neg) (un (.float .abs) b))
    | 8 => do
        listed s!"fcpsgn{w.dot} fr{w.rd},fr{w.ra},fr{w.rb}"
        let sign := bin .and64 (← getFprBits w.ra) (.u64 (1 <<< 63))
        let rest := bin .and64 (← getFprBits w.rb) (.u64 (~~~(1 <<< 63)))
        pure (un (.float .ofBits64) (bin .or64 sign rest))
    | _ => unrecognized w "FP X-form"
  finish w value

/-! ## Status register -/

/-- Writes the status bits under a mask and keeps the others. -/
def writeStatus (value : Expr) (mask : BitVec 64) : Lift Unit := do
  let kept := bin .and64 (← getFpscr) (.u64 (~~~mask))
  putFpscrMasked (bin .or64 kept (bin .and64 value (.u64 mask))) mask

/-- How far up a four-bit field of the status register stands; `upper` counts from bit 32 on. -/
def fieldShift (field : Nat) (upper : Bool) : Nat := 4 * (7 - field) + if upper then 32 else 0

/-- The bits of a four-bit field of the status register. -/
def fieldMask (field : Nat) (upper : Bool) : BitVec 64 := 0xF <<< fieldShift field upper

/-- Copies a field of the status register to a condition field. -/
def readField (w : Insn) : Lift Unit := do
  reservedZero w (w.slice 9 2 ||| w.slice 14 2 ||| w.rb ||| w.record.toNat) "mcrfs reserved bits"
  listed s!"mcrfs cr{w.crfd},cr{w.crfs}"
  let shift : Expr := .u8 (.ofNat 8 (4 * (7 - w.crfs)))
  let field := un (.cast .low64to32) (bin .shr64 (← getFpscr) shift)
  putCrField w.crfd (bin .and32 field (.u32 0xF))

/-- Moves to and from the status register. -/
def status (w : Insn) : Lift Unit := do
  match w.xo10 with
  | 583 =>
      reservedZero w (w.ra ||| w.rb) "mffs reserved fields"
      listed s!"mffs{w.dot} fr{w.rd}"
      putFprBits w.rd (← getFpscr)
  | 711 =>
      let all := w.slice 6 1 == 1
      let upper := w.slice 15 1 == 1
      listed s!"mtfsf{w.dot} {w.fm},fr{w.rb},{all.toNat},{upper.toNat}"
      let mask := if all then .allOnes 64 else
        ((List.range 8).filter fun i => w.fm.testBit (7 - i)).foldl
          (fun m i => m ||| fieldMask i upper) 0
      writeStatus (← getFprBits w.rb) mask
  | 134 =>
      reservedZero w (w.slice 9 6 ||| w.slice 20 1) "mtfsfi reserved bits"
      let upper := w.slice 15 1 == 1
      let u := w.slice 16 4
      listed s!"mtfsfi{w.dot} {w.crfd},{u},{upper.toNat}"
      writeStatus (.u64 (.ofNat 64 (u <<< fieldShift w.crfd upper))) (fieldMask w.crfd upper)
  | 38 | 70 =>
      reservedZero w (w.ra ||| w.rb) "mtfsb reserved fields"
      let set := w.xo10 == 38
      listed s!"mtfsb{set.toNat}{w.dot} {w.rd}"
      let mask : BitVec 64 := 1 <<< (31 - w.rd)
      writeStatus (.u64 (if set then mask else 0)) mask
  | _ => unrecognized w "FPSCR move"
  if w.record then recordFloat

/-- Forms under primary opcode 63 that are not arithmetic. -/
def extended (w : Insn) : Lift Unit :=
  match w.xo10 with
  | 0 | 32 => compare w
  | 128 | 160 => test w
  | 64 => readField w
  | 70 | 38 | 134 | 583 | 711 => status w
  | _ => unary w

/-- Lifts an instruction of the family. -/
def lift (w : Insn) : Lift Unit :=
  if 48 ≤ w.opcode ∧ w.opcode ≤ 55 then immediate w
  else match w.opcode with
    | 57 | 61 => if w.xo2 = 0 then pair w (w.opcode == 61) false
        else unrecognized w "FP pair DS-form"
    | 31 => indexed w
    | 59 => if 18 ≤ w.xo5 then arithmetic w else singleOfInteger w
    | 63 => if 18 ≤ w.xo5 then arithmetic w else extended w
    | _ => unrecognized w "floating point"

end PowerLift.FloatingPoint
