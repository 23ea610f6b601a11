import PowerLift.Family.FloatingPoint

/-!
# Decimal floating point

Long decimals stand in one floating-point register, quad decimals in an even register and its
neighbour, the high half first.
-/

namespace PowerLift.DecimalFloat

open Lift
open PowerLift.Expr (un bin tri)
open FloatingPoint (putComparison putOrder)

/-! ## Operands -/

/-- The format of an instruction: primary opcode 63 has quad decimals. -/
def format (w : Insn) : DecFormat := if w.opcode = 63 then .quad else .long

/-- The mark of quad forms in disassembly. -/
def quadMark : DecFormat → String
  | .long => ""
  | .quad => "q"

def getLong (i : Nat) : Lift Expr := return un (.decimal .ofBits) (← getFprBits i)

def putLong (i : Nat) (e : Expr) : Lift Unit := putFprBits i (un (.decimal .bits) e)

def getQuad (i : Nat) : Lift Expr := do
  return bin (.decimal .cat) (← getLong i) (← getLong (i + 1))

def putQuad (i : Nat) (e : Expr) : Lift Unit := do
  let t ← bind e
  putLong i (un (.decimal .high) t)
  putLong (i + 1) (un (.decimal .low) t)

def getDecimal : DecFormat → Nat → Lift Expr
  | .long => getLong
  | .quad => getQuad

def putDecimal : DecFormat → Nat → Expr → Lift Unit
  | .long => putLong
  | .quad => putQuad

/-- Quad operands must name even registers. -/
def evenPairs (w : Insn) (f : DecFormat) (regs : List Nat) : Lift Unit :=
  invalidIf w (f == .quad && regs.any (· % 2 != 0)) "odd FPR pair"

/-! ## Digits -/

/-- The first digit of a long decimal, from its combination field. -/
def firstDigit (bits : Expr) : Lift Expr := do
  let combo ← bind (bin .and64 (bin .shr64 bits (.u8 58)) (.u64 0x1F))
  let large := bin .cmpEQ64 (bin .shr64 combo (.u8 3)) (.u64 3)
  bind (.ite large (bin .or64 (.u64 8) (bin .and64 combo (.u64 1))) (bin .and64 combo (.u64 7)))

/-- The digits of a long decimal, packed: sixteen of them, or fifteen and a sign. -/
def toPacked (w : Insn) : Lift Unit := do
  let sp := w.slice 11 2
  reservedZero w (w.slice 13 3) "ddedpd reserved bits"
  listed s!"ddedpd{w.dot} {sp},fr{w.rd},fr{w.rb}"
  let bits ← bind (← getFprBits w.rb)
  let declets := bin .and64 bits (.u64 0x3FFFFFFFFFFFF)
  let packed ← bind (.call .dpdToBcd .i64 [declets])
  if sp < 2 then
    let first ← firstDigit bits
    putFprBits w.rd (bin .or64 (bin .shl64 first (.u8 60)) packed)
  else
    let plus : BitVec 64 := if sp = 2 then 0xC else 0xF
    let sign := Expr.ite (bin (.cmpLT .w64 .signed) bits (.u64 0)) (.u64 0xD) (.u64 plus)
    putFprBits w.rd (bin .or64 (bin .shl64 packed (.u8 4)) sign)

/-- A long decimal of exponent zero from packed digits, with or without a sign. -/
def ofPacked (w : Insn) : Lift Unit := do
  let signed := w.slice 11 1 == 1
  reservedZero w (w.slice 12 4) "denbcd reserved bits"
  listed s!"denbcd{w.dot} {signed.toNat},fr{w.rd},fr{w.rb}"
  let bits ← bind (← getFprBits w.rb)
  let (digits, combo, sign) ← if signed then do
      let code ← bind (bin .and64 bits (.u64 0xF))
      let minus := bin .or1 (bin .cmpEQ64 code (.u64 0xB)) (bin .cmpEQ64 code (.u64 0xD))
      pure (bin .shr64 bits (.u8 4), Expr.u64 (8 <<< 58),
        bin .shl64 (un (.cast .zext1to64) minus) (.u8 63))
    else do
      let first ← bind (bin .shr64 bits (.u8 60))
      let combo := Expr.ite (bin (.cmpLT .w64 .unsigned) first (.u64 8))
        (bin .or64 (.u64 0x8) first) (bin .or64 (.u64 0x1A) (bin .and64 first (.u64 1)))
      pure (bin .and64 bits (.u64 0xFFFFFFFFFFFFFFF), bin .shl64 combo (.u8 58), .u64 0)
  let declets := Expr.call .bcdToDpd .i64 [digits]
  let head := bin .or64 sign (bin .or64 combo (.u64 (0x8E <<< 50)))
  putFprBits w.rd (bin .or64 head declets)

/-! ## Tests -/

/-- Compares a wanted number of significant digits with that of a value. -/
def testSignificance (w : Insn) : Lift Unit := do
  let f := format w
  reservedZero w (w.slice 9 2 ||| w.record.toNat) "dtstsf reserved bits"
  evenPairs w f [w.rb]
  listed s!"dtstsf{quadMark f} cr{w.crfd},fr{w.ra},fr{w.rb}"
  let wanted := bin .and32 (un (.cast .low64to32) (← getFprBits w.ra)) (.u32 0x3F)
  let digits := un (.cast .low64to32) (un (.decimal (.extractSig f)) (← getDecimal f w.rb))
  let combo := bin .and64 (bin .shr64 (← getFprBits w.rb) (.u8 58)) (.u64 0x1F)
  let special := bin (.cmpLE .w64 .unsigned) (.u64 0x1E) combo
  let cc ← bind (.ite special (.u32 1) (bin (.cmpORD .w32 .unsigned) wanted digits))
  putComparison w.crfd cc

/-- Tests the class or the data group of a value against a mask. -/
def testClass (w : Insn) (group : Bool) : Lift Unit := do
  let f := format w
  reservedZero w (w.slice 9 2 ||| w.record.toNat) "decimal class test reserved bits"
  evenPairs w f [w.ra]
  let letter := if group then "g" else "c"
  listed s!"dtstd{letter}{quadMark f} cr{w.crfd},fr{w.ra},{w.dcm}"
  let hi ← bind (← getFprBits w.ra)
  let args ← match f with
    | .quad => do pure [hi, ← getFprBits (w.ra + 1), .u64 1]
    | .long => pure [.u64 0, hi, .u64 0]
  let cls ← bind (.call .dfpClassify .i64 args)
  let bits := bin .shr64 cls (.u8 (if group then 8 else 0))
  let hit := bin .cmpNE64 (bin .and64 bits (.u64 (.ofNat 64 w.dcm))) (.u64 0)
  let sign := un (.cast .low64to32) (bin .shr64 hi (.u8 63))
  let cc ← bind (bin .or32 (bin .shl32 sign (.u8 3))
    (bin .shl32 (un (.cast .zext1to32) hit) (.u8 1)))
  putComparison w.crfd cc

/-! ## Arithmetic and conversion -/

/-- Writes a result and clears condition field 1 where asked. -/
def finish (w : Insn) (f : DecFormat) (value : Expr) : Lift Unit := do
  putDecimal f w.rd value
  if w.record then recordFloat

/-- Writes a bit pattern and clears condition field 1 where asked. -/
def finishBits (w : Insn) (value : Expr) : Lift Unit := do
  putFprBits w.rd value
  if w.record then recordFloat

def arithmetic (w : Insn) (name : String) (op : DecFormat → DecimalOp) : Lift Unit := do
  let f := format w
  evenPairs w f [w.rd, w.ra, w.rb]
  listed s!"{name}{quadMark f}{w.dot} fr{w.rd},fr{w.ra},fr{w.rb}"
  finish w f (tri (op f) (← decimalRounding) (← getDecimal f w.ra) (← getDecimal f w.rb))

def compare (w : Insn) (name : String) (op : DecFormat → DecimalOp) : Lift Unit := do
  let f := format w
  reservedZero w (w.slice 9 2 ||| w.record.toNat) "decimal compare reserved bits"
  evenPairs w f [w.ra, w.rb]
  listed s!"{name}{quadMark f} cr{w.crfd},fr{w.ra},fr{w.rb}"
  let order ← bind (bin (op f) (← getDecimal f w.ra) (← getDecimal f w.rb))
  putOrder w.crfd order

/-- Widens short to long or long to quad. -/
def widenFormat (w : Insn) : Lift Unit := do
  match format w with
  | .quad =>
      evenPairs w .quad [w.rd]
      listed s!"dctqpq{w.dot} fr{w.rd},fr{w.rb}"
      finish w .quad (un (.decimal .longToQuad) (← getLong w.rb))
  | .long =>
      listed s!"dctdp{w.dot} fr{w.rd},fr{w.rb}"
      finish w .long (un (.decimal .shortToLong) (un (.cast .low64to32) (← getFprBits w.rb)))

/-- Rounds quad to long or long to short. -/
def narrowFormat (w : Insn) : Lift Unit := do
  match format w with
  | .quad =>
      evenPairs w .quad [w.rd, w.rb]
      listed s!"drdpq{w.dot} fr{w.rd},fr{w.rb}"
      let narrowed := bin (.decimal .quadToLong) (← decimalRounding) (← getQuad w.rb)
      finish w .quad (un (.decimal .longToQuad) narrowed)
  | .long =>
      listed s!"drsp{w.dot} fr{w.rd},fr{w.rb}"
      let narrowed := bin (.decimal .longToShort) (← decimalRounding) (← getLong w.rb)
      finishBits w (un (.cast .zext32to64) narrowed)

def ofInteger (w : Insn) : Lift Unit := do
  let f := format w
  evenPairs w f [w.rd]
  listed s!"dcffix{quadMark f}{w.dot} fr{w.rd},fr{w.rb}"
  let bits ← getFprBits w.rb
  match f with
  | .quad => finish w f (un (.decimal (.ofI64 .quad)) bits)
  | .long => finish w f (bin (.decimal (.ofI64 .long)) (← decimalRounding) bits)

def toInteger (w : Insn) : Lift Unit := do
  let f := format w
  evenPairs w f [w.rb]
  listed s!"dctfix{quadMark f}{w.dot} fr{w.rd},fr{w.rb}"
  finishBits w (bin (.decimal (.toI64 f)) (← decimalRounding) (← getDecimal f w.rb))

def extractExponent (w : Insn) : Lift Unit := do
  let f := format w
  evenPairs w f [w.rb]
  listed s!"dxex{quadMark f}{w.dot} fr{w.rd},fr{w.rb}"
  finishBits w (un (.decimal (.extractExp f)) (← getDecimal f w.rb))

def insertExponent (w : Insn) : Lift Unit := do
  let f := format w
  evenPairs w f [w.rd, w.rb]
  listed s!"diex{quadMark f}{w.dot} fr{w.rd},fr{w.ra},fr{w.rb}"
  finish w f (bin (.decimal (.insertExp f)) (← getFprBits w.ra) (← getDecimal f w.rb))

/-- Packed-digit conversions exist for long decimals only. -/
def packed (w : Insn) (convert : Insn → Lift Unit) : Lift Unit := do
  if format w = .quad then unrecognized w "decimal X-form"
  convert w
  if w.record then recordFloat

/-- Forms with a ten-bit extended opcode. -/
def extended (w : Insn) : Lift Unit :=
  match w.xo10 with
  | 2 => arithmetic w "dadd" .add
  | 514 => arithmetic w "dsub" .sub
  | 34 => arithmetic w "dmul" .mul
  | 546 => arithmetic w "ddiv" .div
  | 130 => compare w "dcmpo" .cmp
  | 642 => compare w "dcmpu" .cmp
  | 162 => compare w "dtstex" .cmpExp
  | 674 => testSignificance w
  | 258 => widenFormat w
  | 770 => narrowFormat w
  | 802 => ofInteger w
  | 290 => toInteger w
  | 354 => extractExponent w
  | 866 => insertExponent w
  | 322 => packed w toPacked
  | 834 => packed w ofPacked
  | _ => unrecognized w "decimal X-form"

/-- Shifts of the coefficient by a number of digits. -/
def shiftDigits (w : Insn) (left : Bool) : Lift Unit := do
  let f := format w
  evenPairs w f [w.rd, w.ra]
  let letter := if left then "l" else "r"
  listed s!"dsc{letter}i{quadMark f}{w.dot} fr{w.rd},fr{w.ra},{w.dcm}"
  let op : DecimalOp := if left then .shl f else .shr f
  finish w f (bin op (← getDecimal f w.ra) (.u8 (.ofNat 8 w.dcm)))

/-! ## Quantizing and rounding -/

/-- The rounding mode that an instruction names; the last of the first set is the current mode. -/
def namedRounding (second : Bool) (rmc : Nat) : Lift Expr :=
  match second, rmc with
  | false, 0 => return .u32 Rounding.nearestEven.code
  | false, 1 => return .u32 Rounding.zero.code
  | false, 2 => return .u32 Rounding.nearestTieAway.code
  | false, _ => decimalRounding
  | true, 0 => return .u32 Rounding.posInf.code
  | true, 1 => return .u32 Rounding.negInf.code
  | true, 2 => return .u32 Rounding.awayFromZero.code
  | true, _ => return .u32 Rounding.nearestTieToward.code

/-- The number one with an exponent. Exponents are stored with a bias of their format. -/
def oneWithExponent (f : DecFormat) (e : Int) : Expr :=
  match f with
  | .quad =>
      let one := bin (.decimal .cat) (un (.decimal .ofBits) (.u64 0x2208000000000000))
        (un (.decimal .ofBits) (.u64 1))
      bin (.decimal (.insertExp .quad)) (.u64 (.ofInt 64 (e + 6176))) one
  | .long =>
      bin (.decimal (.insertExp .long)) (.u64 (.ofInt 64 (e + 398)))
        (un (.decimal .ofBits) (.u64 0x2238000000000001))

/-- Forms with a rounding control. -/
def rounded (w : Insn) : Lift Unit := do
  let f := format w
  let marks := quadMark f ++ w.dot
  let toInt (name : String) : Lift Expr := do
    reservedZero w (w.slice 11 4) "drint reserved bits"
    evenPairs w f [w.rd, w.rb]
    listed s!"{name}{marks} {w.rBit.toNat},fr{w.rd},fr{w.rb},{w.rmc}"
    return bin (.decimal (.roundToInt f)) (← namedRounding w.rBit w.rmc) (← getDecimal f w.rb)
  let value ← match w.xo8 with
    | 3 => do
        evenPairs w f [w.rd, w.ra, w.rb]
        listed s!"dqua{marks} fr{w.rd},fr{w.ra},fr{w.rb},{w.rmc}"
        pure (tri (.decimal (.quantize f)) (← namedRounding false w.rmc) (← getDecimal f w.ra)
          (← getDecimal f w.rb))
    | 67 => do
        evenPairs w f [w.rd, w.rb]
        let e := (BitVec.ofNat 5 w.ra).toInt
        listed s!"dquai{marks} {e},fr{w.rd},fr{w.rb},{w.rmc}"
        pure (tri (.decimal (.quantize f)) (← namedRounding false w.rmc) (oneWithExponent f e)
          (← getDecimal f w.rb))
    | 99 => toInt "drintx"
    | 227 => toInt "drintn"
    | _ => unrecognized w "decimal Z23-form"
  finish w f value

/-- Lifts an instruction of the family. -/
def lift (w : Insn) : Lift Unit :=
  if w.opcode = 59 ∨ w.opcode = 63 then
    match w.xo5, w.xo9 with
    | 3, _ => rounded w
    | 2, 66 => shiftDigits w true
    | 2, 98 => shiftDigits w false
    | 2, 194 => testClass w false
    | 2, 226 => testClass w true
    | 2, _ => extended w
    | _, _ => unrecognized w "decimal floating point"
  else unrecognized w "decimal floating point"

end PowerLift.DecimalFloat
