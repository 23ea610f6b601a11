import PowerLift.Family.Basic

/-!
# Integer arithmetic

Sums, differences, products, quotients and remainders of general registers.
-/

namespace PowerLift.Arithmetic

open Lift
open PowerLift.Expr (un bin)

/-- A register or an immediate as an operand of `addi` and `addis`; register zero reads as zero. -/
def addImmediate (w : Insn) : Lift Unit := do
  let shifted := w.opcode == 15
  let value ← imm (if shifted then w.simm64 <<< 16 else w.simm64)
  let mark := if shifted then "s" else ""
  let sum ← if w.ra = 0 then do
      listed s!"li{mark} r{w.rd},{w.simm16}"
      pure value
    else do
      listed s!"addi{mark} r{w.rd},r{w.ra},{w.simm16}"
      pure (bin (← wordOp .add) (← getGpr w.ra) value)
  putGpr w.rd (← bind sum)

/-- Forms with a signed 16-bit immediate. -/
def immediate (w : Insn) : Lift Unit := do
  if w.opcode = 14 ∨ w.opcode = 15 then return ← addImmediate w
  let a ← bind (← getGpr w.ra)
  let value ← imm w.simm64
  let operands := s!"r{w.rd},r{w.ra},{w.simm16}"
  let res ← match w.opcode with
    | 12 | 13 => do
        let record := w.opcode == 13
        let mark := if record then "." else ""
        listed s!"addic{mark} {operands}"
        let res ← bind (bin (← wordOp .add) a value)
        setCarry .add res a value (← imm 0)
        if record then recordResult res
        pure res
    | 7 => do
        listed s!"mulli {operands}"
        bind (bin (← wordOp .mul) a value)
    | 8 => do
        listed s!"subfic {operands}"
        let res ← bind (bin (← wordOp .sub) value a)
        setCarry .subfI res a value (← imm 0)
        pure res
    | _ => unrecognized w "integer immediate"
  putGpr w.rd res

/-- The address of the next instruction plus a shifted immediate, stored in three pieces. -/
def addNextShifted (w : Insn) : Lift Unit := do
  let d := (BitVec.ofNat 16 ((w.slice 16 10 <<< 6) ||| (w.slice 11 5 <<< 1) ||| w.slice 31 1))
  listed s!"addpcis r{w.rd},{d.toInt}"
  let env ← read
  putGpr w.rd (env.imm (env.cutAddress (env.nia + (d.signExtend 64 <<< 16))))

/-- Doubleword products plus a third register. -/
def multiplyAdd (w : Insn) : Lift Unit := do
  needMode64 w "multiply-add doubleword"
  let a ← bind (← getGpr w.ra)
  let b ← bind (← getGpr w.rb)
  let c ← bind (← getGpr w.rcField)
  let operands := s!"r{w.rd},r{w.ra},r{w.rb},r{w.rcField}"
  /- The high half of the product, and the carry of the low half's sum. -/
  let wide (sign : Sign) : Lift (Expr × Expr) := do
    let product ← bind (bin (.mull sign .w64) a b)
    let lo ← bind (un (.cast .low128to64) product)
    let sum ← bind (bin .add64 lo c)
    return (un (.cast .high128to64) product,
      un (.cast .zext1to64) (bin (.cmpLT .w64 .unsigned) sum lo))
  let res ← match w.vaXo with
    | 48 => do
        listed s!"maddhd {operands}"
        let (hi, carry) ← wide .signed
        pure (bin .add64 (bin .add64 hi (bin .sar64 c (.u8 63))) carry)
    | 49 => do
        listed s!"maddhdu {operands}"
        let (hi, carry) ← wide .unsigned
        pure (bin .add64 hi carry)
    | 51 => do
        listed s!"maddld {operands}"
        pure (bin .add64 (bin (.mul .w64) a b) c)
    | _ => unrecognized w "multiply-add doubleword"
  putGpr w.rd res

/-- Remainders. -/
def modulo (w : Insn) : Lift Unit := do
  reservedClear w w.record "modulo Rc"
  let a ← getGpr w.ra
  let b ← getGpr w.rb
  let operands := s!"r{w.rd},r{w.ra},r{w.rb}"
  let word := w.xo10 == 779 || w.xo10 == 267
  let signed := w.xo10 == 779 || w.xo10 == 777
  let letter := if signed then "s" else "u"
  let sign := Sign.ofSigned signed
  if word then
    listed s!"mod{letter}w {operands}"
    let a ← bind (← low32 a)
    let b ← bind (← low32 b)
    let r := bin .sub32 a (bin (.mul .w32) (bin (.div sign .w32) a b) b)
    putGpr w.rd (← widen r signed)
  else
    needMode64 w "modulo doubleword"
    listed s!"mod{letter}d {operands}"
    let a ← bind a
    let b ← bind b
    putGpr w.rd (bin .sub64 a (bin (.mul .w64) (bin (.div sign .w64) a b) b))

/-- The second operand of an extended sum or difference: a register, minus one or zero. -/
inductive ExtendedOperand where
  | register | minusOne | zero
  deriving DecidableEq, Repr

/-- The second operand of an extended form, after its line of disassembly. -/
def extendedOperand (w : Insn) (base : String) (kind : ExtendedOperand) (b : Expr) :
    Lift Expr := do
  let short := s!"r{w.rd},r{w.ra}"
  match kind with
  | .register =>
      listed s!"{base}e{w.marks} {short},r{w.rb}"
      return b
  | .minusOne =>
      reservedZero w w.rb s!"{base}me rB"
      listed s!"{base}me{w.marks} {short}"
      imm (.allOnes 64)
  | .zero =>
      reservedZero w w.rb s!"{base}ze rB"
      listed s!"{base}ze{w.marks} {short}"
      imm 0

/-- A sum or difference with the incoming carry. A difference adds the complement. -/
def extendedSum (w : Insn) (subtract : Bool) (kind : ExtendedOperand) (a b : Expr) (t : Nat) :
    Lift Unit := do
  let b ← extendedOperand w (if subtract then "subf" else "add") kind b
  let carryIn ← bind (← widen (← getXerCa) false)
  let add ← wordOp .add
  let first ← if subtract then pure (un (← wordOp .not) a) else pure a
  let rule : FlagRule := if subtract then .subfE else .addE
  assign t (bin add (bin add first b) carryIn)
  setCarry rule (.tmp t) a b carryIn
  if w.oe then setOverflow rule (.tmp t) a b

/-- Which quotient a divide instruction computes. -/
structure Quotient where
  sign : Sign
  extended : Bool

namespace Quotient

def op (q : Quotient) (w : Word) : Op := if q.extended then .divExt q.sign w else .div q.sign w

/-- The end of the mnemonic. -/
def suffix (q : Quotient) : String :=
  (if q.extended then "e" else "") ++ (if q.sign = .unsigned then "u" else "")

/-- The overflow rule at a width. -/
def rule (q : Quotient) : Word → FlagRule
  | .w32 => match q.extended, q.sign with
    | false, .signed => .divW
    | false, .unsigned => .divWU
    | true, .signed => .divWE
    | true, .unsigned => .divWEU
  | .w64 => match q.extended, q.sign with
    | false, .signed => .divD
    | false, .unsigned => .divDU
    | true, .signed => .divDE
    | true, .unsigned => .divDEU

end Quotient

/-- A quotient of words; the upper half of a 64-bit result is zero. -/
def divideWord (w : Insn) (q : Quotient) (a b : Expr) (t : Nat) : Lift Unit := do
  listed s!"divw{q.suffix}{w.marks} r{w.rd},r{w.ra},r{w.rb}"
  let a ← bind (← low32 a)
  let b ← bind (← low32 b)
  let res ← bind (bin (q.op .w32) a b)
  assign t (← to64IfWide res)
  if w.oe then setOverflow (q.rule .w32) res a b
where
  to64IfWide (e : Expr) : Lift Expr := do
    if ← mode64 then return un (.cast .zext32to64) e else return e

/-- A quotient of doublewords. -/
def divideDoubleword (w : Insn) (q : Quotient) (a b : Expr) (t : Nat) : Lift Unit := do
  needMode64 w "divide doubleword"
  listed s!"divd{q.suffix}{w.marks} r{w.rd},r{w.ra},r{w.rb}"
  assign t (bin (q.op .w64) a b)
  if w.oe then setOverflow (q.rule .w64) (.tmp t) a b

/-- The low half of a product of words. -/
def multiplyLowWord (w : Insn) (a b : Expr) (t : Nat) : Lift Unit := do
  listed s!"mullw{w.marks} r{w.rd},r{w.ra},r{w.rb}"
  let a ← low32 a
  let b ← low32 b
  assign t (bin (if ← mode64 then .mull .signed .w32 else .mul .w32) a b)
  if w.oe then
    let lo ← bind (← low32 (.tmp t))
    setOverflow .mulLw lo a b

/-- The mark of unsigned forms in disassembly. -/
def unsignedMark : Sign → String
  | .signed => ""
  | .unsigned => "u"

/-- The high half of a product of words. -/
def multiplyHighWord (w : Insn) (sign : Sign) (a b : Expr) (t : Nat) : Lift Unit := do
  invalidIf w w.oe "mulhw with OE"
  listed s!"mulhw{unsignedMark sign}{w.dot} r{w.rd},r{w.ra},r{w.rb}"
  let hi := un (.cast .high64to32) (bin (.mull sign .w32) (← low32 a) (← low32 b))
  assign t (← to64 hi sign)
where
  to64 (hi : Expr) (sign : Sign) : Lift Expr := do
    if ← mode64 then
      return un (.cast (if sign = .signed then .sext32to64 else .zext32to64)) hi
    else return hi

/-- The high half of a product of doublewords. -/
def multiplyHighDoubleword (w : Insn) (sign : Sign) (a b : Expr) (t : Nat) : Lift Unit := do
  needMode64 w "mulhd"
  invalidIf w w.oe "mulhd with OE"
  listed s!"mulhd{unsignedMark sign}{w.dot} r{w.rd},r{w.ra},r{w.rb}"
  assign t (un (.cast .high128to64) (bin (.mull sign .w64) a b))

/-- The result of a three-register form, and the carry and overflow that belong to it. -/
def registerResult (w : Insn) (a b : Expr) (t : Nat) : Lift Unit := do
  let res : Expr := .tmp t
  let operands := s!"r{w.rd},r{w.ra},r{w.rb}"
  match w.xo9 with
  | 266 =>
      listed s!"add{w.marks} {operands}"
      assign t (bin (← wordOp .add) a b)
      if w.oe then setOverflow .add res a b
  | 10 =>
      listed s!"addc{w.marks} {operands}"
      assign t (bin (← wordOp .add) a b)
      setCarry .add res a b (← imm 0)
      if w.oe then setOverflow .add res a b
  | 138 => extendedSum w false .register a b t
  | 234 => extendedSum w false .minusOne a b t
  | 202 => extendedSum w false .zero a b t
  | 40 =>
      listed s!"subf{w.marks} {operands}"
      assign t (bin (← wordOp .sub) b a)
      if w.oe then setOverflow .subf res a b
  | 8 =>
      listed s!"subfc{w.marks} {operands}"
      assign t (bin (← wordOp .sub) b a)
      setCarry .subfC res a b (← imm 0)
      if w.oe then setOverflow .subfC res a b
  | 136 => extendedSum w true .register a b t
  | 232 => extendedSum w true .minusOne a b t
  | 200 => extendedSum w true .zero a b t
  | 104 =>
      reservedZero w w.rb "neg rB"
      listed s!"neg{w.marks} r{w.rd},r{w.ra}"
      assign t (bin (← wordOp .sub) (← imm 0) a)
      if w.oe then setOverflow .neg res a b
  | 235 => multiplyLowWord w a b t
  | 75 => multiplyHighWord w .signed a b t
  | 11 => multiplyHighWord w .unsigned a b t
  | 233 =>
      needMode64 w "mulld"
      listed s!"mulld{w.marks} {operands}"
      assign t (bin (.mul .w64) a b)
      if w.oe then setOverflow .mulLd res a b
  | 73 => multiplyHighDoubleword w .signed a b t
  | 9 => multiplyHighDoubleword w .unsigned a b t
  | 491 => divideWord w ⟨.signed, false⟩ a b t
  | 459 => divideWord w ⟨.unsigned, false⟩ a b t
  | 427 => divideWord w ⟨.signed, true⟩ a b t
  | 395 => divideWord w ⟨.unsigned, true⟩ a b t
  | 489 => divideDoubleword w ⟨.signed, false⟩ a b t
  | 457 => divideDoubleword w ⟨.unsigned, false⟩ a b t
  | 425 => divideDoubleword w ⟨.signed, true⟩ a b t
  | 393 => divideDoubleword w ⟨.unsigned, true⟩ a b t
  | _ => unrecognized w "integer arithmetic XO"

/-- Three-register forms. -/
def registers (w : Insn) : Lift Unit := do
  let a ← bind (← getGpr w.ra)
  let b ← bind (← getGpr w.rb)
  let t ← newTemp (← wordTy)
  registerResult w a b t
  putGpr w.rd (.tmp t)
  if w.record then recordResult (.tmp t)

/-- Lifts an instruction of the family. -/
def lift (w : Insn) : Lift Unit :=
  match w.opcode with
  | 4 => multiplyAdd w
  | 7 | 8 | 12 | 13 | 14 | 15 => immediate w
  | 19 => addNextShifted w
  | 31 => if [779, 267, 777, 265].contains w.xo10 then modulo w else registers w
  | _ => unrecognized w "integer arithmetic"

end PowerLift.Arithmetic
