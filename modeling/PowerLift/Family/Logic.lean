import PowerLift.Family.Basic

/-!
# Bitwise operations, extensions, counts and selection
-/

namespace PowerLift.Logic

open Lift
open PowerLift.Expr (un bin)

/-- Writes a result to the target of logical instructions and compares it where asked. -/
def finish (w : Insn) (value : Expr) : Lift Unit := do
  let res ← bind value
  putGpr w.ra res
  if w.record then recordResult res

/-- Forms with an unsigned immediate. The conjunctions always compare their result. -/
def immediate (w : Insn) : Lift Unit := do
  let u : BitVec 64 := .ofNat 64 w.uimm16
  let (op, value, name, record) : SizedOp × BitVec 64 × String × Bool := match w.opcode with
    | 24 => (.or, u, "ori", false)
    | 25 => (.or, u <<< 16, "oris", false)
    | 26 => (.xor, u, "xori", false)
    | 27 => (.xor, u <<< 16, "xoris", false)
    | 28 => (.and, u, "andi.", true)
    | _ => (.and, u <<< 16, "andis.", true)
  if w.opcode = 24 ∧ w.rs = 0 ∧ w.ra = 0 ∧ w.uimm16 = 0 then listed "nop"
  else
    listed s!"{name} r{w.ra},r{w.rs},{Text.hex w.uimm16}"
    let res ← bind (bin (← wordOp op) (← getGpr w.rs) (← imm value))
    putGpr w.ra res
    if record then recordResult res

/-- A literal repeated over the word. -/
private def pattern (env : Env) (v : BitVec 64) : Expr := env.imm v

/-- The number of ones in each byte. -/
def popCountBytes (s : Expr) : Lift Expr := do
  let env ← read
  let w := env.arch.word.width
  let pairs ← bind (bin (.sub w) s
    (bin (.and w) (bin (.shr w) s (.u8 1)) (pattern env 0x5555555555555555)))
  let nibbles ← bind (bin (.add w)
    (bin (.and w) pairs (pattern env 0x3333333333333333))
    (bin (.and w) (bin (.shr w) pairs (.u8 2)) (pattern env 0x3333333333333333)))
  return bin (.and w) (bin (.add w) nibbles (bin (.shr w) nibbles (.u8 4)))
    (pattern env 0x0F0F0F0F0F0F0F0F)

/-- The parity of the low bits of the bytes, for each word or for the whole. -/
def parity (s : Expr) (perWord : Bool) : Lift Expr := do
  let env ← read
  let w := env.arch.word.width
  let fold (t : Expr) (n : BitVec 8) : Lift Expr := bind (bin (.xor w) t (bin (.shr w) t (.u8 n)))
  let t ← bind (bin (.and w) s (pattern env 0x0101010101010101))
  let t ← if !perWord && env.arch.is64 then fold t 32 else pure t
  let t ← fold t 16
  let t ← fold t 8
  return bin (.and w) t (pattern env (if perWord then 0x0000000100000001 else 1))

/-- Gathers eight bits of `b`, each chosen by a byte of `s`. -/
def permuteBits (s b : Expr) : Lift Expr :=
  (List.range 8).foldlM (fun acc i => do
    let index ← bind (bin .and64 (bin .shr64 s (.u8 (.ofNat 8 (56 - 8 * i)))) (.u64 0xFF))
    let amount := un (.cast .low64to8) (bin .sub64 (.u64 63) index)
    let bit := bin .and64 (bin .shr64 b amount) (.u64 1)
    let bit := Expr.ite (bin (.cmpLT .w64 .unsigned) index (.u64 64)) bit (.u64 0)
    return bin .or64 acc (bin .shl64 bit (.u8 (.ofNat 8 (7 - i))))) (.u64 0)

/-- The mnemonic and the value of a bitwise operation. -/
def bitwise (w : Width) (xo : Nat) (s b : Expr) : String × Expr :=
  match xo with
  | 28 => ("and", bin (.and w) s b)
  | 60 => ("andc", bin (.and w) s (un (.not w) b))
  | 444 => ("or", bin (.or w) s b)
  | 412 => ("orc", bin (.or w) s (un (.not w) b))
  | 316 => ("xor", bin (.xor w) s b)
  | 476 => ("nand", un (.not w) (bin (.and w) s b))
  | 124 => ("nor", un (.not w) (bin (.or w) s b))
  | _ => ("eqv", un (.not w) (bin (.xor w) s b))

/-- A bitwise operation of two registers. One idle disjunction yields the processor, and a
disjunction of a register with itself is a move. -/
def twoRegisters (w : Insn) (s : Expr) : Lift Unit := do
  let b ← getGpr w.rb
  if w.xo10 = 444 ∧ w.rs = 27 ∧ w.ra = 27 ∧ w.rb = 27 ∧ !w.record then
    listed "or 27,27,27 (yield)"
    stopAtNext .yield
  else if w.xo10 = 444 ∧ w.rs = w.rb then
    listed s!"mr{w.dot} r{w.ra},r{w.rs}"
    finish w s
  else
    let (name, value) := bitwise (← word).width w.xo10 s b
    listed s!"{name}{w.dot} r{w.ra},r{w.rs},r{w.rb}"
    finish w value

/-- The sign extension of a byte, halfword or word. -/
def extend (w : Insn) (s : Expr) : Lift Unit := do
  reservedZero w w.rb "extend rB"
  let (ty, letter) ← match w.xo10 with
    | 954 => pure (Ty.i8, "b")
    | 922 => pure (Ty.i16, "h")
    | _ => do
        needMode64 w "extsw"
        pure (Ty.i32, "w")
  listed s!"exts{letter}{w.dot} r{w.ra},r{w.rs}"
  finish w (← widen (← narrow s ty) true)

/-- The number of leading or trailing zeros; all bits count for zero. -/
def countZeros (w : Word) (leading : Bool) (e : Expr) : Expr :=
  let op : Op := if leading then .clz w else .ctz w
  .ite (bin (.cmpEQ w.width) e (FlagRule.lit w 0)) (FlagRule.lit w (.ofNat 64 w.bits)) (un op e)

/-- Forms with one or two registers under primary opcode 31. -/
def registers (w : Insn) : Lift Unit := do
  let s ← bind (← getGpr w.rs)
  let countLetter (leading : Bool) : String := if leading then "l" else "t"
  match w.xo10 with
  | 28 | 60 | 444 | 412 | 316 | 476 | 124 | 284 => twoRegisters w s
  | 954 | 922 | 986 => extend w s
  | 26 | 538 =>
      reservedZero w w.rb "count rB"
      let leading := w.xo10 == 26
      listed s!"cnt{countLetter leading}zw{w.dot} r{w.ra},r{w.rs}"
      let low ← bind (← low32 s)
      finish w (← widen (countZeros .w32 leading low) false)
  | 58 | 570 =>
      needMode64 w "count doubleword"
      reservedZero w w.rb "count rB"
      let leading := w.xo10 == 58
      listed s!"cnt{countLetter leading}zd{w.dot} r{w.ra},r{w.rs}"
      finish w (countZeros .w64 leading s)
  | 122 =>
      reservedZero w w.rb "popcntb rB"
      reservedClear w w.record "popcntb Rc"
      listed s!"popcntb r{w.ra},r{w.rs}"
      finish w (← popCountBytes s)
  | 378 =>
      reservedZero w w.rb "popcntw rB"
      reservedClear w w.record "popcntw Rc"
      listed s!"popcntw r{w.ra},r{w.rs}"
      if ← mode64 then
        finish w (bin (.cast .cat32to64) (un (.popCount .w32) (un (.cast .high64to32) s))
          (un (.popCount .w32) (un (.cast .low64to32) s)))
      else finish w (un (.popCount .w32) s)
  | 506 =>
      needMode64 w "popcntd"
      reservedZero w w.rb "popcntd rB"
      reservedClear w w.record "popcntd Rc"
      listed s!"popcntd r{w.ra},r{w.rs}"
      finish w (un (.popCount .w64) s)
  | 154 =>
      reservedZero w w.rb "prty rB"
      reservedClear w w.record "prty Rc"
      listed s!"prtyw r{w.ra},r{w.rs}"
      finish w (← parity s true)
  | 186 =>
      reservedZero w w.rb "prty rB"
      reservedClear w w.record "prty Rc"
      needMode64 w "prtyd"
      listed s!"prtyd r{w.ra},r{w.rs}"
      finish w (← parity s false)
  | 252 =>
      needMode64 w "bpermd"
      reservedClear w w.record "bpermd Rc"
      listed s!"bpermd r{w.ra},r{w.rs},r{w.rb}"
      let b ← bind (← getGpr w.rb)
      finish w (← permuteBits s b)
  | _ => unrecognized w "logical X-form"

/-- One of two registers, chosen by a condition bit. -/
def select (w : Insn) : Lift Unit := do
  reservedClear w w.record "isel bit 31"
  listed s!"isel r{w.rd},r{w.ra},r{w.rb},{w.rcField}"
  let cond := bin .cmpNE32 (← getCrBit w.rcField) (.u32 0)
  let a ← eaOr0 w.ra
  let b ← getGpr w.rb
  putGpr w.rd (← bind (.ite cond a b))

/-- Lifts an instruction of the family. -/
def lift (w : Insn) : Lift Unit :=
  if 24 ≤ w.opcode ∧ w.opcode ≤ 29 then immediate w
  else if w.opcode = 31 then
    if w.xo5 = 15 then select w else registers w
  else unrecognized w "logical"

end PowerLift.Logic
