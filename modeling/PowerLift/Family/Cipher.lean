import PowerLift.Family.VectorInteger

/-!
# Ciphers, digests, carry-less products and packed decimal arithmetic
-/

namespace PowerLift.Cipher

open Lift
open PowerLift.Expr (un bin tri)
open VectorInteger (splat permuteBytes)

/-- Packed decimal sums and differences: the record bit is always set, and one bit is the preferred
sign. -/
def isPacked (w : Insn) : Bool :=
  let xo := w.vxXo &&& 0x5FF
  xo == 0x401 || xo == 0x441

/-- Each byte is the exclusive disjunction of a byte of either operand, named by the halves of a
control byte. -/
def permuteXor (w : Insn) : Lift Unit := do
  listed s!"vpermxor v{w.rd},v{w.ra},v{w.rb},v{w.rcField}"
  let c ← bind (← getVr w.rcField)
  let hi := bin (.vector (.shr .w8)) c (splat .w8 4)
  let lo := bin (.vector .and) c (splat .w8 0x0F)
  putVr w.rd (bin (.vector .xor) (permuteBytes (← getVr w.ra) hi) (permuteBytes (← getVr w.rb) lo))

/-- Packed decimal sums and differences. Condition field 6 reports the sign of the result and
whether it is zero; its last bit stays clear. -/
def packed (w : Insn) : Lift Unit := do
  let preferred := w.slice 22 1
  let subtract := w.vxXo.testBit 6
  let name := if subtract then "sub" else "add"
  listed s!"bcd{name}. v{w.rd},v{w.ra},v{w.rb},{preferred}"
  let op : CryptoOp := if subtract then .bcdSub else .bcdAdd
  let res ← bind (tri op (← getVr w.ra) (← getVr w.rb) (.u8 (.ofNat 8 preferred)))
  putVr w.rd res
  let (hi, lo) ← splitHalves res
  let sign ← bind (bin .and64 lo (.u64 0xF))
  let minus := bin .or1 (bin .cmpEQ64 sign (.u64 0xB)) (bin .cmpEQ64 sign (.u64 0xD))
  let digits := bin .or64 hi (bin .shr64 lo (.u8 4))
  let zero ← bind (bin .cmpEQ64 digits (.u64 0))
  let negative ← bind (bin .and1 minus (un .not1 zero))
  let positive := bin .and1 (un .not1 negative) (un .not1 zero)
  let bit (b : Expr) (n : BitVec 8) : Expr := bin (.shl .w8) (un (.cast .zext1to8) b) (.u8 n)
  putCr321 6 (bin .or8 (bit negative 3) (bin .or8 (bit positive 2) (bit zero 1)))
  putCr0 6 (.u8 0)

/-- Forms with an eleven-bit extended opcode. -/
def twoOperands (w : Insn) : Lift Unit := do
  let both (name : String) (op : CryptoOp) : Lift Unit := do
    listed s!"{name} v{w.rd},v{w.ra},v{w.rb}"
    putVr w.rd (bin op (← getVr w.ra) (← getVr w.rb))
  let sigma (name : String) (op : CryptoOp) : Lift Unit := do
    listed s!"{name} v{w.rd},v{w.ra},{w.slice 16 1},{w.slice 17 4}"
    putVr w.rd (bin op (← getVr w.ra) (.u8 (.ofNat 8 (w.slice 16 5))))
  match w.vxXo with
  | 1288 => both "vcipher" .cipher
  | 1289 => both "vcipherlast" .cipherLast
  | 1352 => both "vncipher" .inverseCipher
  | 1353 => both "vncipherlast" .inverseCipherLast
  | 1480 =>
      reservedZero w w.rb "vsbox rB"
      listed s!"vsbox v{w.rd},v{w.ra}"
      putVr w.rd (un (.crypto .subBytes) (← getVr w.ra))
  | 1666 => sigma "vshasigmaw" .sha256
  | 1730 => sigma "vshasigmad" .sha512
  | 1032 => both "vpmsumb" (.polynomialMulAdd .w8)
  | 1096 => both "vpmsumh" (.polynomialMulAdd .w16)
  | 1160 => both "vpmsumw" (.polynomialMulAdd .w32)
  | 1224 => both "vpmsumd" (.polynomialMulAdd .w64)
  | _ => unrecognized w "vector crypto"

/-- Lifts an instruction of the family. -/
def lift (w : Insn) : Lift Unit :=
  if w.vaXo = 45 then permuteXor w
  else if isPacked w then packed w
  else twoOperands w

end PowerLift.Cipher
