import PowerLift.Op.Width

/-!
# Vector operators

A vector has 128 bits; lane zero is the least significant lane. Operators act on lanes of one
width, on float lanes, or on the vector as a whole.
-/

namespace PowerLift

/-- How a saturating narrowing reads its operands and bounds its result. -/
inductive Saturation where
  | unsigned | signed | signedToUnsigned
  deriving DecidableEq, Repr, Inhabited

namespace Saturation

def all : List Saturation := [unsigned, signed, signedToUnsigned]

/-- The letters of the operand and of the result. -/
def letters : Saturation → String × String
  | unsigned => ("U", "U")
  | signed => ("S", "S")
  | signedToUnsigned => ("S", "U")

end Saturation

/-- An operator on integer vectors. -/
inductive VectorOp where
  | and | or | xor | not
  /-- Shifts of the whole vector by a bit count. -/
  | shlAll | shrAll
  | add (w : Width) | add128 | sub (w : Width) | sub128
  | satAdd (s : Sign) (w : Narrow) | satSub (s : Sign) (w : Narrow) | avg (s : Sign) (w : Narrow)
  | max (s : Sign) (w : Width) | min (s : Sign) (w : Width)
  | mul32
  /-- Products of the lanes of even number, counted from the most significant lane. -/
  | mulEven (s : Sign) (w : Narrow)
  | cmpEQ (w : Width) | cmpGT (s : Sign) (w : Width)
  /-- Lane shifts take each count from the matching lane, modulo the lane width. -/
  | shl (w : Width) | shr (w : Width) | sar (w : Width) | rol (w : Width)
  /-- Byte `i` of the result is the byte of the first operand that byte `i` of the second names. -/
  | permute
  | interleaveHigh (w : Width) | interleaveLow (w : Width)
  | interleaveEven | interleaveOdd
  | dup (w : Narrow)
  | narrow (w : Narrow) | satNarrow (s : Saturation) (w : Narrow)
  | clz (w : Width) | popCount (w : Width)
  deriving DecidableEq, Repr, Inhabited

namespace VectorOp

def all : List VectorOp :=
  [and, or, xor, not, shlAll, shrAll, add128, sub128, mul32, permute, interleaveEven,
   interleaveOdd] ++
  Width.all.flatMap (fun w =>
    [add w, sub w, cmpEQ w, shl w, shr w, sar w, rol w, interleaveHigh w, interleaveLow w, clz w,
     popCount w] ++ Sign.all.flatMap (fun s => [max s w, min s w, cmpGT s w])) ++
  Narrow.all.flatMap (fun w =>
    [dup w, narrow w] ++
    Sign.all.flatMap (fun s => [satAdd s w, satSub s w, avg s w, mulEven s w]) ++
    Saturation.all.map (fun s => satNarrow s w))

/-- The name of a family of lane operators with a signedness, such as `Max8Ux16`. -/
private def signedName (base : String) (s : Sign) (w : Width) : String :=
  s!"{base}{w.bits}{s.letter}x{w.lanes}"

def name : VectorOp → String
  | and => "AndV128"
  | or => "OrV128"
  | xor => "XorV128"
  | not => "NotV128"
  | shlAll => "ShlV128"
  | shrAll => "ShrV128"
  | add w => s!"Add{w.shape}"
  | add128 => "Add128x1"
  | sub w => s!"Sub{w.shape}"
  | sub128 => "Sub128x1"
  | satAdd s w => signedName "QAdd" s w.width
  | satSub s w => signedName "QSub" s w.width
  | avg s w => signedName "Avg" s w.width
  | max s w => signedName "Max" s w
  | min s w => signedName "Min" s w
  | mul32 => "Mul32x4"
  | mulEven s w => signedName "MullEven" s w.width
  | cmpEQ w => s!"CmpEQ{w.shape}"
  | cmpGT s w => signedName "CmpGT" s w
  | shl w => s!"Shl{w.shape}"
  | shr w => s!"Shr{w.shape}"
  | sar w => s!"Sar{w.shape}"
  | rol w => s!"Rol{w.shape}"
  | permute => "Perm8x16"
  | interleaveHigh w => s!"InterleaveHI{w.shape}"
  | interleaveLow w => s!"InterleaveLO{w.shape}"
  | interleaveEven => "InterleaveEvenLanes32x4"
  | interleaveOdd => "InterleaveOddLanes32x4"
  | dup w => s!"Dup{w.width.shape}"
  | narrow w => s!"NarrowBin{w.double.bits}to{w.width.shape}"
  | satNarrow s w =>
      s!"QNarrowBin{w.double.bits}{s.letters.1}to{w.bits}{s.letters.2}x{w.lanes}"
  | clz w => s!"Clz{w.shape}"
  | popCount w => s!"PopCount{w.shape}"

def signature : VectorOp → Signature
  | not | clz _ | popCount _ => .unary .v128 .v128
  | shlAll | shrAll => .binary .v128 .v128 .i8
  | dup w => .unary .v128 w.width.ty
  | _ => .same .v128

end VectorOp

/-- The two shapes of float lanes. -/
inductive FloatLane where
  | single | double
  deriving DecidableEq, Repr, Inhabited

namespace FloatLane

def all : List FloatLane := [single, double]

def shape : FloatLane → String
  | single => "32Fx4"
  | double => "64Fx2"

end FloatLane

/-- An operator on vectors of floats. -/
inductive VectorFloatOp where
  | add (l : FloatLane) | sub (l : FloatLane) | mul (l : FloatLane) | div (l : FloatLane)
  | sqrt (l : FloatLane)
  | max (l : FloatLane) | min (l : FloatLane)
  | neg (l : FloatLane) | abs (l : FloatLane)
  | cmpEQ (l : FloatLane)
  | cmpGT32 | cmpGE32 | cmpLT64 | cmpLE64
  | recipEst | rsqrtEst | log2 | exp2
  | roundDown | roundUp | roundNearest | roundZero
  | toI32U | toI32S | ofI32U | ofI32S
  deriving DecidableEq, Repr, Inhabited

namespace VectorFloatOp

def all : List VectorFloatOp :=
  FloatLane.all.flatMap (fun l =>
    [add l, sub l, mul l, div l, sqrt l, max l, min l, neg l, abs l, cmpEQ l]) ++
  [cmpGT32, cmpGE32, cmpLT64, cmpLE64, recipEst, rsqrtEst, log2, exp2, roundDown, roundUp,
   roundNearest, roundZero, toI32U, toI32S, ofI32U, ofI32S]

def name : VectorFloatOp → String
  | add l => s!"Add{l.shape}"
  | sub l => s!"Sub{l.shape}"
  | mul l => s!"Mul{l.shape}"
  | div l => s!"Div{l.shape}"
  | sqrt l => s!"Sqrt{l.shape}"
  | max l => s!"Max{l.shape}"
  | min l => s!"Min{l.shape}"
  | neg l => s!"Neg{l.shape}"
  | abs l => s!"Abs{l.shape}"
  | cmpEQ l => s!"CmpEQ{l.shape}"
  | cmpGT32 => "CmpGT32Fx4"
  | cmpGE32 => "CmpGE32Fx4"
  | cmpLT64 => "CmpLT64Fx2"
  | cmpLE64 => "CmpLE64Fx2"
  | recipEst => "RecipEst32Fx4"
  | rsqrtEst => "RSqrtEst32Fx4"
  | log2 => "Log2_32Fx4"
  | exp2 => "Exp2_32Fx4"
  | roundDown => "RoundF32x4RM"
  | roundUp => "RoundF32x4RP"
  | roundNearest => "RoundF32x4RN"
  | roundZero => "RoundF32x4RZ"
  | toI32U => "F32toI32Ux4RZ"
  | toI32S => "F32toI32Sx4RZ"
  | ofI32U => "I32UtoF32x4"
  | ofI32S => "I32StoF32x4"

def signature : VectorFloatOp → Signature
  | add _ | sub _ | mul _ | div _ => ⟨.v128, [.i32, .v128, .v128]⟩
  | sqrt _ => .binary .v128 .i32 .v128
  | max _ | min _ | cmpEQ _ | cmpGT32 | cmpGE32 | cmpLT64 | cmpLE64 => .same .v128
  | neg _ | abs _ | recipEst | rsqrtEst | log2 | exp2 | roundDown | roundUp | roundNearest
  | roundZero | toI32U | toI32S | ofI32U | ofI32S => .unary .v128 .v128

end VectorFloatOp

/-- Cipher rounds, digests, carry-less products and packed decimal arithmetic. -/
inductive CryptoOp where
  | cipher | cipherLast | inverseCipher | inverseCipherLast | subBytes
  /-- The small operand packs which sigma function each lane takes. -/
  | sha256 | sha512
  /-- Carry-less products of neighbouring lanes, added without carry. -/
  | polynomialMulAdd (w : Width)
  /-- The small operand is the preferred sign. -/
  | bcdAdd | bcdSub
  deriving DecidableEq, Repr, Inhabited

namespace CryptoOp

def all : List CryptoOp :=
  [cipher, cipherLast, inverseCipher, inverseCipherLast, subBytes, sha256, sha512, bcdAdd, bcdSub]
    ++ Width.all.map polynomialMulAdd

def name : CryptoOp → String
  | cipher => "CipherV128"
  | cipherLast => "CipherLV128"
  | inverseCipher => "NCipherV128"
  | inverseCipherLast => "NCipherLV128"
  | subBytes => "CipherSV128"
  | sha256 => "SHA256"
  | sha512 => "SHA512"
  | polynomialMulAdd w => s!"PolynomialMulAdd{w.shape}"
  | bcdAdd => "BCDAdd"
  | bcdSub => "BCDSub"

def signature : CryptoOp → Signature
  | cipher | cipherLast | inverseCipher | inverseCipherLast | polynomialMulAdd _ => .same .v128
  | subBytes => .unary .v128 .v128
  | sha256 | sha512 => .binary .v128 .v128 .i8
  | bcdAdd | bcdSub => ⟨.v128, [.v128, .v128, .i8]⟩

end CryptoOp

end PowerLift
