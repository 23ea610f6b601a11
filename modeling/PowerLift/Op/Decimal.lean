import PowerLift.Op.Width

/-!
# Decimal floating-point operators

Decimal values are sixteen digits in 64 bits (`long`) or thirty-four digits in 128 bits (`quad`).
-/

namespace PowerLift

/-- The two decimal formats that are computed in. -/
inductive DecFormat where
  | long | quad
  deriving DecidableEq, Repr, Inhabited

namespace DecFormat

def all : List DecFormat := [long, quad]

def ty : DecFormat → Ty
  | long => .d64
  | quad => .d128

end DecFormat

/-- An operator on decimal floating-point values. -/
inductive DecimalOp where
  | add (f : DecFormat) | sub (f : DecFormat) | mul (f : DecFormat) | div (f : DecFormat)
  | cmp (f : DecFormat) | cmpExp (f : DecFormat)
  | longToQuad | quadToLong
  /-- Rounds to seven digits; the result is the 32-bit encoding. -/
  | longToShort
  /-- Widens a 32-bit encoding. -/
  | shortToLong
  | ofI64 (f : DecFormat) | toI64 (f : DecFormat)
  | extractExp (f : DecFormat) | insertExp (f : DecFormat)
  /-- The number of significant digits. -/
  | extractSig (f : DecFormat)
  | shl (f : DecFormat) | shr (f : DecFormat)
  /-- The last operand rounded to the exponent of the one before it. -/
  | quantize (f : DecFormat)
  | roundToInt (f : DecFormat)
  | bits | ofBits
  | cat | high | low
  deriving DecidableEq, Repr, Inhabited

namespace DecimalOp

def all : List DecimalOp :=
  DecFormat.all.flatMap (fun f =>
    [add f, sub f, mul f, div f, cmp f, cmpExp f, ofI64 f, toI64 f, extractExp f, insertExp f,
     extractSig f, shl f, shr f, quantize f, roundToInt f]) ++
  [longToQuad, quadToLong, longToShort, shortToLong, bits, ofBits, cat, high, low]

def name : DecimalOp → String
  | add f => s!"Add{f.ty.name}"
  | sub f => s!"Sub{f.ty.name}"
  | mul f => s!"Mul{f.ty.name}"
  | div f => s!"Div{f.ty.name}"
  | cmp f => s!"Cmp{f.ty.name}"
  | cmpExp f => s!"CmpExp{f.ty.name}"
  | longToQuad => "D64toD128"
  | quadToLong => "D128toD64"
  | longToShort => "D64toD32"
  | shortToLong => "D32toD64"
  | ofI64 f => s!"I64Sto{f.ty.name}"
  | toI64 f => s!"{f.ty.name}toI64S"
  | extractExp f => s!"ExtractExp{f.ty.name}"
  | insertExp f => s!"InsertExp{f.ty.name}"
  | extractSig f => s!"ExtractSig{f.ty.name}"
  | shl f => s!"Shl{f.ty.name}"
  | shr f => s!"Shr{f.ty.name}"
  | quantize f => s!"Quantize{f.ty.name}"
  | roundToInt f => s!"Round{f.ty.name}toInt"
  | bits => "ReinterpD64asI64"
  | ofBits => "ReinterpI64asD64"
  | cat => "D64HLtoD128"
  | high => "D128HItoD64"
  | low => "D128LOtoD64"

def signature : DecimalOp → Signature
  | add f | sub f | mul f | div f | quantize f => ⟨f.ty, [.i32, f.ty, f.ty]⟩
  | cmp f | cmpExp f => .binary .i32 f.ty f.ty
  | longToQuad => .unary .d128 .d64
  | quadToLong => .binary .d64 .i32 .d128
  | longToShort => .binary .i32 .i32 .d64
  | shortToLong => .unary .d64 .i32
  | ofI64 .long => .binary .d64 .i32 .i64
  | ofI64 .quad => .unary .d128 .i64
  | toI64 f => .binary .i64 .i32 f.ty
  | extractExp f | extractSig f => .unary .i64 f.ty
  | insertExp f => .binary f.ty .i64 f.ty
  | shl f | shr f => .binary f.ty f.ty .i8
  | roundToInt f => .binary f.ty .i32 f.ty
  | bits => .unary .i64 .d64
  | ofBits => .unary .d64 .i64
  | cat => .binary .d128 .d64 .d64
  | high | low => .unary .d64 .d128

end DecimalOp

end PowerLift
