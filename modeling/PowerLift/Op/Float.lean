import PowerLift.Op.Width

/-!
# Binary floating-point operators

Operators that round take the rounding mode as a leading 32-bit operand.
-/

namespace PowerLift

/-- An operator on binary floating-point scalars. -/
inductive FloatOp where
  | add | sub | mul | div
  /-- The next four round the result to single precision. -/
  | addSingle | subSingle | mulSingle | divSingle
  | sqrt
  | mulAdd | mulSub | mulAddSingle | mulSubSingle
  | neg | abs | recipEst | rsqrtEst
  /-- The result is a `FloatOrder` code. -/
  | cmp
  | toI32S | toI32U | toI64S | toI64U
  | ofI64S | ofI64U | singleOfI64S | singleOfI64U | ofI32S | ofI32U
  | ofSingle | toSingle
  | roundToSingle | roundToInt
  | bits64 | ofBits64 | bits32 | ofBits32
  deriving DecidableEq, Repr, Inhabited

namespace FloatOp

def all : List FloatOp :=
  [add, sub, mul, div, addSingle, subSingle, mulSingle, divSingle, sqrt, mulAdd, mulSub,
   mulAddSingle, mulSubSingle, neg, abs, recipEst, rsqrtEst, cmp, toI32S, toI32U, toI64S, toI64U,
   ofI64S, ofI64U, singleOfI64S, singleOfI64U, ofI32S, ofI32U, ofSingle, toSingle, roundToSingle,
   roundToInt, bits64, ofBits64, bits32, ofBits32]

def name : FloatOp → String
  | add => "AddF64"
  | sub => "SubF64"
  | mul => "MulF64"
  | div => "DivF64"
  | addSingle => "AddF64r32"
  | subSingle => "SubF64r32"
  | mulSingle => "MulF64r32"
  | divSingle => "DivF64r32"
  | sqrt => "SqrtF64"
  | mulAdd => "MAddF64"
  | mulSub => "MSubF64"
  | mulAddSingle => "MAddF64r32"
  | mulSubSingle => "MSubF64r32"
  | neg => "NegF64"
  | abs => "AbsF64"
  | recipEst => "RecipEstF64"
  | rsqrtEst => "RSqrtEstF64"
  | cmp => "CmpF64"
  | toI32S => "F64toI32S"
  | toI32U => "F64toI32U"
  | toI64S => "F64toI64S"
  | toI64U => "F64toI64U"
  | ofI64S => "I64StoF64"
  | ofI64U => "I64UtoF64"
  | singleOfI64S => "I64StoF32"
  | singleOfI64U => "I64UtoF32"
  | ofI32S => "I32StoF64"
  | ofI32U => "I32UtoF64"
  | ofSingle => "F32toF64"
  | toSingle => "F64toF32"
  | roundToSingle => "RoundF64toF32"
  | roundToInt => "RoundF64toInt"
  | bits64 => "ReinterpF64asI64"
  | ofBits64 => "ReinterpI64asF64"
  | bits32 => "ReinterpF32asI32"
  | ofBits32 => "ReinterpI32asF32"

def signature : FloatOp → Signature
  | add | sub | mul | div | addSingle | subSingle | mulSingle | divSingle =>
      ⟨.f64, [.i32, .f64, .f64]⟩
  | sqrt | roundToSingle | roundToInt => .binary .f64 .i32 .f64
  | mulAdd | mulSub | mulAddSingle | mulSubSingle => ⟨.f64, [.i32, .f64, .f64, .f64]⟩
  | neg | abs | recipEst | rsqrtEst => .unary .f64 .f64
  | cmp => .binary .i32 .f64 .f64
  | toI32S | toI32U => .binary .i32 .i32 .f64
  | toI64S | toI64U => .binary .i64 .i32 .f64
  | ofI64S | ofI64U => .binary .f64 .i32 .i64
  | singleOfI64S | singleOfI64U => .binary .f32 .i32 .i64
  | ofI32S | ofI32U => .unary .f64 .i32
  | ofSingle => .unary .f64 .f32
  | toSingle => .binary .f32 .i32 .f64
  | bits64 => .unary .i64 .f64
  | ofBits64 => .unary .f64 .i64
  | bits32 => .unary .i32 .f32
  | ofBits32 => .unary .f32 .i32

end FloatOp

end PowerLift
