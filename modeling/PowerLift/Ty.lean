import PowerLift.Text.Hex

/-!
# Types, constants and tags of the intermediate representation

Values of the intermediate representation have one of eleven types. Constants carry floating
point values as bit patterns, and a vector constant as a mask of byte lanes.
-/

namespace PowerLift

/-- The type of an intermediate value. -/
inductive Ty where
  | i1 | i8 | i16 | i32 | i64 | i128 | f32 | f64 | d64 | d128 | v128
  deriving DecidableEq, Repr, Inhabited

namespace Ty

/-- All types, narrow integers first. -/
def all : List Ty := [i1, i8, i16, i32, i64, i128, f32, f64, d64, d128, v128]

/-- The number of bits of a value. -/
def bits : Ty → Nat
  | i1 => 1
  | i8 => 8
  | i16 => 16
  | i32 | f32 => 32
  | i64 | f64 | d64 => 64
  | i128 | d128 | v128 => 128

/-- The number of bytes a value takes in memory. A truth value has no storage. -/
def bytes : Ty → Nat
  | i1 => 0
  | ty => ty.bits / 8

/-- The integer types, truth values included. -/
def isInt : Ty → Bool
  | i1 | i8 | i16 | i32 | i64 | i128 => true
  | f32 | f64 | d64 | d128 | v128 => false

/-- The written name of a type. -/
def name : Ty → String
  | i1 => "I1"
  | i8 => "I8"
  | i16 => "I16"
  | i32 => "I32"
  | i64 => "I64"
  | i128 => "I128"
  | f32 => "F32"
  | f64 => "F64"
  | d64 => "D64"
  | d128 => "D128"
  | v128 => "V128"

/-- The type that a name denotes. -/
def ofName? (s : String) : Option Ty :=
  all.find? (·.name == s)

instance : ToString Ty := ⟨name⟩

end Ty

/-- A literal value. -/
inductive Const where
  | u1 (b : Bool)
  | u8 (v : BitVec 8)
  | u16 (v : BitVec 16)
  | u32 (v : BitVec 32)
  | u64 (v : BitVec 64)
  /-- A single-precision number by its bits. -/
  | f32 (v : BitVec 32)
  /-- A double-precision number by its bits. -/
  | f64 (v : BitVec 64)
  /-- A vector whose byte lane `i` is all ones where bit `i` of the mask is set. -/
  | v128 (mask : BitVec 16)
  deriving DecidableEq, Repr, Inhabited

namespace Const

/-- The type of a literal. -/
def ty : Const → Ty
  | u1 _ => .i1
  | u8 _ => .i8
  | u16 _ => .i16
  | u32 _ => .i32
  | u64 _ => .i64
  | f32 _ => .f32
  | f64 _ => .f64
  | v128 _ => .v128

/-- The value of an integer literal; float and vector literals have none. -/
def toNat? : Const → Option Nat
  | u1 b => some b.toNat
  | u8 v => some v.toNat
  | u16 v => some v.toNat
  | u32 v => some v.toNat
  | u64 v => some v.toNat
  | f32 _ | f64 _ | v128 _ => none

/-- Whether a literal has the width of a guest address. -/
def isAddress : Const → Bool
  | u32 _ | u64 _ => true
  | _ => false

/-- The written form used in messages: the kind and the decimal payload. -/
def describe : Const → String
  | u1 b => s!"U1({b})"
  | u8 v => s!"U8({v.toNat})"
  | u16 v => s!"U16({v.toNat})"
  | u32 v => s!"U32({v.toNat})"
  | u64 v => s!"U64({v.toNat})"
  | f32 v => s!"F32i({v.toNat})"
  | f64 v => s!"F64i({v.toNat})"
  | v128 v => s!"V128({v.toNat})"

end Const

/-- The order of the bytes of a value in memory. -/
inductive ByteOrder where
  | big | little
  deriving DecidableEq, Repr, Inhabited

namespace ByteOrder

/-- The written name of a byte order. -/
def name : ByteOrder → String
  | big => "big"
  | little => "little"

/-- The byte order that a name denotes. -/
def ofName? : String → Option ByteOrder
  | "big" => some big
  | "little" => some little
  | _ => none

/-- The suffix of memory accesses in block listings. -/
def tag : ByteOrder → String
  | big => "be"
  | little => "le"

end ByteOrder

/-- The kind of a control transfer. -/
inductive JumpKind where
  /-- An ordinary jump. -/
  | boring
  /-- A call that set the link register. -/
  | call
  /-- A return. -/
  | ret
  /-- A request to the tool that runs the guest. -/
  | clientReq
  /-- A hint that the thread spins. -/
  | yield
  /-- A warning was recorded in the guest state. -/
  | emWarn
  /-- A failure was recorded in the guest state. -/
  | emFail
  /-- The instruction could not be decoded. -/
  | noDecode
  /-- The address cannot be mapped. -/
  | mapFail
  /-- Cached code over the recorded range is stale. -/
  | invalICache
  /-- The data cache is flushed over the recorded range. -/
  | flushDCache
  /-- A jump that no redirection applies to. -/
  | noRedir
  | sigIll | sigTrap | sigSegv | sigBus | sigFpe
  /-- Entry into the system. -/
  | sysSyscall
  deriving DecidableEq, Repr, Inhabited

namespace JumpKind

/-- All jump kinds. -/
def all : List JumpKind :=
  [boring, call, ret, clientReq, yield, emWarn, emFail, noDecode, mapFail, invalICache,
   flushDCache, noRedir, sigIll, sigTrap, sigSegv, sigBus, sigFpe, sysSyscall]

/-- The written name of a jump kind. -/
def name : JumpKind → String
  | boring => "Boring"
  | call => "Call"
  | ret => "Ret"
  | clientReq => "ClientReq"
  | yield => "Yield"
  | emWarn => "EmWarn"
  | emFail => "EmFail"
  | noDecode => "NoDecode"
  | mapFail => "MapFail"
  | invalICache => "InvalICache"
  | flushDCache => "FlushDCache"
  | noRedir => "NoRedir"
  | sigIll => "SigIll"
  | sigTrap => "SigTrap"
  | sigSegv => "SigSegv"
  | sigBus => "SigBus"
  | sigFpe => "SigFpe"
  | sysSyscall => "SysSyscall"

/-- The jump kind that a name denotes. -/
def ofName? (s : String) : Option JumpKind :=
  all.find? (·.name == s)

end JumpKind

/-- Rounding modes as the rounding operand of floating-point operators encodes them. -/
inductive Rounding where
  | nearestEven | negInf | posInf | zero
  /-- The last four exist for decimal operators only. -/
  | nearestTieAway | prepareShorter | awayFromZero | nearestTieToward
  deriving DecidableEq, Repr, Inhabited

namespace Rounding

/-- The encoding of a rounding mode. -/
def code : Rounding → BitVec 32
  | nearestEven => 0
  | negInf => 1
  | posInf => 2
  | zero => 3
  | nearestTieAway => 4
  | prepareShorter => 5
  | awayFromZero => 6
  | nearestTieToward => 7

end Rounding

/-- Outcomes of a floating-point comparison. -/
inductive FloatOrder where
  | unordered | less | greater | equal
  deriving DecidableEq, Repr, Inhabited

namespace FloatOrder

/-- The encoding of an outcome in the result of a comparison operator. -/
def code : FloatOrder → BitVec 32
  | unordered => 0x45
  | less => 0x01
  | greater => 0x00
  | equal => 0x40

end FloatOrder

end PowerLift
