import PowerLift.Op.Width

/-!
# Width conversions

Widening casts extend with zeros (`zext`) or with the sign (`sext`); narrowing casts keep the low
part, or the high part where the name says so. Concatenations put the high half first.
-/

namespace PowerLift

/-- A conversion between widths. -/
inductive Cast where
  | zext1to8 | zext1to32 | zext1to64 | sext1to32 | sext1to64
  | zext8to16 | zext8to32 | zext8to64 | sext8to32 | sext8to64
  | zext16to32 | zext16to64 | sext16to32 | sext16to64
  | zext32to64 | sext32to64
  | low64to1 | low32to1 | low16to8 | low32to8 | low32to16
  | low64to8 | low64to16 | low64to32 | high64to32
  | low128to64 | high128to64
  | lowVto64 | highVto64 | lowVto32
  | zext32toV | zext64toV
  | cat8to16 | cat16to32 | cat32to64 | cat64to128 | cat64toV
  deriving DecidableEq, Repr, Inhabited

namespace Cast

def all : List Cast :=
  [zext1to8, zext1to32, zext1to64, sext1to32, sext1to64, zext8to16, zext8to32, zext8to64,
   sext8to32, sext8to64, zext16to32, zext16to64, sext16to32, sext16to64, zext32to64, sext32to64,
   low64to1, low32to1, low16to8, low32to8, low32to16, low64to8, low64to16, low64to32, high64to32,
   low128to64, high128to64, lowVto64, highVto64, lowVto32, zext32toV, zext64toV, cat8to16,
   cat16to32, cat32to64, cat64to128, cat64toV]

def name : Cast → String
  | zext1to8 => "Cast1Uto8"
  | zext1to32 => "Cast1Uto32"
  | zext1to64 => "Cast1Uto64"
  | sext1to32 => "Cast1Sto32"
  | sext1to64 => "Cast1Sto64"
  | zext8to16 => "Cast8Uto16"
  | zext8to32 => "Cast8Uto32"
  | zext8to64 => "Cast8Uto64"
  | sext8to32 => "Cast8Sto32"
  | sext8to64 => "Cast8Sto64"
  | zext16to32 => "Cast16Uto32"
  | zext16to64 => "Cast16Uto64"
  | sext16to32 => "Cast16Sto32"
  | sext16to64 => "Cast16Sto64"
  | zext32to64 => "Cast32Uto64"
  | sext32to64 => "Cast32Sto64"
  | low64to1 => "Cast64to1"
  | low32to1 => "Cast32to1"
  | low16to8 => "Cast16to8"
  | low32to8 => "Cast32to8"
  | low32to16 => "Cast32to16"
  | low64to8 => "Cast64to8"
  | low64to16 => "Cast64to16"
  | low64to32 => "Cast64to32"
  | high64to32 => "Cast64HIto32"
  | low128to64 => "Cast128to64"
  | high128to64 => "Cast128HIto64"
  | lowVto64 => "CastV128to64"
  | highVto64 => "CastV128HIto64"
  | lowVto32 => "CastV128to32"
  | zext32toV => "Cast32UtoV128"
  | zext64toV => "Cast64UtoV128"
  | cat8to16 => "Cat8HLto16"
  | cat16to32 => "Cat16HLto32"
  | cat32to64 => "Cat32HLto64"
  | cat64to128 => "Cat64HLto128"
  | cat64toV => "Cat64HLtoV128"

def signature : Cast → Signature
  | zext1to8 => .unary .i8 .i1
  | zext1to32 | sext1to32 => .unary .i32 .i1
  | zext1to64 | sext1to64 => .unary .i64 .i1
  | zext8to16 => .unary .i16 .i8
  | zext8to32 | sext8to32 => .unary .i32 .i8
  | zext8to64 | sext8to64 => .unary .i64 .i8
  | zext16to32 | sext16to32 => .unary .i32 .i16
  | zext16to64 | sext16to64 => .unary .i64 .i16
  | zext32to64 | sext32to64 => .unary .i64 .i32
  | low64to1 => .unary .i1 .i64
  | low32to1 => .unary .i1 .i32
  | low16to8 => .unary .i8 .i16
  | low32to8 => .unary .i8 .i32
  | low32to16 => .unary .i16 .i32
  | low64to8 => .unary .i8 .i64
  | low64to16 => .unary .i16 .i64
  | low64to32 | high64to32 => .unary .i32 .i64
  | low128to64 | high128to64 => .unary .i64 .i128
  | lowVto64 | highVto64 => .unary .i64 .v128
  | lowVto32 => .unary .i32 .v128
  | zext32toV => .unary .v128 .i32
  | zext64toV => .unary .v128 .i64
  | cat8to16 => .binary .i16 .i8 .i8
  | cat16to32 => .binary .i32 .i16 .i16
  | cat32to64 => .binary .i64 .i32 .i32
  | cat64to128 => .binary .i128 .i64 .i64
  | cat64toV => .binary .v128 .i64 .i64

end Cast

end PowerLift
