import PowerLift.Family.Basic

/-!
# Vector integers, permutes, loads and stores

Elements count from the most significant lane. Saturating sums and differences set the saturation
bit where a lane differs from the modular result; saturating packs, where a source lane lies outside
the range of the result.
-/

namespace PowerLift.VectorInteger

open Lift
open PowerLift.Expr (un bin)

/-! ## Shared pieces -/

/-- The pattern of 64 bits that repeats the low `width` bits of `v`. -/
def repeated (width : Nat) (v : BitVec 64) : BitVec 64 :=
  (List.range (64 / width)).foldl
    (fun acc i => acc ||| ((v.setWidth width).setWidth 64 <<< (width * i))) 0

/-- A vector with the same value in every lane. -/
def splat (w : Width) (v : BitVec 64) : Expr :=
  Expr.v128 (repeated w.bits v) (repeated w.bits v)

/-- Element `i` of a vector, in the low bits of a word. -/
def element (w : Width) (v : Expr) (i : Nat) : Expr :=
  let shift := w.bits * (w.lanes - 1 - i)
  un (.cast .lowVto32) (if shift = 0 then v else bin (.vector .shrAll) v (.u8 (.ofNat 8 shift)))

/-- The bytes of `src` that the low four bits of each control byte name, counted from the most
significant byte. -/
def permuteBytes (src control : Expr) : Expr :=
  bin (.vector .permute) src (bin (.vector .xor) control (splat .w8 0x0F))

/-- Sets the saturation bit where `flag` holds. -/
def saturateIf (flag : Expr) : Lift Unit := do
  let old ← getSlot SpecialSlot.vscr
  let bit := bin .and32 (un (.cast .zext1to32) flag) (.u32 1)
  putSlot SpecialSlot.vscr (bin .or32 old bit)

/-- Whether a vector has a bit set. -/
def anySet (v : Expr) : Lift Expr := do
  let (hi, lo) ← splitHalves v
  return bin .cmpNE64 (bin .or64 hi lo) (.u64 0)

/-! ## Loads and stores -/

/-- The address rounded down to a multiple of `align`. -/
def alignedAddress (ea : Expr) (align : BitVec 64) : Lift Expr := do
  return bin (← wordOp .and) ea (← imm (~~~(align - 1)))

/-- The permute control that shifts by the offset of an address. -/
def shiftControl (w : Insn) (ea : Expr) (left : Bool) : Lift Unit := do
  let letter := if left then "l" else "r"
  listed s!"lvs{letter} v{w.rd},r{w.ra},r{w.rb}"
  let offset ← narrow (bin (← wordOp .and) ea (← imm 15)) .i8
  let offset := un (.vector (.dup .w8)) offset
  putVr w.rd (if left then
      bin (.vector (.add .w8)) (.v128 0x0001020304050607 0x08090A0B0C0D0E0F) offset
    else bin (.vector (.sub .w8)) (.v128 0x1011121314151617 0x18191A1B1C1D1E1F) offset)

/-- Loads the aligned quadword. A load of an element may leave the others undefined, so it does the
same. -/
def load (w : Insn) (name : String) (ea : Expr) : Lift Unit := do
  listed s!"{name} v{w.rd},r{w.ra},r{w.rb}"
  putVr w.rd (← Lift.load .v128 (← alignedAddress ea 16))

def store (w : Insn) (name : String) (ea : Expr) : Lift Unit := do
  listed s!"{name} v{w.rd},r{w.ra},r{w.rb}"
  Lift.store (← alignedAddress ea 16) (← getVr w.rd)

/-- Stores the element whose place in the quadword the address names. -/
def storeElement (w : Insn) (name : String) (width : Narrow) (ea : Expr) : Lift Unit := do
  listed s!"{name} v{w.rd},r{w.ra},r{w.rb}"
  let bytes := width.bits / 8
  let offset ← narrow (bin (← wordOp .and) ea (← imm (.ofNat 64 (16 - bytes)))) .i8
  let shift := bin (.shl .w8) (bin (.sub .w8) (.u8 (.ofNat 8 (16 - bytes))) offset) (.u8 3)
  let lane := un (.cast .lowVto32) (bin (.vector .shrAll) (← getVr w.rd) shift)
  let value := match width with
    | .w8 => un (.cast .low32to8) lane
    | .w16 => un (.cast .low32to16) lane
    | .w32 => lane
  Lift.store (← alignedAddress ea (.ofNat 64 bytes)) value

def memory (w : Insn) : Lift Unit := do
  reservedClear w w.record "vector load/store bit 31"
  let ea ← bind (← eaOr0Idx w.ra w.rb)
  match w.xo10 with
  | 6 => shiftControl w ea true
  | 38 => shiftControl w ea false
  | 7 => load w "lvebx" ea
  | 39 => load w "lvehx" ea
  | 71 => load w "lvewx" ea
  | 103 => load w "lvx" ea
  | 359 => load w "lvxl" ea
  | 231 => store w "stvx" ea
  | 487 => store w "stvxl" ea
  | 135 => storeElement w "stvebx" .w8 ea
  | 167 => storeElement w "stvehx" .w16 ea
  | 199 => storeElement w "stvewx" .w32 ea
  | _ => unrecognized w "vector load/store"

/-! ## Selection and permutation -/

/-- Select, permute and shift of two registers. -/
def threeOperands (w : Insn) : Lift Unit := do
  let a ← getVr w.ra
  let b ← getVr w.rb
  let operands := s!"v{w.rd},v{w.ra},v{w.rb}"
  let blend (a b mask : Expr) : Expr :=
    bin (.vector .or) (bin (.vector .and) a (un (.vector .not) mask)) (bin (.vector .and) b mask)
  let value ← match w.vaXo with
    | 42 => do
        listed s!"vsel {operands},v{w.rcField}"
        let c ← bind (← getVr w.rcField)
        pure (blend a b c)
    | 43 => do
        listed s!"vperm {operands},v{w.rcField}"
        let c ← bind (← getVr w.rcField)
        let second ← bind (bin (.vector (.sar .w8)) (bin (.vector (.shl .w8)) c (splat .w8 3))
          (splat .w8 7))
        pure (blend (permuteBytes a c) (permuteBytes b c) second)
    | _ => do
        reservedZero w (w.slice 21 1) "vsldoi bit 21"
        let n := w.slice 22 4
        listed s!"vsldoi {operands},{n}"
        if n = 0 then pure a
        else pure (bin (.vector .or) (bin (.vector .shlAll) a (.u8 (.ofNat 8 (8 * n))))
          (bin (.vector .shrAll) b (.u8 (.ofNat 8 (8 * (16 - n))))))
  putVr w.rd value

/-! ## Comparison -/

/-- The mnemonic and the operator of a comparison. -/
def comparison? : Nat → Option (String × VectorOp)
  | 6 => some ("vcmpequb", .cmpEQ .w8)
  | 70 => some ("vcmpequh", .cmpEQ .w16)
  | 134 => some ("vcmpequw", .cmpEQ .w32)
  | 199 => some ("vcmpequd", .cmpEQ .w64)
  | 518 => some ("vcmpgtub", .cmpGT .unsigned .w8)
  | 582 => some ("vcmpgtuh", .cmpGT .unsigned .w16)
  | 646 => some ("vcmpgtuw", .cmpGT .unsigned .w32)
  | 711 => some ("vcmpgtud", .cmpGT .unsigned .w64)
  | 774 => some ("vcmpgtsb", .cmpGT .signed .w8)
  | 838 => some ("vcmpgtsh", .cmpGT .signed .w16)
  | 902 => some ("vcmpgtsw", .cmpGT .signed .w32)
  | 967 => some ("vcmpgtsd", .cmpGT .signed .w64)
  | _ => none

/-- The mark of record forms of comparisons. -/
def compareDot (w : Insn) : String := if w.vcRecord then "." else ""

def compare (w : Insn) (name : String) (op : VectorOp) : Lift Unit := do
  listed s!"{name}{compareDot w} v{w.rd},v{w.ra},v{w.rb}"
  let res ← bind (bin op (← getVr w.ra) (← getVr w.rb))
  putVr w.rd res
  if w.vcRecord then recordLanes res true

/-! ## Lane arithmetic -/

/-- The mnemonic and the operator of a lane operation, and for a saturating one its modular
counterpart. -/
def laneOperation? : Nat → Option (String × VectorOp × Option VectorOp)
  | 0 => some ("vaddubm", .add .w8, none)
  | 64 => some ("vadduhm", .add .w16, none)
  | 128 => some ("vadduwm", .add .w32, none)
  | 192 => some ("vaddudm", .add .w64, none)
  | 256 => some ("vadduqm", .add128, none)
  | 512 => some ("vaddubs", .satAdd .unsigned .w8, some (.add .w8))
  | 576 => some ("vadduhs", .satAdd .unsigned .w16, some (.add .w16))
  | 640 => some ("vadduws", .satAdd .unsigned .w32, some (.add .w32))
  | 768 => some ("vaddsbs", .satAdd .signed .w8, some (.add .w8))
  | 832 => some ("vaddshs", .satAdd .signed .w16, some (.add .w16))
  | 896 => some ("vaddsws", .satAdd .signed .w32, some (.add .w32))
  | 1024 => some ("vsububm", .sub .w8, none)
  | 1088 => some ("vsubuhm", .sub .w16, none)
  | 1152 => some ("vsubuwm", .sub .w32, none)
  | 1216 => some ("vsubudm", .sub .w64, none)
  | 1280 => some ("vsubuqm", .sub128, none)
  | 1536 => some ("vsububs", .satSub .unsigned .w8, some (.sub .w8))
  | 1600 => some ("vsubuhs", .satSub .unsigned .w16, some (.sub .w16))
  | 1664 => some ("vsubuws", .satSub .unsigned .w32, some (.sub .w32))
  | 1792 => some ("vsubsbs", .satSub .signed .w8, some (.sub .w8))
  | 1856 => some ("vsubshs", .satSub .signed .w16, some (.sub .w16))
  | 1920 => some ("vsubsws", .satSub .signed .w32, some (.sub .w32))
  | 1026 => some ("vavgub", .avg .unsigned .w8, none)
  | 1090 => some ("vavguh", .avg .unsigned .w16, none)
  | 1154 => some ("vavguw", .avg .unsigned .w32, none)
  | 1282 => some ("vavgsb", .avg .signed .w8, none)
  | 1346 => some ("vavgsh", .avg .signed .w16, none)
  | 1410 => some ("vavgsw", .avg .signed .w32, none)
  | 2 => some ("vmaxub", .max .unsigned .w8, none)
  | 66 => some ("vmaxuh", .max .unsigned .w16, none)
  | 130 => some ("vmaxuw", .max .unsigned .w32, none)
  | 194 => some ("vmaxud", .max .unsigned .w64, none)
  | 258 => some ("vmaxsb", .max .signed .w8, none)
  | 322 => some ("vmaxsh", .max .signed .w16, none)
  | 386 => some ("vmaxsw", .max .signed .w32, none)
  | 450 => some ("vmaxsd", .max .signed .w64, none)
  | 514 => some ("vminub", .min .unsigned .w8, none)
  | 578 => some ("vminuh", .min .unsigned .w16, none)
  | 642 => some ("vminuw", .min .unsigned .w32, none)
  | 706 => some ("vminud", .min .unsigned .w64, none)
  | 770 => some ("vminsb", .min .signed .w8, none)
  | 834 => some ("vminsh", .min .signed .w16, none)
  | 898 => some ("vminsw", .min .signed .w32, none)
  | 962 => some ("vminsd", .min .signed .w64, none)
  | 137 => some ("vmuluwm", .mul32, none)
  | 4 => some ("vrlb", .rol .w8, none)
  | 68 => some ("vrlh", .rol .w16, none)
  | 132 => some ("vrlw", .rol .w32, none)
  | 196 => some ("vrld", .rol .w64, none)
  | 260 => some ("vslb", .shl .w8, none)
  | 324 => some ("vslh", .shl .w16, none)
  | 388 => some ("vslw", .shl .w32, none)
  | 1476 => some ("vsld", .shl .w64, none)
  | 516 => some ("vsrb", .shr .w8, none)
  | 580 => some ("vsrh", .shr .w16, none)
  | 644 => some ("vsrw", .shr .w32, none)
  | 1732 => some ("vsrd", .shr .w64, none)
  | 772 => some ("vsrab", .sar .w8, none)
  | 836 => some ("vsrah", .sar .w16, none)
  | 900 => some ("vsraw", .sar .w32, none)
  | 964 => some ("vsrad", .sar .w64, none)
  | 12 => some ("vmrghb", .interleaveHigh .w8, none)
  | 76 => some ("vmrghh", .interleaveHigh .w16, none)
  | 140 => some ("vmrghw", .interleaveHigh .w32, none)
  | 268 => some ("vmrglb", .interleaveLow .w8, none)
  | 332 => some ("vmrglh", .interleaveLow .w16, none)
  | 396 => some ("vmrglw", .interleaveLow .w32, none)
  | 1932 => some ("vmrgew", .interleaveEven, none)
  | 1676 => some ("vmrgow", .interleaveOdd, none)
  | 14 => some ("vpkuhum", .narrow .w8, none)
  | 78 => some ("vpkuwum", .narrow .w16, none)
  | 1102 => some ("vpkudum", .narrow .w32, none)
  | _ => none

def laneOperation (w : Insn) (name : String) (op : VectorOp) (modular : Option VectorOp) :
    Lift Unit := do
  listed s!"{name} v{w.rd},v{w.ra},v{w.rb}"
  let a ← bind (← getVr w.ra)
  let b ← bind (← getVr w.rb)
  let res ← bind (bin op a b)
  putVr w.rd res
  if let some modular := modular then
    saturateIf (← anySet (bin (.vector .xor) res (bin modular a b)))

/-- The mnemonic of a saturating pack, how it saturates, and the width of its result. -/
def pack? : Nat → Option (String × Saturation × Narrow)
  | 142 => some ("vpkuhus", .unsigned, .w8)
  | 206 => some ("vpkuwus", .unsigned, .w16)
  | 1230 => some ("vpkudus", .unsigned, .w32)
  | 270 => some ("vpkshus", .signedToUnsigned, .w8)
  | 334 => some ("vpkswus", .signedToUnsigned, .w16)
  | 1358 => some ("vpksdus", .signedToUnsigned, .w32)
  | 398 => some ("vpkshss", .signed, .w8)
  | 462 => some ("vpkswss", .signed, .w16)
  | 1486 => some ("vpksdss", .signed, .w32)
  | _ => none

/-- The lanes of `src` that lie outside the range of a pack's result. -/
def outOfRange (s : Saturation) (w : Narrow) (src : Expr) : Expr :=
  let wide := w.double
  let above (sign : Sign) (bound : BitVec 64) : Expr :=
    bin (.vector (.cmpGT sign wide)) src (splat wide bound)
  let below (bound : BitVec 64) : Expr :=
    bin (.vector (.cmpGT .signed wide)) (splat wide bound) src
  let unsignedMax : BitVec 64 := (BitVec.allOnes w.bits).setWidth 64
  let signedMax : BitVec 64 := unsignedMax >>> 1
  match s with
  | .unsigned => above .unsigned unsignedMax
  | .signedToUnsigned => bin (.vector .or) (above .signed unsignedMax) (below 0)
  | .signed => bin (.vector .or) (above .signed signedMax) (below (~~~signedMax))

def pack (w : Insn) (name : String) (s : Saturation) (width : Narrow) : Lift Unit := do
  listed s!"{name} v{w.rd},v{w.ra},v{w.rb}"
  let a ← bind (← getVr w.ra)
  let b ← bind (← getVr w.rb)
  putVr w.rd (bin (.vector (.satNarrow s width)) a b)
  saturateIf (← anySet (bin (.vector .or) (outOfRange s width a) (outOfRange s width b)))

/-- The mnemonic of a widening product, its signedness, lane width, and whether it takes the odd
lanes. -/
def product? : Nat → Option (String × Sign × Narrow × Bool)
  | 520 => some ("vmuleub", .unsigned, .w8, false)
  | 584 => some ("vmuleuh", .unsigned, .w16, false)
  | 648 => some ("vmuleuw", .unsigned, .w32, false)
  | 776 => some ("vmulesb", .signed, .w8, false)
  | 840 => some ("vmulesh", .signed, .w16, false)
  | 904 => some ("vmulesw", .signed, .w32, false)
  | 8 => some ("vmuloub", .unsigned, .w8, true)
  | 72 => some ("vmulouh", .unsigned, .w16, true)
  | 136 => some ("vmulouw", .unsigned, .w32, true)
  | 264 => some ("vmulosb", .signed, .w8, true)
  | 328 => some ("vmulosh", .signed, .w16, true)
  | 392 => some ("vmulosw", .signed, .w32, true)
  | _ => none

def product (w : Insn) (name : String) (sign : Sign) (width : Narrow) (odd : Bool) :
    Lift Unit := do
  listed s!"{name} v{w.rd},v{w.ra},v{w.rb}"
  let moved (e : Expr) : Expr :=
    if odd then bin (.vector .shlAll) e (.u8 (.ofNat 8 width.bits)) else e
  putVr w.rd (bin (.vector (.mulEven sign width)) (moved (← getVr w.ra)) (moved (← getVr w.rb)))

/-! ## Pixels -/

/-- A pixel of one and three times five bits as four bytes; the first repeats the top bit. -/
def expandPixel (h : Expr) : Lift Expr := do
  let h ← bind h
  let a := bin .sar32 (bin .shl32 h (.u8 16)) (.u8 31)
  let a := bin .shl32 (bin .and32 a (.u32 0xFF)) (.u8 24)
  let r := bin .shl32 (bin .and32 (bin .shr32 h (.u8 10)) (.u32 0x1F)) (.u8 16)
  let g := bin .shl32 (bin .and32 (bin .shr32 h (.u8 5)) (.u32 0x1F)) (.u8 8)
  let b := bin .and32 h (.u32 0x1F)
  return bin .or32 (bin .or32 a r) (bin .or32 g b)

/-- The two pixels of a word. -/
def expandPair (word : Expr) : Lift (Expr × Expr) := do
  let first ← expandPixel (bin .shr32 word (.u8 16))
  let second ← expandPixel (bin .and32 word (.u32 0xFFFF))
  return (first, second)

/-- The four pixels of a half of a vector. -/
def unpackPixels (v : Expr) (high : Bool) : Lift Expr := do
  let d ← bind (un (.cast (if high then .highVto64 else .lowVto64)) v)
  let hi ← bind (un (.cast .high64to32) d)
  let lo ← bind (un (.cast .low64to32) d)
  let (a, b) ← expandPair hi
  let (c, d) ← expandPair lo
  return .ofWords a b c d

/-- Four bytes as a pixel of one and three times five bits. -/
def shrinkPixel (x : Expr) : Expr :=
  let ar := bin .and32 (bin .shr32 x (.u8 9)) (.u32 0xFC00)
  let g := bin .and32 (bin .shr32 x (.u8 6)) (.u32 0x03E0)
  let b := bin .and32 (bin .shr32 x (.u8 3)) (.u32 0x001F)
  bin .or32 ar (bin .or32 g b)

/-- Pairs of words as words of two pixels each. -/
def shrinkPairs : List Expr → List Expr
  | a :: b :: rest =>
      bin .or32 (bin .shl32 (shrinkPixel a) (.u8 16)) (shrinkPixel b) :: shrinkPairs rest
  | _ => []

/-- The eight words of two vectors as eight pixels. -/
def packPixels (a b : Expr) : Lift Expr := do
  let wordsA ← splitWords a
  let wordsB ← splitWords b
  match shrinkPairs (wordsA ++ wordsB) with
  | [p, q, r, s] => return .ofWords p q r s
  | _ => return a

/-! ## Forms with an eleven-bit extended opcode -/

/-- The mnemonic and the value of a bitwise operation. -/
def bitwise? (xo : Nat) (a b : Expr) : Option (String × Expr) :=
  match xo with
  | 1028 => some ("vand", bin (.vector .and) a b)
  | 1092 => some ("vandc", bin (.vector .and) a (un (.vector .not) b))
  | 1156 => some ("vor", bin (.vector .or) a b)
  | 1220 => some ("vxor", bin (.vector .xor) a b)
  | 1284 => some ("vnor", un (.vector .not) (bin (.vector .or) a b))
  | 1348 => some ("vorc", bin (.vector .or) a (un (.vector .not) b))
  | 1412 => some ("vnand", un (.vector .not) (bin (.vector .and) a b))
  | 1668 => some ("veqv", un (.vector .not) (bin (.vector .xor) a b))
  | _ => none

/-- Copies an element to every lane. -/
def splatElement (w : Insn) (name : String) (width : Narrow) : Lift Expr := do
  let indexBits := match width with
    | .w8 => 4
    | .w16 => 3
    | .w32 => 2
  reservedZero w (w.slice 11 (5 - indexBits)) "vsplt reserved bits"
  let i := w.slice (16 - indexBits) indexBits
  listed s!"{name} v{w.rd},v{w.rb},{i}"
  let lane := element width.width (← getVr w.rb) i
  return un (.vector (.dup width)) (match width with
    | .w8 => un (.cast .low32to8) lane
    | .w16 => un (.cast .low32to16) lane
    | .w32 => lane)

/-- Copies a signed immediate to every lane. -/
def splatImmediate (w : Insn) (name : String) (width : Narrow) : Lift Expr := do
  reservedZero w w.rb "vspltis rB"
  let v := (BitVec.ofNat 5 w.ra)
  listed s!"{name} v{w.rd},{v.toInt}"
  return un (.vector (.dup width)) (match width with
    | .w8 => .u8 (v.signExtend 8)
    | .w16 => .u16 (v.signExtend 16)
    | .w32 => .u32 (v.signExtend 32))

/-- Widens the lanes of one half with their sign. -/
def unpack (w : Insn) (name : String) (width : Narrow) (high : Bool) : Lift Expr := do
  reservedZero w w.ra "vupk rA"
  listed s!"{name} v{w.rd},v{w.rb}"
  let b ← bind (← getVr w.rb)
  let op : VectorOp := if high then .interleaveHigh width.width else .interleaveLow width.width
  return bin (.vector (.sar width.double)) (bin op b b)
    (splat width.double (.ofNat 64 width.bits))

/-- Shifts of the whole register by bits or by bytes of the last element. -/
def shiftAll (w : Insn) (name : String) (op : VectorOp) (mask : BitVec 32) : Lift Expr := do
  listed s!"{name} v{w.rd},v{w.ra},v{w.rb}"
  let amount := bin .and32 (un (.cast .lowVto32) (← getVr w.rb)) (.u32 mask)
  return bin op (← getVr w.ra) (un (.cast .low32to8) amount)

/-- Counts of leading zeros or of ones in each lane. -/
def countLanes (w : Insn) (name : String) (op : VectorOp) : Lift Expr := do
  reservedZero w w.ra "vclz/vpopcnt rA"
  listed s!"{name} v{w.rd},v{w.rb}"
  return un op (← getVr w.rb)

/-- Pixel forms. -/
def unpackPixelForm (w : Insn) (letter : String) (high : Bool) : Lift Expr := do
  reservedZero w w.ra "vupkpx rA"
  listed s!"vupk{letter}px v{w.rd},v{w.rb}"
  unpackPixels (← getVr w.rb) high

/-- The value of a form that is in no table. -/
def otherForm (w : Insn) : Lift Expr := do
  let xo := w.vxXo
  match xo with
  | 1028 | 1092 | 1156 | 1220 | 1284 | 1348 | 1412 | 1668 =>
      match bitwise? xo (← getVr w.ra) (← getVr w.rb) with
      | some (name, value) =>
          listed s!"{name} v{w.rd},v{w.ra},v{w.rb}"
          return value
      | none => unrecognized w "altivec VX-form"
  | 452 => shiftAll w "vsl" .shlAll 0x7
  | 708 => shiftAll w "vsr" .shrAll 0x7
  | 1036 => shiftAll w "vslo" .shlAll 0x78
  | 1100 => shiftAll w "vsro" .shrAll 0x78
  | 524 => splatElement w "vspltb" .w8
  | 588 => splatElement w "vsplth" .w16
  | 652 => splatElement w "vspltw" .w32
  | 780 => splatImmediate w "vspltisb" .w8
  | 844 => splatImmediate w "vspltish" .w16
  | 908 => splatImmediate w "vspltisw" .w32
  | 526 => unpack w "vupkhsb" .w8 true
  | 654 => unpack w "vupklsb" .w8 false
  | 590 => unpack w "vupkhsh" .w16 true
  | 718 => unpack w "vupklsh" .w16 false
  | 1614 => unpack w "vupkhsw" .w32 true
  | 1742 => unpack w "vupklsw" .w32 false
  | 846 => unpackPixelForm w "h" true
  | 974 => unpackPixelForm w "l" false
  | 782 =>
      listed s!"vpkpx v{w.rd},v{w.ra},v{w.rb}"
      packPixels (← getVr w.ra) (← getVr w.rb)
  | 1794 => countLanes w "vclzb" (.clz .w8)
  | 1858 => countLanes w "vclzh" (.clz .w16)
  | 1922 => countLanes w "vclzw" (.clz .w32)
  | 1986 => countLanes w "vclzd" (.clz .w64)
  | 1795 => countLanes w "vpopcntb" (.popCount .w8)
  | 1859 => countLanes w "vpopcnth" (.popCount .w16)
  | 1923 => countLanes w "vpopcntw" (.popCount .w32)
  | 1987 => countLanes w "vpopcntd" (.popCount .w64)
  | _ => unrecognized w "altivec VX-form"

def twoOperands (w : Insn) : Lift Unit := do
  if let some (name, op, modular) := laneOperation? w.vxXo then
    laneOperation w name op modular
  else if let some (name, s, width) := pack? w.vxXo then pack w name s width
  else if let some (name, sign, width, odd) := product? w.vxXo then product w name sign width odd
  else putVr w.rd (← otherForm w)

/-- Lifts an instruction of the family. -/
def lift (w : Insn) : Lift Unit :=
  match w.opcode with
  | 31 => memory w
  | 4 =>
      if 42 ≤ w.vaXo ∧ w.vaXo ≤ 44 then threeOperands w
      else match comparison? w.vcXo with
        | some (name, op) => compare w name op
        | none => twoOperands w
  | _ => unrecognized w "altivec"

end PowerLift.VectorInteger
