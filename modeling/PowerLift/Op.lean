import PowerLift.Op.Cast
import PowerLift.Op.Decimal
import PowerLift.Op.Float
import PowerLift.Op.Vector

/-!
# Operators

Every operator has one signature. Integer operators are indexed by their width; the other groups
are types of their own.
-/

namespace PowerLift

/-- An operator of the intermediate representation. -/
inductive Op where
  | add (w : Width) | sub (w : Width) | mul (w : Width)
  | or (w : Width) | and (w : Width) | xor (w : Width)
  | shl (w : Width) | shr (w : Width) | sar (w : Width)
  | cmpEQ (w : Width) | cmpNE (w : Width) | not (w : Width)
  | or1 | and1 | not1
  | cmpLT (w : Word) (s : Sign) | cmpLE (w : Word) (s : Sign)
  /-- The result is 8 for less, 4 for greater and 2 for equal. -/
  | cmpORD (w : Word) (s : Sign)
  /-- The full product, twice as wide as the operands. -/
  | mull (s : Sign) (w : Word)
  | div (s : Sign) (w : Word)
  /-- Division of the first operand shifted left by its width. -/
  | divExt (s : Sign) (w : Word)
  | clz (w : Word) | ctz (w : Word) | popCount (w : Word)
  | reverse16 | reverse (w : Word)
  | cast (c : Cast)
  | float (f : FloatOp)
  | decimal (d : DecimalOp)
  | vector (v : VectorOp)
  | vectorFloat (v : VectorFloatOp)
  | crypto (c : CryptoOp)
  deriving DecidableEq, Repr, Inhabited

instance : Coe Cast Op := ⟨.cast⟩
instance : Coe FloatOp Op := ⟨.float⟩
instance : Coe DecimalOp Op := ⟨.decimal⟩
instance : Coe VectorOp Op := ⟨.vector⟩
instance : Coe VectorFloatOp Op := ⟨.vectorFloat⟩
instance : Coe CryptoOp Op := ⟨.crypto⟩

namespace Op

/-- All operators. -/
def all : List Op :=
  [or1, and1, not1, reverse16] ++
  Width.all.flatMap (fun w =>
    [add w, sub w, mul w, or w, and w, xor w, shl w, shr w, sar w, cmpEQ w, cmpNE w, not w]) ++
  Word.all.flatMap (fun w =>
    [clz w, ctz w, popCount w, reverse w] ++
    Sign.all.flatMap (fun s => [cmpLT w s, cmpLE w s, cmpORD w s, mull s w, div s w, divExt s w]))
  ++ Cast.all.map cast ++ FloatOp.all.map float ++ DecimalOp.all.map decimal ++
  VectorOp.all.map vector ++ VectorFloatOp.all.map vectorFloat ++ CryptoOp.all.map crypto

/-- The written name of an operator. -/
def name : Op → String
  | add w => s!"Add{w.bits}"
  | sub w => s!"Sub{w.bits}"
  | mul w => s!"Mul{w.bits}"
  | or w => s!"Or{w.bits}"
  | and w => s!"And{w.bits}"
  | xor w => s!"Xor{w.bits}"
  | shl w => s!"Shl{w.bits}"
  | shr w => s!"Shr{w.bits}"
  | sar w => s!"Sar{w.bits}"
  | cmpEQ w => s!"CmpEQ{w.bits}"
  | cmpNE w => s!"CmpNE{w.bits}"
  | not w => s!"Not{w.bits}"
  | or1 => "Or1"
  | and1 => "And1"
  | not1 => "Not1"
  | cmpLT w s => s!"CmpLT{w.bits}{s.letter}"
  | cmpLE w s => s!"CmpLE{w.bits}{s.letter}"
  | cmpORD w s => s!"CmpORD{w.bits}{s.letter}"
  | mull s w => s!"Mull{s.letter}{w.bits}"
  | div s w => s!"Div{s.letter}{w.bits}"
  | divExt s w => s!"Div{s.letter}{w.bits}E"
  | clz w => s!"Clz{w.bits}"
  | ctz w => s!"Ctz{w.bits}"
  | popCount w => s!"PopCount{w.bits}"
  | reverse16 => "Reverse8sIn16"
  | reverse w => s!"Reverse8sIn{w.bits}"
  | cast c => c.name
  | float f => f.name
  | decimal d => d.name
  | vector v => v.name
  | vectorFloat v => v.name
  | crypto c => c.name

/-- The operand and result types of an operator. -/
def signature : Op → Signature
  | add w | sub w | mul w | or w | and w | xor w => .same w.ty
  | shl w | shr w | sar w => .binary w.ty w.ty .i8
  | cmpEQ w | cmpNE w => .binary .i1 w.ty w.ty
  | not w => .unary w.ty w.ty
  | or1 | and1 => .same .i1
  | not1 => .unary .i1 .i1
  | cmpLT w _ | cmpLE w _ => .binary .i1 w.ty w.ty
  | cmpORD w _ | div _ w | divExt _ w => .same w.ty
  | mull _ .w32 => .binary .i64 .i32 .i32
  | mull _ .w64 => .binary .i128 .i64 .i64
  | clz w | ctz w | popCount w | reverse w => .unary w.ty w.ty
  | reverse16 => .unary .i16 .i16
  | cast c => c.signature
  | float f => f.signature
  | decimal d => d.signature
  | vector v => v.signature
  | vectorFloat v => v.signature
  | crypto c => c.signature

/-- The operator that a name denotes. -/
def ofName? (s : String) : Option Op :=
  all.find? (·.name == s)

/-! Short names for the operators that instruction families use most. -/

abbrev add64 : Op := .add .w64
abbrev sub32 : Op := .sub .w32
abbrev sub64 : Op := .sub .w64
abbrev and8 : Op := .and .w8
abbrev and32 : Op := .and .w32
abbrev and64 : Op := .and .w64
abbrev or8 : Op := .or .w8
abbrev or32 : Op := .or .w32
abbrev or64 : Op := .or .w64
abbrev xor32 : Op := .xor .w32
abbrev shl32 : Op := .shl .w32
abbrev shl64 : Op := .shl .w64
abbrev shr32 : Op := .shr .w32
abbrev shr64 : Op := .shr .w64
abbrev sar32 : Op := .sar .w32
abbrev sar64 : Op := .sar .w64
abbrev cmpEQ32 : Op := .cmpEQ .w32
abbrev cmpEQ64 : Op := .cmpEQ .w64
abbrev cmpNE32 : Op := .cmpNE .w32
abbrev cmpNE64 : Op := .cmpNE .w64

end Op

/-- The operator families that exist at every scalar width. -/
inductive SizedOp where
  | add | sub | mul | or | and | xor | shl | shr | sar | cmpEQ | cmpNE | not
  deriving DecidableEq, Repr, Inhabited

namespace SizedOp

def all : List SizedOp := [add, sub, mul, or, and, xor, shl, shr, sar, cmpEQ, cmpNE, not]

def name : SizedOp → String
  | add => "Add"
  | sub => "Sub"
  | mul => "Mul"
  | or => "Or"
  | and => "And"
  | xor => "Xor"
  | shl => "Shl"
  | shr => "Shr"
  | sar => "Sar"
  | cmpEQ => "CmpEQ"
  | cmpNE => "CmpNE"
  | not => "Not"

def ofName? (s : String) : Option SizedOp :=
  all.find? (·.name == s)

/-- The member of a family at a width. -/
def atWidth : SizedOp → Width → Op
  | add => .add
  | sub => .sub
  | mul => .mul
  | or => .or
  | and => .and
  | xor => .xor
  | shl => .shl
  | shr => .shr
  | sar => .sar
  | cmpEQ => .cmpEQ
  | cmpNE => .cmpNE
  | not => .not

end SizedOp

end PowerLift
