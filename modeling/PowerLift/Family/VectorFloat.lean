import PowerLift.Family.VectorInteger

/-!
# Vectors of single-precision floats

Vector arithmetic rounds to nearest whatever the current mode.
-/

namespace PowerLift.VectorFloat

open Lift
open PowerLift.Expr (un bin tri)
open VectorInteger (splat anySet saturateIf compareDot)

/-- The rounding mode of vector arithmetic. -/
def nearest : Expr := .u32 Rounding.nearestEven.code

/-- A power of two in every lane. -/
def powerOfTwo (e : Int) : Expr := splat .w32 (.ofInt 64 ((127 + e) * 0x800000))

/-- Products added to or subtracted from a third operand. -/
def multiplyAdd (w : Insn) : Lift Unit := do
  let product := tri (.vectorFloat (.mul .single)) nearest (← getVr w.ra) (← getVr w.rcField)
  let operands := s!"v{w.rd},v{w.ra},v{w.rcField},v{w.rb}"
  if w.vaXo = 46 then
    listed s!"vmaddfp {operands}"
    putVr w.rd (tri (.vectorFloat (.add .single)) nearest product (← getVr w.rb))
  else
    listed s!"vnmsubfp {operands}"
    putVr w.rd (tri (.vectorFloat (.sub .single)) nearest (← getVr w.rb) product)

/-- Whether each lane lies above the bound or below its negative; an unordered lane does both. -/
def outOfBounds (a b : Expr) : Expr :=
  let le := bin (.vectorFloat .cmpGE32) b a
  let ge := bin (.vectorFloat .cmpGE32) a (un (.vectorFloat (.neg .single)) b)
  let above := bin (.vector .and) (un (.vector .not) le) (splat .w32 0x80000000)
  let below := bin (.vector .and) (un (.vector .not) ge) (splat .w32 0x40000000)
  bin (.vector .or) above below

def compare (w : Insn) : Lift Unit := do
  let a ← bind (← getVr w.ra)
  let b ← bind (← getVr w.rb)
  let (name, value, testAll) := match w.vcXo with
    | 198 => ("vcmpeqfp", bin (.vectorFloat (.cmpEQ .single)) a b, true)
    | 454 => ("vcmpgefp", bin (.vectorFloat .cmpGE32) a b, true)
    | 710 => ("vcmpgtfp", bin (.vectorFloat .cmpGT32) a b, true)
    | _ => ("vcmpbfp", outOfBounds a b, false)
  listed s!"{name}{compareDot w} v{w.rd},v{w.ra},v{w.rb}"
  let res ← bind value
  putVr w.rd res
  if w.vcRecord then recordLanes res testAll

/-- Forms with one operand. -/
def unary (w : Insn) (name : String) (op : VectorFloatOp) : Lift Unit := do
  reservedZero w w.ra "vector FP unary rA"
  listed s!"{name} v{w.rd},v{w.rb}"
  putVr w.rd (un op (← getVr w.rb))

/-- Integers to floats, divided by a power of two. -/
def ofInteger (w : Insn) (letter : String) (op : VectorFloatOp) : Lift Unit := do
  listed s!"vcf{letter}x v{w.rd},v{w.rb},{w.ra}"
  putVr w.rd (tri (.vectorFloat (.mul .single)) nearest (un op (← getVr w.rb))
    (powerOfTwo (-(w.ra : Int))))

/-- Floats times a power of two to integers; lanes out of range saturate. -/
def toInteger (w : Insn) (signed : Bool) : Lift Unit := do
  let letter := if signed then "s" else "u"
  listed s!"vct{letter}xs v{w.rd},v{w.rb},{w.ra}"
  let scaled ← bind (tri (.vectorFloat (.mul .single)) nearest (← getVr w.rb)
    (powerOfTwo w.ra))
  let (above, below, op) : Expr × Expr × VectorFloatOp := if signed then
      (bin (.vectorFloat .cmpGE32) scaled (splat .w32 0x4F000000),
        bin (.vectorFloat .cmpGT32) (splat .w32 0xCF000000) scaled, .toI32S)
    else
      (bin (.vectorFloat .cmpGE32) scaled (splat .w32 0x4F800000),
        bin (.vectorFloat .cmpGE32) (splat .w32 0xBF800000) scaled, .toI32U)
  saturateIf (← anySet (bin (.vector .or) above below))
  putVr w.rd (un op scaled)

def twoOperands (w : Insn) : Lift Unit := do
  let operands := s!"v{w.rd},v{w.ra},v{w.rb}"
  let sum (name : String) (op : VectorFloatOp) : Lift Unit := do
    listed s!"{name} {operands}"
    putVr w.rd (tri op nearest (← getVr w.ra) (← getVr w.rb))
  let pick (name : String) (op : VectorFloatOp) : Lift Unit := do
    listed s!"{name} {operands}"
    putVr w.rd (bin op (← getVr w.ra) (← getVr w.rb))
  match w.vxXo with
  | 10 => sum "vaddfp" (.add .single)
  | 74 => sum "vsubfp" (.sub .single)
  | 1034 => pick "vmaxfp" (.max .single)
  | 1098 => pick "vminfp" (.min .single)
  | 266 => unary w "vrefp" .recipEst
  | 330 => unary w "vrsqrtefp" .rsqrtEst
  | 394 => unary w "vexptefp" .exp2
  | 458 => unary w "vlogefp" .log2
  | 522 => unary w "vrfin" .roundNearest
  | 586 => unary w "vrfiz" .roundZero
  | 650 => unary w "vrfip" .roundUp
  | 714 => unary w "vrfim" .roundDown
  | 778 => ofInteger w "u" .ofI32U
  | 842 => ofInteger w "s" .ofI32S
  | 906 => toInteger w false
  | 970 => toInteger w true
  | _ => unrecognized w "altivec FP"

/-- Lifts an instruction of the family. -/
def lift (w : Insn) : Lift Unit :=
  if w.vaXo = 46 ∨ w.vaXo = 47 then multiplyAdd w
  else if [198, 454, 710, 966].contains w.vcXo then compare w
  else twoOperands w

end PowerLift.VectorFloat
