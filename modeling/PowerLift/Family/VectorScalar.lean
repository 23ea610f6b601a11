import PowerLift.Family.FloatingPoint
import PowerLift.Family.VectorInteger
import PowerLift.Family.VectorScalar.Encoding

/-!
# Vector-scalar computation

Arithmetic is done lane by lane in double precision. Single-precision lanes are widened, and their
results rounded once. Result words that the architecture leaves undefined are zero.
-/

namespace PowerLift.VectorScalar

open Lift
open PowerLift.Expr (un bin tri quad)
open VectorInteger (splat element)

/-! ## Lanes -/

/-- A vector from its halves. -/
def halves (hi lo : Expr) : Expr := bin (.cast .cat64toV) hi lo

/-- A vector whose low half is zero. -/
def highHalf (hi : Expr) : Expr := halves hi (.u64 0)

/-- A word in the upper half of a doubleword. -/
def highWord (word : Expr) : Expr := bin (.cast .cat32to64) word (.u32 0)

def doubleOfBits (bits : Expr) : Expr := un (.float .ofBits64) bits
def bitsOfDouble (d : Expr) : Expr := un (.float .bits64) d

/-- The double in the high half of a vector. -/
def highDouble (v : Expr) : Expr := doubleOfBits (un (.cast .highVto64) v)

/-- The bit pattern of a single as a double. -/
def doubleOfSingle (bits : Expr) : Expr := un (.float .ofSingle) (un (.float .ofBits32) bits)

/-- A double as the bit pattern of a single. -/
def singleOfDouble (rm d : Expr) : Expr := un (.float .bits32) (bin (.float .toSingle) rm d)

/-- The lanes of a register as doubles. -/
def readLanes (r : Nat) (l : Lanes) : Lift (List Expr) := do
  let v ← getVsr r
  match l with
  | .scalarDouble | .scalarSingle => return [← bind (highDouble v)]
  | .doubles => do
      let (hi, lo) ← splitHalves v
      [hi, lo].mapM fun d => bind (doubleOfBits d)
  | .singles => do (← splitWords v).mapM fun w => bind (doubleOfSingle w)

/-- A vector from the doubles of its lanes. Singles are already rounded, so that narrowing them is
exact. -/
def ofLanes (l : Lanes) (lane : Nat → Expr) : Expr :=
  let single (i : Nat) : Expr := singleOfDouble (.u32 Rounding.nearestEven.code) (lane i)
  match l with
  | .scalarDouble | .scalarSingle => highHalf (bitsOfDouble (lane 0))
  | .doubles => halves (bitsOfDouble (lane 0)) (bitsOfDouble (lane 1))
  | .singles => .ofWords (single 0) (single 1) (single 2) (single 3)

/-- Lane `i` of those read from a register. -/
def lane (lanes : List Expr) (i : Nat) : Expr := lanes.getD i default

/-- The sign bits of the lanes. -/
def signMask : Lanes → Expr
  | .singles => splat .w32 0x80000000
  | _ => splat .w64 0x8000000000000000

/-- A vector, of which scalar operations keep the high half only. -/
def keepLanes (l : Lanes) (v : Expr) : Expr :=
  match l with
  | .scalarDouble | .scalarSingle => highHalf (un (.cast .highVto64) v)
  | .doubles | .singles => v

/-! ## Operators -/

def Arithmetic.op (a : Arithmetic) (single : Bool) : FloatOp :=
  match a with
  | .add => if single then .addSingle else .add
  | .sub => if single then .subSingle else .sub
  | .mul => if single then .mulSingle else .mul
  | .div => if single then .divSingle else .div

def Fused.op (f : Fused) (single : Bool) : FloatOp :=
  if f.subtract then (if single then .mulSubSingle else .mulSub)
  else (if single then .mulAddSingle else .mulAdd)

/-- A comparison of lanes; the operators for doubles have the operands the other way round. -/
def Relation.apply (rel : Relation) (l : FloatLane) (a b : Expr) : Expr :=
  match l, rel with
  | l, .eq => bin (.vectorFloat (.cmpEQ l)) a b
  | .double, .gt => bin (.vectorFloat .cmpLT64) b a
  | .double, .ge => bin (.vectorFloat .cmpLE64) b a
  | .single, .gt => bin (.vectorFloat .cmpGT32) a b
  | .single, .ge => bin (.vectorFloat .cmpGE32) a b

def Root.apply (op : Root) (rm x : Expr) : Expr :=
  match op with
  | .sqrt => bin (.float .sqrt) rm x
  | .recipEst => un (.float .recipEst) x
  | .rsqrtEst => un (.float .rsqrtEst) x

def SignChange.apply (op : SignChange) (v mask : Expr) : Expr :=
  match op with
  | .abs => bin (.vector .and) v (un (.vector .not) mask)
  | .nabs => bin (.vector .or) v mask
  | .neg => bin (.vector .xor) v mask

/-- The lanes that the maximum and minimum operators work on. -/
def Lanes.floatLane : Lanes → FloatLane
  | .singles => .single
  | _ => .double

/-! ## Conversions -/

/-- A double toward zero to an integer of 32 or 64 bits, in 64 bits. -/
def toInteger (sign : Sign) (target : Word) (d : Expr) : Expr :=
  let toward0 : Expr := .u32 Rounding.zero.code
  match sign, target with
  | .signed, .w64 => bin (.float .toI64S) toward0 d
  | .unsigned, .w64 => bin (.float .toI64U) toward0 d
  | .signed, .w32 => un (.cast .sext32to64) (bin (.float .toI32S) toward0 d)
  | .unsigned, .w32 => un (.cast .zext32to64) (bin (.float .toI32U) toward0 d)

/-- An integer of 64 bits to a float. -/
def ofInteger (rm : Expr) (sign : Sign) (target : FloatLane) (i : Expr) : Expr :=
  match sign, target with
  | .signed, .double => bin (.float .ofI64S) rm i
  | .unsigned, .double => bin (.float .ofI64U) rm i
  | .signed, .single => bin (.float .singleOfI64S) rm i
  | .unsigned, .single => bin (.float .singleOfI64U) rm i

/-- The halves of a vector, each converted. -/
def onHalves (v : Expr) (f : Expr → Expr) : Lift Expr := do
  let (hi, lo) ← splitHalves v
  return halves (f hi) (f lo)

/-- The first and the third word of a vector, each converted to a doubleword. -/
def onEvenWords (v : Expr) (f : Expr → Expr) : Lift Expr := do
  let words ← splitWords v
  return halves (f (lane words 0)) (f (lane words 2))

def convert (c : Conversion) (source : Nat) : Lift Expr := do
  let rm ← bind (← rounding)
  let v ← getVsr source
  match c with
  | .scalarNarrow => return highHalf (highWord (singleOfDouble rm (highDouble v)))
  | .scalarWiden =>
      return highHalf (bitsOfDouble (doubleOfSingle (un (.cast .high64to32)
        (un (.cast .highVto64) v))))
  | .scalarToInt sign target => return highHalf (toInteger sign target (highDouble v))
  | .scalarOfInt sign target =>
      let f := ofInteger rm sign target (un (.cast .highVto64) v)
      let d := match target with
        | .single => un (.float .ofSingle) f
        | .double => f
      return highHalf (bitsOfDouble d)
  | .narrow => onHalves v fun d => highWord (singleOfDouble rm (doubleOfBits d))
  | .widen => onEvenWords v fun w => bitsOfDouble (doubleOfSingle w)
  | .doublesToInt sign target => onHalves v fun d =>
      let i := toInteger sign target (doubleOfBits d)
      match target with
      | .w64 => i
      | .w32 => highWord (un (.cast .low64to32) i)
  | .singlesToInt sign .w32 =>
      let op : VectorFloatOp := match sign with
        | .signed => .toI32S
        | .unsigned => .toI32U
      return un op v
  | .singlesToInt sign .w64 => onEvenWords v fun w => toInteger sign .w64 (doubleOfSingle w)
  | .ofDoublewords sign target => onHalves v fun d =>
      let f := ofInteger rm sign target d
      match target with
      | .single => highWord (un (.float .bits32) f)
      | .double => bitsOfDouble f
  | .ofWords sign .single =>
      let op : VectorFloatOp := match sign with
        | .signed => .ofI32S
        | .unsigned => .ofI32U
      return un op v
  | .ofWords sign .double =>
      let cast : Cast := match sign with
        | .signed => .sext32to64
        | .unsigned => .zext32to64
      onEvenWords v fun w => bitsOfDouble (ofInteger rm sign .double (un cast w))

/-! ## Instructions -/

/-- Compares the high doubles and writes a condition field. -/
def compareScalar (w : Insn) (name : String) : Lift Unit := do
  reservedZero w (w.slice 9 2 ||| w.record.toNat) "VSX compare reserved bits"
  listed s!"{name} cr{w.crfd},vs{w.xa},vs{w.xb}"
  let a ← readLanes w.xa .scalarDouble
  let b ← readLanes w.xb .scalarDouble
  let order ← bind (bin (.float .cmp) (lane a 0) (lane b 0))
  FloatingPoint.putOrder w.crfd order

/-- Computes an operation and writes its target. -/
def emit (w : Insn) (name : String) : Operation → Lift Unit
  | .arithmetic l op => do
      listed s!"{name} vs{w.xt},vs{w.xa},vs{w.xb}"
      let rm ← bind (← rounding)
      let a ← readLanes w.xa l
      let b ← readLanes w.xb l
      putVsr w.xt <| ofLanes l fun i => tri (op.op l.isSingle) rm (lane a i) (lane b i)
  | .fused l f => do
      listed s!"{name} vs{w.xt},vs{w.xa},vs{w.xb}"
      let rm ← bind (← rounding)
      let a ← readLanes w.xa l
      let b ← readLanes w.xb l
      let t ← readLanes w.xt l
      let (factor, addend) := if f.factorInTarget then (t, b) else (b, t)
      putVsr w.xt <| ofLanes l fun i =>
        let r := quad (f.op l.isSingle) rm (lane a i) (lane factor i) (lane addend i)
        if f.negate then un (.float .neg) r else r
  | .compareScalar => compareScalar w name
  | .compare l rel => do
      let record := w.slice 21 1 ≠ 0
      let dot := if record then "." else ""
      listed s!"{name}{dot} vs{w.xt},vs{w.xa},vs{w.xb}"
      let a ← bind (← getVsr w.xa)
      let b ← bind (← getVsr w.xb)
      let r ← bind (rel.apply l a b)
      if record then recordLanes r true
      putVsr w.xt r
  | .max l => do
      listed s!"{name} vs{w.xt},vs{w.xa},vs{w.xb}"
      let op : VectorFloatOp := .max l.floatLane
      putVsr w.xt (keepLanes l (bin op (← getVsr w.xa) (← getVsr w.xb)))
  | .min l => do
      listed s!"{name} vs{w.xt},vs{w.xa},vs{w.xb}"
      let op : VectorFloatOp := .min l.floatLane
      putVsr w.xt (keepLanes l (bin op (← getVsr w.xa) (← getVsr w.xb)))
  | .copySign l => do
      listed s!"{name} vs{w.xt},vs{w.xa},vs{w.xb}"
      let mask ← bind (signMask l)
      let sign := bin (.vector .and) (← getVsr w.xa) mask
      let rest := bin (.vector .and) (← getVsr w.xb) (un (.vector .not) mask)
      putVsr w.xt (keepLanes l (bin (.vector .or) sign rest))
  | .root l op => do
      listed s!"{name} vs{w.xt},vs{w.xb}"
      let rm ← bind (← rounding)
      let b ← readLanes w.xb l
      putVsr w.xt <| ofLanes l fun i =>
        let r := op.apply rm (lane b i)
        if l.isSingle then bin (.float .roundToSingle) rm r else r
  | .sign l op => do
      listed s!"{name} vs{w.xt},vs{w.xb}"
      putVsr w.xt (keepLanes l (op.apply (← getVsr w.xb) (signMask l)))
  | .roundInt l mode => do
      listed s!"{name} vs{w.xt},vs{w.xb}"
      let rm ← match mode with
        | some m => bind (.u32 m.code)
        | none => bind (← rounding)
      let b ← readLanes w.xb l
      putVsr w.xt <| ofLanes l fun i => bin (.float .roundToInt) rm (lane b i)
  | .convert c => do
      listed s!"{name} vs{w.xt},vs{w.xb}"
      putVsr w.xt (← convert c w.xb)
  | .logic op invertSecond invertResult => do
      listed s!"{name} vs{w.xt},vs{w.xa},vs{w.xb}"
      let a ← getVsr w.xa
      let b ← getVsr w.xb
      let r := bin op a (if invertSecond then un (.vector .not) b else b)
      putVsr w.xt (if invertResult then un (.vector .not) r else r)
  | .merge high => do
      listed s!"{name} vs{w.xt},vs{w.xa},vs{w.xb}"
      let op : VectorOp := if high then .interleaveHigh .w32 else .interleaveLow .w32
      putVsr w.xt (bin op (← getVsr w.xa) (← getVsr w.xb))
  | .splatWord => do
      listed s!"{name} vs{w.xt},vs{w.xb},{w.xxUim}"
      putVsr w.xt (un (.vector (.dup .w32)) (element .w32 (← getVsr w.xb) w.xxUim))
  | .shiftWords => do
      let n := w.xxDm
      listed s!"{name} vs{w.xt},vs{w.xa},vs{w.xb},{n}"
      let a ← getVsr w.xa
      let b ← getVsr w.xb
      let upper := bin (.vector .shlAll) a (.u8 (.ofNat 8 (32 * n)))
      let lower := bin (.vector .shrAll) b (.u8 (.ofNat 8 (32 * (4 - n))))
      putVsr w.xt (if n = 0 then a else bin (.vector .or) upper lower)
  | .permuteHalves => do
      let dm := w.xxDm
      listed s!"{name} vs{w.xt},vs{w.xa},vs{w.xb},{dm}"
      let half (low : Bool) : Op := .cast (if low then .lowVto64 else .highVto64)
      putVsr w.xt (halves (un (half (dm / 2 = 1)) (← getVsr w.xa))
        (un (half (dm % 2 = 1)) (← getVsr w.xb)))
  | .select => do
      listed s!"{name} vs{w.xt},vs{w.xa},vs{w.xb},vs{w.xc}"
      let c ← bind (← getVsr w.xc)
      let kept := bin (.vector .and) (← getVsr w.xa) (un (.vector .not) c)
      let taken := bin (.vector .and) (← getVsr w.xb) c
      putVsr w.xt (bin (.vector .or) kept taken)

/-- Lifts an instruction of the family. -/
def lift (w : Insn) : Lift Unit := do
  match Encoding.ofInsn? w with
  | none => unrecognized w "VSX XX-form"
  | some e =>
      if e.since207 && !(← read).features.isa207 then missing w .isa207
      if e.form = .xx2 then
        let free := if e.operation = .splatWord then w.slice 11 3 else w.ra
        reservedZero w free "XX2 bits 11..15"
      emit w e.name e.operation

end PowerLift.VectorScalar
