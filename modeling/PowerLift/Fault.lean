import PowerLift.Op
import PowerLift.State.FlagRule
import PowerLift.State.Slot

/-!
# Faults and refusals

A *fault* is a broken assumption: ill-typed code, a register index out of range, a configuration
that is not supported. A *refusal* is a verdict on guest code: the word is not an instruction that
the configured processor has. Both are causes; their wording is here and nowhere else.
-/

namespace PowerLift

/-- A broken assumption of the lifter or of its caller. -/
inductive Fault where
  -- operators and expressions
  | noSizedOp (base : SizedOp) (ty : Ty)
  | arity (op : Op) (want got : Nat)
  | operand (op : Op) (index : Nat) (got want : Ty)
  | loadAddress (got : Ty)
  | iteCondition (got : Ty)
  | iteArms (first second : Ty)
  -- staging
  | indexRange (len index : Nat)
  | readUnbound (t : Nat)
  | assignTy (t : Nat) (have_ want : Ty)
  | boundTwice (t : Nat)
  | foreignTemp (t : Nat)
  | putTy (got want : Ty) (offset : Nat)
  | storeTruth
  | exitGuard (got : Ty)
  | exitTarget (dst : Const)
  | address (got : Ty)
  | linkedResult
  | conditionalResult (got : Ty)
  | callGuard (got : Ty)
  | blockChanged (len base : Nat)
  -- registers and widths
  | widen (source target : Ty) (signed : Bool)
  | narrow (source target : Ty)
  | gprIndex (i : Nat)
  | vsrIndex (i : Nat)
  | fprIndex (i : Nat)
  | vrIndex (i : Nat)
  | crField (i : Nat)
  | crBit (i : Nat)
  | notComposite (r : SpecialReg)
  | alignment
  -- flags
  | flagWidth (got : Ty)
  | wordProduct (bits : Nat)
  | doublewordProduct (bits : Nat)
  | noOverflow (rule : FlagRule)
  | noCarry (rule : FlagRule)
  | signOf (got : Ty)
  | orderOf (got : Ty)
  -- bit fields
  | extensionWidth
  | maskRange32
  | maskRange64
  | fieldRange (start width : Nat)
  | addOverflow
  | subOverflow
  -- configuration
  | littleEndian32
  | layoutArch (layout arch : Arch)
  | foreignCaps (caps : Capabilities) (arch : Arch)
  | lineSize (setting : String) (size : Nat)
  | noWord (offset : Nat)
  deriving DecidableEq, Repr, Inhabited

namespace Fault

/-- Two values that should have been equal. -/
private def unequal (what left right : String) : String :=
  s!"assertion `left == right` failed: {what}\n  left: {left}\n right: {right}"

/-- The wording of a fault. -/
def message : Fault → String
  | noSizedOp base ty => s!"Op::sized: no {base.name} variant for {ty.name}"
  | arity op want got =>
      unequal s!"{op.name} applied to {got} operands" (toString want) (toString got)
  | operand op i got want =>
      unequal s!"{op.name} operand {i} has type {got.name}, expected {want.name}" got.name want.name
  | loadAddress got => s!"load address must be I32 or I64, got {got.name}"
  | iteCondition got => unequal "ITE condition must be I1" got.name "I1"
  | iteArms a b => unequal "ITE arms differ in type" a.name b.name
  | indexRange len i => s!"index out of bounds: the len is {len} but the index is {i}"
  | readUnbound t => s!"Temp({t}) read before binding"
  | assignTy t have_ want =>
      unequal s!"assigning {want.name} expression to Temp({t})" have_.name want.name
  | boundTwice t => s!"Temp({t}) bound twice"
  | foreignTemp t => s!"Temp({t}) belongs to an earlier instruction"
  | putTy got want offset =>
      unequal s!"put of {got.name} into {want.name} slot at offset {offset}" got.name want.name
  | storeTruth => "cannot store an I1 value"
  | exitGuard got => unequal "exit guard must be I1" got.name "I1"
  | exitTarget dst => s!"exit target must be an address constant, got {dst.describe}"
  | address got => s!"address must be I32 or I64, got {got.name}"
  | linkedResult => "load-linked result must be an integer"
  | conditionalResult got => unequal "store-conditional result must be I1" got.name "I1"
  | callGuard got => unequal "dirty guard must be I1" got.name "I1"
  | blockChanged len base =>
      unequal "block changed underneath an instruction builder" (toString len) (toString base)
  | widen source target signed =>
      s!"widen_to_word: cannot widen ({source.name}, {target.name}, {signed})"
  | narrow source target => s!"narrow_from_word: cannot narrow ({source.name}, {target.name})"
  | gprIndex i => s!"GPR index {i} out of range"
  | vsrIndex i => s!"VSR index {i} out of range"
  | fprIndex i => s!"FPR index {i} out of range"
  | vrIndex i => s!"VR index {i} out of range"
  | crField i => s!"CR field {i} out of range"
  | crBit i => s!"CR bit {i} out of range"
  | notComposite r => s!"put_gst_masked: {r.name} is not a composite register"
  | alignment => "assertion failed: align.is_power_of_two()"
  | flagWidth got => s!"flag width must be I32 or I64, got {got.name}"
  | wordProduct bits => unequal "mullw overflow is a word computation" (toString bits) "32"
  | doublewordProduct bits =>
      unequal "mulld overflow is a doubleword computation" (toString bits) "64"
  | noOverflow rule => s!"{rule.name} has no overflow form"
  | noCarry rule => s!"{rule.name} has no carry form"
  | signOf got => s!"set_cr0 on {got.name}"
  | orderOf got => s!"set_cr_from_ord on {got.name}"
  | extensionWidth => "assertion failed: bits > 0 && bits <= 64"
  | maskRange32 => "assertion failed: mb < 32 && me < 32"
  | maskRange64 => "assertion failed: mb < 64 && me < 64"
  | fieldRange start width => s!"bad field ({start}, {width})"
  | addOverflow => "attempt to add with overflow"
  | subOverflow => "attempt to subtract with overflow"
  | littleEndian32 => "32-bit little-endian guests are not supported"
  | layoutArch layout arch =>
      unequal "guest layout is for another architecture variant" layout.label arch.label
  | foreignCaps caps arch => s!"capability flags {caps.describe} do not belong to {arch.label}"
  | lineSize setting size => s!"{setting} = {size} is not a supported cache-line size"
  | noWord offset => s!"no instruction word at code offset {offset}"

end Fault

/-- An optional part of the instruction set. -/
inductive Extension where
  | floatingPoint | altivec | generalPurposeOptional | graphicsOptional | vsx
  | decimalFloatingPoint | isa207 | isa30 | mode64
  deriving DecidableEq, Repr, Inhabited

namespace Extension

/-- The written name of an extension. -/
def name : Extension → String
  | floatingPoint => "floating point"
  | altivec => "Altivec"
  | generalPurposeOptional => "general-purpose optional (FX)"
  | graphicsOptional => "graphics optional (GX)"
  | vsx => "VSX"
  | decimalFloatingPoint => "decimal floating point"
  | isa207 => "ISA 2.07"
  | isa30 => "ISA 3.0"
  | mode64 => "64-bit mode"

end Extension

/-- Why a word is refused. -/
inductive Reason where
  /-- No instruction has these opcode bits. -/
  | unrecognized (what : String)
  /-- A field that must be zero is not. -/
  | reservedBits (what : String)
  /-- The operands are undefined together. -/
  | invalidForm (what : String)
  /-- The processor lacks the extension. -/
  | missing (ext : Extension)
  deriving DecidableEq, Repr, Inhabited

/-- A refused instruction word. -/
structure Refusal where
  word : BitVec 32
  reason : Reason
  deriving DecidableEq, Repr, Inhabited

namespace Refusal

/-- The wording of a refusal. -/
def message (r : Refusal) : String :=
  let word := "0x" ++ Text.hexWord r.word.toNat
  match r.reason with
  | .unrecognized what => s!"unrecognized instruction {word} ({what})"
  | .reservedBits what => s!"reserved bits set in {word} ({what})"
  | .invalidForm what => s!"invalid form {word}: {what}"
  | .missing ext => s!"instruction {word} requires {ext.name}"

end Refusal

end PowerLift
