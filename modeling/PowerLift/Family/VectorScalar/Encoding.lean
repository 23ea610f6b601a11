import PowerLift.Insn.Word
import PowerLift.Op

/-!
# Vector-scalar encodings

The extended opcode of a vector-scalar instruction occupies different bits in each form. An encoding
is keyed by bits 21 to 30 with the operand bits of its form cleared, and a word belongs to the first
form under which its bits name an encoding.
-/

namespace PowerLift.VectorScalar

/-- Where an instruction has its extended opcode. -/
inductive Form where
  /-- Bits 21 to 29. -/
  | xx2
  /-- Bits 21 to 28. -/
  | xx3
  /-- As `xx3`, with an immediate in bits 22 and 23. -/
  | xx3Imm
  /-- As `xx3`, with the record bit in bit 21. -/
  | xx3Rc
  /-- Bits 26 and 27. -/
  | xx4
  deriving DecidableEq, Repr, Inhabited

namespace Form

/-- The opcode bits among bits 21 to 30. -/
def mask : Form → BitVec 10
  | xx2 => 0x3FE
  | xx3 => 0x3FC
  | xx3Imm => 0x27C
  | xx3Rc => 0x1FC
  | xx4 => 0x018

def name : Form → String
  | xx2 => "Xx2"
  | xx3 => "Xx3"
  | xx3Imm => "Xx3Imm"
  | xx3Rc => "Xx3Rc"
  | xx4 => "Xx4"

end Form

/-- The lanes that a floating-point operation reads and writes. -/
inductive Lanes where
  /-- A double in the high half. -/
  | scalarDouble
  /-- A single in double format in the high half. -/
  | scalarSingle
  | doubles
  | singles
  deriving DecidableEq, Repr, Inhabited

namespace Lanes

/-- Whether results are rounded to single precision. -/
def isSingle : Lanes → Bool
  | scalarSingle | singles => true
  | scalarDouble | doubles => false

end Lanes

/-- Operations of two operands that round. -/
inductive Arithmetic where
  | add | sub | mul | div
  deriving DecidableEq, Repr, Inhabited

/-- A product added to a third operand. -/
structure Fused where
  /-- The third operand is subtracted. -/
  subtract : Bool
  /-- The result is negated. -/
  negate : Bool
  /-- The target holds the second factor; otherwise it holds the third operand. -/
  factorInTarget : Bool
  deriving DecidableEq, Repr, Inhabited

inductive Relation where
  | eq | gt | ge
  deriving DecidableEq, Repr, Inhabited

/-- Operations of one operand that are rounded to the precision of their lanes. -/
inductive Root where
  | sqrt | recipEst | rsqrtEst
  deriving DecidableEq, Repr, Inhabited

/-- Operations on sign bits. -/
inductive SignChange where
  | abs | nabs | neg
  deriving DecidableEq, Repr, Inhabited

/-- Conversions between number formats. -/
inductive Conversion where
  | scalarNarrow
  | scalarWiden
  | scalarToInt (sign : Sign) (target : Word)
  | scalarOfInt (sign : Sign) (target : FloatLane)
  | narrow
  | widen
  | doublesToInt (sign : Sign) (target : Word)
  | singlesToInt (sign : Sign) (target : Word)
  | ofDoublewords (sign : Sign) (target : FloatLane)
  | ofWords (sign : Sign) (target : FloatLane)
  deriving DecidableEq, Repr, Inhabited

/-- What an instruction computes. -/
inductive Operation where
  | arithmetic (l : Lanes) (op : Arithmetic)
  | fused (l : Lanes) (f : Fused)
  | compareScalar
  | compare (l : FloatLane) (rel : Relation)
  | max (l : Lanes)
  | min (l : Lanes)
  | copySign (l : Lanes)
  | root (l : Lanes) (op : Root)
  | sign (l : Lanes) (op : SignChange)
  /-- Rounds to integers, in the current rounding mode where none is given. -/
  | roundInt (l : Lanes) (mode : Option Rounding)
  | convert (c : Conversion)
  | logic (op : VectorOp) (invertSecond invertResult : Bool)
  | merge (high : Bool)
  | splatWord
  | shiftWords
  | permuteHalves
  | select
  deriving DecidableEq, Repr, Inhabited

/-- An encoding. -/
structure Encoding where
  key : BitVec 10
  form : Form
  name : String
  operation : Operation
  /-- Whether version 2.07 of the architecture added it. -/
  since207 : Bool
  deriving DecidableEq, Repr, Inhabited

namespace Encoding

/-- All encodings, in the order of their keys. -/
def all : List Encoding :=
  [⟨0x000, .xx3, "xsaddsp", .arithmetic .scalarSingle .add, true⟩,
   ⟨0x004, .xx3, "xsmaddasp", .fused .scalarSingle ⟨false, false, false⟩, true⟩,
   ⟨0x008, .xx3Imm, "xxsldwi", .shiftWords, false⟩,
   ⟨0x014, .xx2, "xsrsqrtesp", .root .scalarSingle .rsqrtEst, true⟩,
   ⟨0x016, .xx2, "xssqrtsp", .root .scalarSingle .sqrt, true⟩,
   ⟨0x018, .xx4, "xxsel", .select, false⟩,
   ⟨0x020, .xx3, "xssubsp", .arithmetic .scalarSingle .sub, true⟩,
   ⟨0x024, .xx3, "xsmaddmsp", .fused .scalarSingle ⟨false, false, true⟩, true⟩,
   ⟨0x028, .xx3Imm, "xxpermdi", .permuteHalves, false⟩,
   ⟨0x034, .xx2, "xsresp", .root .scalarSingle .recipEst, true⟩,
   ⟨0x040, .xx3, "xsmulsp", .arithmetic .scalarSingle .mul, true⟩,
   ⟨0x044, .xx3, "xsmsubasp", .fused .scalarSingle ⟨true, false, false⟩, true⟩,
   ⟨0x048, .xx3, "xxmrghw", .merge true, false⟩,
   ⟨0x060, .xx3, "xsdivsp", .arithmetic .scalarSingle .div, true⟩,
   ⟨0x064, .xx3, "xsmsubmsp", .fused .scalarSingle ⟨true, false, true⟩, true⟩,
   ⟨0x080, .xx3, "xsadddp", .arithmetic .scalarDouble .add, false⟩,
   ⟨0x084, .xx3, "xsmaddadp", .fused .scalarDouble ⟨false, false, false⟩, false⟩,
   ⟨0x08C, .xx3, "xscmpudp", .compareScalar, false⟩,
   ⟨0x090, .xx2, "xscvdpuxws", .convert (.scalarToInt .unsigned .w32), false⟩,
   ⟨0x092, .xx2, "xsrdpi", .roundInt .scalarDouble (some .nearestEven), false⟩,
   ⟨0x094, .xx2, "xsrsqrtedp", .root .scalarDouble .rsqrtEst, false⟩,
   ⟨0x096, .xx2, "xssqrtdp", .root .scalarDouble .sqrt, false⟩,
   ⟨0x0A0, .xx3, "xssubdp", .arithmetic .scalarDouble .sub, false⟩,
   ⟨0x0A4, .xx3, "xsmaddmdp", .fused .scalarDouble ⟨false, false, true⟩, false⟩,
   ⟨0x0AC, .xx3, "xscmpodp", .compareScalar, false⟩,
   ⟨0x0B0, .xx2, "xscvdpsxws", .convert (.scalarToInt .signed .w32), false⟩,
   ⟨0x0B2, .xx2, "xsrdpiz", .roundInt .scalarDouble (some .zero), false⟩,
   ⟨0x0B4, .xx2, "xsredp", .root .scalarDouble .recipEst, false⟩,
   ⟨0x0C0, .xx3, "xsmuldp", .arithmetic .scalarDouble .mul, false⟩,
   ⟨0x0C4, .xx3, "xsmsubadp", .fused .scalarDouble ⟨true, false, false⟩, false⟩,
   ⟨0x0C8, .xx3, "xxmrglw", .merge false, false⟩,
   ⟨0x0D2, .xx2, "xsrdpip", .roundInt .scalarDouble (some .posInf), false⟩,
   ⟨0x0D6, .xx2, "xsrdpic", .roundInt .scalarDouble none, false⟩,
   ⟨0x0E0, .xx3, "xsdivdp", .arithmetic .scalarDouble .div, false⟩,
   ⟨0x0E4, .xx3, "xsmsubmdp", .fused .scalarDouble ⟨true, false, true⟩, false⟩,
   ⟨0x0F2, .xx2, "xsrdpim", .roundInt .scalarDouble (some .negInf), false⟩,
   ⟨0x100, .xx3, "xvaddsp", .arithmetic .singles .add, false⟩,
   ⟨0x104, .xx3, "xvmaddasp", .fused .singles ⟨false, false, false⟩, false⟩,
   ⟨0x10C, .xx3Rc, "xvcmpeqsp", .compare .single .eq, false⟩,
   ⟨0x110, .xx2, "xvcvspuxws", .convert (.singlesToInt .unsigned .w32), false⟩,
   ⟨0x112, .xx2, "xvrspi", .roundInt .singles (some .nearestEven), false⟩,
   ⟨0x114, .xx2, "xvrsqrtesp", .root .singles .rsqrtEst, false⟩,
   ⟨0x116, .xx2, "xvsqrtsp", .root .singles .sqrt, false⟩,
   ⟨0x120, .xx3, "xvsubsp", .arithmetic .singles .sub, false⟩,
   ⟨0x124, .xx3, "xvmaddmsp", .fused .singles ⟨false, false, true⟩, false⟩,
   ⟨0x12C, .xx3Rc, "xvcmpgtsp", .compare .single .gt, false⟩,
   ⟨0x130, .xx2, "xvcvspsxws", .convert (.singlesToInt .signed .w32), false⟩,
   ⟨0x132, .xx2, "xvrspiz", .roundInt .singles (some .zero), false⟩,
   ⟨0x134, .xx2, "xvresp", .root .singles .recipEst, false⟩,
   ⟨0x140, .xx3, "xvmulsp", .arithmetic .singles .mul, false⟩,
   ⟨0x144, .xx3, "xvmsubasp", .fused .singles ⟨true, false, false⟩, false⟩,
   ⟨0x148, .xx2, "xxspltw", .splatWord, false⟩,
   ⟨0x14C, .xx3Rc, "xvcmpgesp", .compare .single .ge, false⟩,
   ⟨0x150, .xx2, "xvcvuxwsp", .convert (.ofWords .unsigned .single), false⟩,
   ⟨0x152, .xx2, "xvrspip", .roundInt .singles (some .posInf), false⟩,
   ⟨0x156, .xx2, "xvrspic", .roundInt .singles none, false⟩,
   ⟨0x160, .xx3, "xvdivsp", .arithmetic .singles .div, false⟩,
   ⟨0x164, .xx3, "xvmsubmsp", .fused .singles ⟨true, false, true⟩, false⟩,
   ⟨0x170, .xx2, "xvcvsxwsp", .convert (.ofWords .signed .single), false⟩,
   ⟨0x172, .xx2, "xvrspim", .roundInt .singles (some .negInf), false⟩,
   ⟨0x180, .xx3, "xvadddp", .arithmetic .doubles .add, false⟩,
   ⟨0x184, .xx3, "xvmaddadp", .fused .doubles ⟨false, false, false⟩, false⟩,
   ⟨0x18C, .xx3Rc, "xvcmpeqdp", .compare .double .eq, false⟩,
   ⟨0x190, .xx2, "xvcvdpuxws", .convert (.doublesToInt .unsigned .w32), false⟩,
   ⟨0x192, .xx2, "xvrdpi", .roundInt .doubles (some .nearestEven), false⟩,
   ⟨0x194, .xx2, "xvrsqrtedp", .root .doubles .rsqrtEst, false⟩,
   ⟨0x196, .xx2, "xvsqrtdp", .root .doubles .sqrt, false⟩,
   ⟨0x1A0, .xx3, "xvsubdp", .arithmetic .doubles .sub, false⟩,
   ⟨0x1A4, .xx3, "xvmaddmdp", .fused .doubles ⟨false, false, true⟩, false⟩,
   ⟨0x1AC, .xx3Rc, "xvcmpgtdp", .compare .double .gt, false⟩,
   ⟨0x1B0, .xx2, "xvcvdpsxws", .convert (.doublesToInt .signed .w32), false⟩,
   ⟨0x1B2, .xx2, "xvrdpiz", .roundInt .doubles (some .zero), false⟩,
   ⟨0x1B4, .xx2, "xvredp", .root .doubles .recipEst, false⟩,
   ⟨0x1C0, .xx3, "xvmuldp", .arithmetic .doubles .mul, false⟩,
   ⟨0x1C4, .xx3, "xvmsubadp", .fused .doubles ⟨true, false, false⟩, false⟩,
   ⟨0x1CC, .xx3Rc, "xvcmpgedp", .compare .double .ge, false⟩,
   ⟨0x1D0, .xx2, "xvcvuxwdp", .convert (.ofWords .unsigned .double), false⟩,
   ⟨0x1D2, .xx2, "xvrdpip", .roundInt .doubles (some .posInf), false⟩,
   ⟨0x1D6, .xx2, "xvrdpic", .roundInt .doubles none, false⟩,
   ⟨0x1E0, .xx3, "xvdivdp", .arithmetic .doubles .div, false⟩,
   ⟨0x1E4, .xx3, "xvmsubmdp", .fused .doubles ⟨true, false, true⟩, false⟩,
   ⟨0x1F0, .xx2, "xvcvsxwdp", .convert (.ofWords .signed .double), false⟩,
   ⟨0x1F2, .xx2, "xvrdpim", .roundInt .doubles (some .negInf), false⟩,
   ⟨0x204, .xx3, "xsnmaddasp", .fused .scalarSingle ⟨false, true, false⟩, true⟩,
   ⟨0x208, .xx3, "xxland", .logic .and false false, false⟩,
   ⟨0x212, .xx2, "xscvdpsp", .convert .scalarNarrow, false⟩,
   ⟨0x216, .xx2, "xscvdpspn", .convert .scalarNarrow, true⟩,
   ⟨0x224, .xx3, "xsnmaddmsp", .fused .scalarSingle ⟨false, true, true⟩, true⟩,
   ⟨0x228, .xx3, "xxlandc", .logic .and true false, false⟩,
   ⟨0x244, .xx3, "xsnmsubasp", .fused .scalarSingle ⟨true, true, false⟩, true⟩,
   ⟨0x248, .xx3, "xxlor", .logic .or false false, false⟩,
   ⟨0x250, .xx2, "xscvuxdsp", .convert (.scalarOfInt .unsigned .single), true⟩,
   ⟨0x264, .xx3, "xsnmsubmsp", .fused .scalarSingle ⟨true, true, true⟩, true⟩,
   ⟨0x268, .xx3, "xxlxor", .logic .xor false false, false⟩,
   ⟨0x270, .xx2, "xscvsxdsp", .convert (.scalarOfInt .signed .single), true⟩,
   ⟨0x280, .xx3, "xsmaxdp", .max .scalarDouble, false⟩,
   ⟨0x284, .xx3, "xsnmaddadp", .fused .scalarDouble ⟨false, true, false⟩, false⟩,
   ⟨0x288, .xx3, "xxlnor", .logic .or false true, false⟩,
   ⟨0x290, .xx2, "xscvdpuxds", .convert (.scalarToInt .unsigned .w64), false⟩,
   ⟨0x292, .xx2, "xscvspdp", .convert .scalarWiden, false⟩,
   ⟨0x296, .xx2, "xscvspdpn", .convert .scalarWiden, true⟩,
   ⟨0x2A0, .xx3, "xsmindp", .min .scalarDouble, false⟩,
   ⟨0x2A4, .xx3, "xsnmaddmdp", .fused .scalarDouble ⟨false, true, true⟩, false⟩,
   ⟨0x2A8, .xx3, "xxlorc", .logic .or true false, true⟩,
   ⟨0x2B0, .xx2, "xscvdpsxds", .convert (.scalarToInt .signed .w64), false⟩,
   ⟨0x2B2, .xx2, "xsabsdp", .sign .scalarDouble .abs, false⟩,
   ⟨0x2C0, .xx3, "xscpsgndp", .copySign .scalarDouble, false⟩,
   ⟨0x2C4, .xx3, "xsnmsubadp", .fused .scalarDouble ⟨true, true, false⟩, false⟩,
   ⟨0x2C8, .xx3, "xxlnand", .logic .and false true, true⟩,
   ⟨0x2D0, .xx2, "xscvuxddp", .convert (.scalarOfInt .unsigned .double), false⟩,
   ⟨0x2D2, .xx2, "xsnabsdp", .sign .scalarDouble .nabs, false⟩,
   ⟨0x2E4, .xx3, "xsnmsubmdp", .fused .scalarDouble ⟨true, true, true⟩, false⟩,
   ⟨0x2E8, .xx3, "xxleqv", .logic .xor false true, true⟩,
   ⟨0x2F0, .xx2, "xscvsxddp", .convert (.scalarOfInt .signed .double), false⟩,
   ⟨0x2F2, .xx2, "xsnegdp", .sign .scalarDouble .neg, false⟩,
   ⟨0x300, .xx3, "xvmaxsp", .max .singles, false⟩,
   ⟨0x304, .xx3, "xvnmaddasp", .fused .singles ⟨false, true, false⟩, false⟩,
   ⟨0x310, .xx2, "xvcvspuxds", .convert (.singlesToInt .unsigned .w64), false⟩,
   ⟨0x312, .xx2, "xvcvdpsp", .convert .narrow, false⟩,
   ⟨0x320, .xx3, "xvminsp", .min .singles, false⟩,
   ⟨0x324, .xx3, "xvnmaddmsp", .fused .singles ⟨false, true, true⟩, false⟩,
   ⟨0x330, .xx2, "xvcvspsxds", .convert (.singlesToInt .signed .w64), false⟩,
   ⟨0x332, .xx2, "xvabssp", .sign .singles .abs, false⟩,
   ⟨0x340, .xx3, "xvcpsgnsp", .copySign .singles, false⟩,
   ⟨0x344, .xx3, "xvnmsubasp", .fused .singles ⟨true, true, false⟩, false⟩,
   ⟨0x350, .xx2, "xvcvuxdsp", .convert (.ofDoublewords .unsigned .single), false⟩,
   ⟨0x352, .xx2, "xvnabssp", .sign .singles .nabs, false⟩,
   ⟨0x364, .xx3, "xvnmsubmsp", .fused .singles ⟨true, true, true⟩, false⟩,
   ⟨0x370, .xx2, "xvcvsxdsp", .convert (.ofDoublewords .signed .single), false⟩,
   ⟨0x372, .xx2, "xvnegsp", .sign .singles .neg, false⟩,
   ⟨0x380, .xx3, "xvmaxdp", .max .doubles, false⟩,
   ⟨0x384, .xx3, "xvnmaddadp", .fused .doubles ⟨false, true, false⟩, false⟩,
   ⟨0x390, .xx2, "xvcvdpuxds", .convert (.doublesToInt .unsigned .w64), false⟩,
   ⟨0x392, .xx2, "xvcvspdp", .convert .widen, false⟩,
   ⟨0x3A0, .xx3, "xvmindp", .min .doubles, false⟩,
   ⟨0x3A4, .xx3, "xvnmaddmdp", .fused .doubles ⟨false, true, true⟩, false⟩,
   ⟨0x3B0, .xx2, "xvcvdpsxds", .convert (.doublesToInt .signed .w64), false⟩,
   ⟨0x3B2, .xx2, "xvabsdp", .sign .doubles .abs, false⟩,
   ⟨0x3C0, .xx3, "xvcpsgndp", .copySign .doubles, false⟩,
   ⟨0x3C4, .xx3, "xvnmsubadp", .fused .doubles ⟨true, true, false⟩, false⟩,
   ⟨0x3D0, .xx2, "xvcvuxddp", .convert (.ofDoublewords .unsigned .double), false⟩,
   ⟨0x3D2, .xx2, "xvnabsdp", .sign .doubles .nabs, false⟩,
   ⟨0x3E4, .xx3, "xvnmsubmdp", .fused .doubles ⟨true, true, true⟩, false⟩,
   ⟨0x3F0, .xx2, "xvcvsxddp", .convert (.ofDoublewords .signed .double), false⟩,
   ⟨0x3F2, .xx2, "xvnegdp", .sign .doubles .neg, false⟩]

/-- The encoding of a form with a key. -/
def find? (key : BitVec 10) (form : Form) : Option Encoding :=
  all.find? fun e => e.key == key && e.form == form

/-- The encoding that a word belongs to. -/
def ofInsn? (w : Insn) : Option Encoding :=
  let key : BitVec 10 := .ofNat 10 (w.bits 1 10)
  if key &&& Form.xx4.mask = Form.xx4.mask then find? Form.xx4.mask .xx4
  else [Form.xx2, .xx3, .xx3Imm, .xx3Rc].findSome? fun form => find? (key &&& form.mask) form

end Encoding

end PowerLift.VectorScalar
