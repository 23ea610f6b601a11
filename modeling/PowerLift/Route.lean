import PowerLift.Family

/-!
# Routes

Each primary opcode has an ordered list of routes, and a word takes the first whose pattern it
matches. The gates of that route say which extensions the processor must have. Patterns on narrow
fields come before patterns on wide ones that would otherwise shadow them.
-/

namespace PowerLift

/-- A test of the extended opcode. -/
inductive Pattern where
  | any
  | xo10 (set : List Nat)
  /-- The extended opcode without the overflow bit. -/
  | xo9 (set : List Nat)
  | xo5 (set : List Nat)
  | xo2 (set : List Nat)
  | vx (set : List Nat)
  | va (set : List Nat)
  | vc (set : List Nat)
  /-- The nine bits that leave out the low bit of a shift amount. -/
  | xs (xo : Nat)
  /-- Four-operand arithmetic. -/
  | fourOperands
  /-- Packed decimal sums and differences. -/
  | packed
  deriving DecidableEq, Repr, Inhabited

namespace Pattern

/-- Whether a word matches. -/
def accepts : Pattern → Insn → Bool
  | any, _ => true
  | xo10 set, w => set.contains w.xo10
  | xo9 set, w => set.contains w.xo9
  | xo5 set, w => set.contains w.xo5
  | xo2 set, w => set.contains w.xo2
  | vx set, w => set.contains w.vxXo
  | va set, w => set.contains w.vaXo
  | vc set, w => set.contains w.vcXo
  | xs xo, w => w.xo10 / 2 == xo
  | fourOperands, w => decide (18 ≤ w.xo5)
  | packed, w => Cipher.isPacked w

end Pattern

/-- What a route asks of the processor. -/
inductive Gate where
  | fp | altivec | fx | gx | vsx | dfp | isa207 | isa30 | mode64
  deriving DecidableEq, Repr, Inhabited

namespace Gate

def name : Gate → String
  | fp => "Fp"
  | altivec => "Altivec"
  | fx => "Fx"
  | gx => "Gx"
  | vsx => "Vsx"
  | dfp => "Dfp"
  | isa207 => "Isa207"
  | isa30 => "Isa30"
  | mode64 => "Mode64"

/-- The extension that is missing where a gate is closed. -/
def extension : Gate → Extension
  | fp => .floatingPoint
  | altivec => .altivec
  | fx => .generalPurposeOptional
  | gx => .graphicsOptional
  | vsx => .vsx
  | dfp => .decimalFloatingPoint
  | isa207 => .isa207
  | isa30 => .isa30
  | mode64 => .mode64

/-- Whether a processor passes a gate. -/
def isOpen (arch : Arch) (f : Features) : Gate → Bool
  | fp => f.fp
  | altivec => f.altivec
  | fx => f.fx
  | gx => f.gx
  | vsx => f.vsx
  | dfp => f.dfp
  | isa207 => f.isa207
  | isa30 => f.isa30
  | mode64 => arch.is64

end Gate

/-- One entry of a primary opcode's list. -/
structure Route where
  pattern : Pattern
  gates : List Gate
  family : Family
  deriving DecidableEq, Repr, Inhabited

namespace Route

/-- Vector operations on narrow lanes, and everything that shares their primary opcode. -/
def vectors : List Route :=
  [⟨.va [42, 43, 44], [.altivec], .vectorInteger⟩,
   ⟨.va [46, 47], [.altivec], .vectorFloat⟩,
   ⟨.va [45], [.altivec, .isa207], .cipher⟩,
   ⟨.va [48, 49, 51], [.isa30, .mode64], .arithmetic⟩,
   ⟨.packed, [.altivec, .isa207], .cipher⟩,
   ⟨.vx [1032, 1096, 1160, 1224, 1288, 1289, 1352, 1353, 1480, 1666, 1730],
     [.altivec, .isa207], .cipher⟩,
   ⟨.vx [1540, 1604], [.altivec], .system⟩,
   ⟨.vx [10, 74, 266, 330, 394, 458, 522, 586, 650, 714, 778, 842, 906, 970, 1034, 1098],
     [.altivec], .vectorFloat⟩,
   ⟨.vc [198, 454, 710, 966], [.altivec], .vectorFloat⟩,
   ⟨.vx [136, 137, 192, 194, 196, 256, 392, 450, 648, 706, 904, 962, 964, 1102, 1216, 1230, 1280,
      1358, 1476, 1486, 1614, 1676, 1732, 1742, 1794, 1795, 1858, 1859, 1922, 1923, 1932, 1986,
      1987],
     [.altivec, .isa207], .vectorInteger⟩,
   ⟨.vc [199, 711, 967], [.altivec, .isa207], .vectorInteger⟩,
   ⟨.any, [.altivec], .vectorInteger⟩]

/-- Branches to registers and operations on the condition register. -/
def registerBranches : List Route :=
  [⟨.xo5 [2], [.isa30], .arithmetic⟩,
   ⟨.xo10 [16, 528], [], .branch⟩,
   ⟨.xo10 [560], [.isa207], .branch⟩,
   ⟨.xo10 [150], [], .system⟩,
   ⟨.xo10 [0, 33, 129, 193, 225, 257, 289, 417, 449], [], .conditionRegister⟩]

/-- Instructions with register operands. The overflow bit of sums is part of the ten-bit opcode, so
that the nine-bit pattern comes last. -/
def registerForms : List Route :=
  [⟨.xo5 [15], [], .logic⟩,
   ⟨.xs 413, [.mode64], .rotate⟩,
   ⟨.xs 445, [.mode64, .isa30], .rotate⟩,
   ⟨.xo10 [654, 686, 718, 750, 782, 814, 846, 878, 910, 942, 1006], [.isa207], .transaction⟩,
   ⟨.xo10 [12, 51, 76, 115, 140, 179, 211, 243, 332, 524, 588, 652, 716, 780, 844, 908, 972],
     [.vsx], .vectorScalarMemory⟩,
   ⟨.xo10 [6, 7, 38, 39, 71, 103, 135, 167, 199, 231, 359, 487], [.altivec], .vectorInteger⟩,
   ⟨.xo10 [535, 567, 599, 631, 663, 695, 727, 759, 791, 855, 887, 919, 983],
     [.fp], .floatingPoint⟩,
   ⟨.xo10 [265, 267, 777, 779], [.isa30], .arithmetic⟩,
   ⟨.xo10 [538, 570], [.isa30], .logic⟩,
   ⟨.xo10 [26, 28, 58, 60, 122, 124, 154, 186, 252, 284, 316, 378, 412, 444, 476, 506, 922, 954,
      986], [], .logic⟩,
   ⟨.xo10 [24, 27, 536, 539, 792, 794, 824], [], .rotate⟩,
   ⟨.xo10 [0, 32, 508], [], .comparison⟩,
   ⟨.xo10 [128], [.isa30], .comparison⟩,
   ⟨.xo10 [21, 23, 53, 55, 87, 119, 149, 151, 181, 183, 215, 247, 279, 311, 341, 343, 373, 375,
      407, 439, 532, 534, 660, 662, 790, 918], [], .loadStore⟩,
   ⟨.xo10 [533, 597, 661, 725], [], .multiple⟩,
   ⟨.xo10 [20, 52, 84, 116, 150, 214, 694, 726], [], .reservation⟩,
   ⟨.xo10 [182, 276], [.isa207], .reservation⟩,
   ⟨.xo10 [19, 144, 512], [], .conditionRegister⟩,
   ⟨.xo10 [54, 62, 86, 246, 278, 339, 371, 467, 598, 854, 982, 1014], [], .system⟩,
   ⟨.xo10 [4, 68], [], .trap⟩,
   ⟨.xo9 [8, 9, 10, 11, 40, 73, 75, 104, 136, 138, 200, 202, 232, 233, 234, 235, 266, 393, 395,
      425, 427, 457, 459, 489, 491], [], .arithmetic⟩]

/-- Floating-point arithmetic; the estimates that need the graphics group differ by precision. -/
def floatArithmetic (graphics : List Nat) : List Route :=
  [⟨.xo5 [2, 3], [.fp, .dfp], .decimalFloat⟩,
   ⟨.xo5 [22], [.fp, .fx], .floatingPoint⟩,
   ⟨.xo5 graphics, [.fp, .gx], .floatingPoint⟩,
   ⟨.fourOperands, [.fp], .floatingPoint⟩,
   ⟨.any, [.fp], .floatingPoint⟩]

/-- The only route of a primary opcode. -/
def only (family : Family) (gates : List Gate) : List Route := [⟨.any, gates, family⟩]

/-- The routes of a primary opcode; unassigned opcodes have none. -/
def ofOpcode : Nat → List Route
  | 2 => only .trap [.mode64]
  | 3 => only .trap []
  | 4 => vectors
  | 7 | 8 | 12 | 13 | 14 | 15 => only .arithmetic []
  | 10 | 11 => only .comparison []
  | 16 | 18 => only .branch []
  | 17 => only .system []
  | 19 => registerBranches
  | 20 | 21 | 23 => only .rotate []
  | 24 | 25 | 26 | 27 | 28 | 29 => only .logic []
  | 30 => only .rotate [.mode64]
  | 31 => registerForms
  | 46 | 47 => only .multiple []
  | 32 | 33 | 34 | 35 | 36 | 37 | 38 | 39 | 40 | 41 | 42 | 43 | 44 | 45 => only .loadStore []
  | 48 | 49 | 50 | 51 | 52 | 53 | 54 | 55 | 57 | 61 => only .floatingPoint [.fp]
  | 56 | 58 => only .loadStore [.mode64]
  | 59 => floatArithmetic [24, 26]
  | 60 => only .vectorScalar [.vsx]
  | 62 => [⟨.xo2 [2], [.mode64, .isa207], .loadStore⟩, ⟨.any, [.mode64], .loadStore⟩]
  | 63 => floatArithmetic [23, 24, 26]
  | _ => []

/-- The route that a word takes, whether or not its gates are open. -/
def find? (w : Insn) : Option Route :=
  (ofOpcode w.opcode).find? (·.pattern.accepts w)

/-- The first gate of a route that a processor does not pass. -/
def closedGate? (r : Route) (arch : Arch) (f : Features) : Option Gate :=
  r.gates.find? fun g => !g.isOpen arch f

end Route

namespace Insn

/-- The family that owns a word. -/
def family? (w : Insn) : Option Family := (Route.find? w).map Route.family

end Insn

namespace Lift

/-- Lifts an ordinary instruction word. -/
def instruction (w : Insn) : Lift Unit := do
  match Route.find? w with
  | none => unrecognized w "primary opcode"
  | some route =>
      let env ← read
      match route.closedGate? env.arch env.features with
      | some gate => missing w gate.extension
      | none => route.family.lift w

end Lift

end PowerLift
