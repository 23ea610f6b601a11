import PowerLift.Target.Arch

/-!
# Guest state

The guest state is a record of bytes. General registers come first, then the 64 vector-scalar
registers, the special registers, and two bytes for each condition-register field. A vector
register is one of the upper 32 vector-scalar registers, a floating-point register one half of a
lower one.
-/

namespace PowerLift

/-- A special register with a place of its own. -/
inductive SpecialSlot where
  | cia | lr | ctr | tar
  | xerSo | xerOv | xerCa
  /-- The byte count of string instructions. -/
  | xerBc
  /-- Binary rounding mode, as the processor encodes it. -/
  | fpRound
  /-- Decimal rounding mode, as the processor encodes it. -/
  | dfpRound
  /-- Result class and comparison bits of the floating-point status. -/
  | cFpcc
  | vrsave | vscr
  /-- Code of the last emulation warning. -/
  | emnote
  /-- First address of a cache-management range. -/
  | cmStart
  /-- Length of a cache-management range. -/
  | cmLen
  /-- Address of the current function before redirection. -/
  | nrAddr
  | nrAddrGpr2 | ipAtSyscall | sprg3Ro
  | tfhar | texasr | texasru | tfiar
  | ppr | pspb | dscr
  deriving DecidableEq, Repr, Inhabited

namespace SpecialSlot

/-- All special slots in the order of their places. -/
def all : List SpecialSlot :=
  [cia, lr, ctr, tar, xerSo, xerOv, xerCa, xerBc, fpRound, dfpRound, cFpcc, vrsave, vscr, emnote,
   cmStart, cmLen, nrAddr, nrAddrGpr2, ipAtSyscall, sprg3Ro, tfhar, texasr, texasru, tfiar, ppr,
   pspb, dscr]

/-- The written name of a slot. -/
def name : SpecialSlot → String
  | cia => "Cia"
  | lr => "Lr"
  | ctr => "Ctr"
  | tar => "Tar"
  | xerSo => "XerSo"
  | xerOv => "XerOv"
  | xerCa => "XerCa"
  | xerBc => "XerBc"
  | fpRound => "FpRound"
  | dfpRound => "DfpRound"
  | cFpcc => "CFpcc"
  | vrsave => "Vrsave"
  | vscr => "Vscr"
  | emnote => "Emnote"
  | cmStart => "CmStart"
  | cmLen => "CmLen"
  | nrAddr => "NrAddr"
  | nrAddrGpr2 => "NrAddrGpr2"
  | ipAtSyscall => "IpAtSyscall"
  | sprg3Ro => "Sprg3Ro"
  | tfhar => "Tfhar"
  | texasr => "Texasr"
  | texasru => "Texasru"
  | tfiar => "Tfiar"
  | ppr => "Ppr"
  | pspb => "Pspb"
  | dscr => "Dscr"

/-- The slot that a name denotes. -/
def ofName? (s : String) : Option SpecialSlot :=
  all.find? (·.name == s)

/-- The type stored in a slot. -/
def ty (arch : Arch) : SpecialSlot → Ty
  | cia | lr | ctr | tar | cmStart | cmLen | nrAddr | nrAddrGpr2 | ipAtSyscall | sprg3Ro =>
      arch.wordTy
  | xerSo | xerOv | xerCa | xerBc | fpRound | dfpRound | cFpcc => .i8
  | vrsave | vscr | emnote | texasru | pspb => .i32
  | tfhar | texasr | tfiar | ppr | dscr => .i64

end SpecialSlot

/-- A place in the guest state. Indices are unchecked; `Layout.offset` refuses bad ones. -/
inductive Slot where
  | gpr (i : Nat)
  | vsr (i : Nat)
  /-- The less, greater and equal bits of a condition-register field. -/
  | cr321 (field : Nat)
  /-- The summary-overflow bit of a condition-register field. -/
  | cr0 (field : Nat)
  | special (s : SpecialSlot)
  deriving DecidableEq, Repr, Inhabited

namespace Slot

/-- The type stored in a slot. -/
def ty (arch : Arch) : Slot → Ty
  | gpr _ => arch.wordTy
  | vsr _ => .v128
  | cr321 _ | cr0 _ => .i8
  | special s => s.ty arch

/-- The written form of a slot. -/
def describe : Slot → String
  | gpr i => s!"Gpr({i})"
  | vsr i => s!"Vsr({i})"
  | cr321 n => s!"Cr321({n})"
  | cr0 n => s!"Cr0({n})"
  | special s => s.name

end Slot

instance : Coe SpecialSlot Slot := ⟨.special⟩

/-- Special registers by name: those with a slot, and those assembled from several. -/
inductive SpecialReg where
  | plain (slot : SpecialSlot)
  /-- Overflow, carry and byte count in 32 bits. -/
  | xer
  /-- The eight condition fields in 32 bits. -/
  | cr
  /-- Rounding modes and result class in 64 bits. -/
  | fpscr
  deriving DecidableEq, Repr, Inhabited

namespace SpecialReg

/-- All special registers. -/
def all : List SpecialReg :=
  [plain .cia, plain .lr, plain .ctr, plain .tar, xer, cr, fpscr, plain .vrsave, plain .vscr,
   plain .emnote, plain .cmStart, plain .cmLen, plain .nrAddr, plain .nrAddrGpr2,
   plain .ipAtSyscall, plain .sprg3Ro, plain .tfhar, plain .texasr, plain .texasru, plain .tfiar,
   plain .ppr, plain .pspb, plain .dscr]

/-- The written name of a register. -/
def name : SpecialReg → String
  | plain s => s.name
  | xer => "Xer"
  | cr => "Cr"
  | fpscr => "Fpscr"

/-- The register that a name denotes. -/
def ofName? (s : String) : Option SpecialReg :=
  all.find? (·.name == s)

end SpecialReg

end PowerLift
