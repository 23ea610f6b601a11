import PowerLift.Op.Width

/-!
# Processor variants and capability sets

A guest is a 32-bit or a 64-bit processor. Its optional hardware features form a set of flags;
each flag belongs to one of the two variants.
-/

namespace PowerLift

/-- The two processor variants. -/
inductive Arch where
  | ppc32 | ppc64
  deriving DecidableEq, Repr, Inhabited

namespace Arch

/-- Whether general registers have 64 bits. -/
def is64 : Arch → Bool
  | ppc32 => false
  | ppc64 => true

/-- The size of a general register in bytes. -/
def wordBytes : Arch → Nat
  | ppc32 => 4
  | ppc64 => 8

/-- The width of a general register. -/
def word : Arch → Word
  | ppc32 => .w32
  | ppc64 => .w64

/-- The type of a general register. -/
def wordTy : Arch → Ty
  | ppc32 => .i32
  | ppc64 => .i64

/-- The name in settings. -/
def name : Arch → String
  | ppc32 => "ppc32"
  | ppc64 => "ppc64"

/-- The name in messages. -/
def label : Arch → String
  | ppc32 => "Ppc32"
  | ppc64 => "Ppc64"

/-- The variant that a name in settings denotes. -/
def ofName? : String → Option Arch
  | "ppc32" => some ppc32
  | "ppc64" => some ppc64
  | _ => none

end Arch

/-- A hardware feature of one variant. -/
inductive Capability where
  | ppc32F | ppc32V | ppc32FX | ppc32GX | ppc32VX | ppc32DFP | ppc32ISA207 | ppc32ISA30
  | ppc64V | ppc64FX | ppc64GX | ppc64VX | ppc64DFP | ppc64ISA207 | ppc64ISA30
  deriving DecidableEq, Repr, Inhabited

namespace Capability

/-- All capabilities, in the order in which sets list them. -/
def all : List Capability :=
  [ppc32F, ppc32V, ppc32FX, ppc32GX, ppc32VX, ppc32DFP, ppc32ISA207, ppc32ISA30,
   ppc64V, ppc64FX, ppc64GX, ppc64VX, ppc64DFP, ppc64ISA207, ppc64ISA30]

/-- The position of a capability's bit. -/
def bit : Capability → Nat
  | ppc32F => 0
  | ppc32V => 1
  | ppc32FX => 2
  | ppc32GX => 3
  | ppc32VX => 4
  | ppc32DFP => 5
  | ppc32ISA207 => 6
  | ppc32ISA30 => 7
  | ppc64V => 16
  | ppc64FX => 17
  | ppc64GX => 18
  | ppc64VX => 19
  | ppc64DFP => 20
  | ppc64ISA207 => 21
  | ppc64ISA30 => 22

/-- The written name of a capability. -/
def name : Capability → String
  | ppc32F => "PPC32_F"
  | ppc32V => "PPC32_V"
  | ppc32FX => "PPC32_FX"
  | ppc32GX => "PPC32_GX"
  | ppc32VX => "PPC32_VX"
  | ppc32DFP => "PPC32_DFP"
  | ppc32ISA207 => "PPC32_ISA2_07"
  | ppc32ISA30 => "PPC32_ISA3_0"
  | ppc64V => "PPC64_V"
  | ppc64FX => "PPC64_FX"
  | ppc64GX => "PPC64_GX"
  | ppc64VX => "PPC64_VX"
  | ppc64DFP => "PPC64_DFP"
  | ppc64ISA207 => "PPC64_ISA2_07"
  | ppc64ISA30 => "PPC64_ISA3_0"

/-- The variant that a capability belongs to. -/
def arch : Capability → Arch
  | ppc32F | ppc32V | ppc32FX | ppc32GX | ppc32VX | ppc32DFP | ppc32ISA207 | ppc32ISA30 => .ppc32
  | ppc64V | ppc64FX | ppc64GX | ppc64VX | ppc64DFP | ppc64ISA207 | ppc64ISA30 => .ppc64

/-- The flag word with the capability's bit alone. -/
def mask (c : Capability) : BitVec 32 := 1 <<< c.bit

end Capability

/-- A set of capabilities as a flag word. Bits that no capability has are kept. -/
structure Capabilities where
  bits : BitVec 32
  deriving DecidableEq, Repr, Inhabited

namespace Capabilities

def empty : Capabilities := ⟨0⟩

/-- Whether a capability is in the set. -/
def has (caps : Capabilities) (c : Capability) : Bool := caps.bits.getLsbD c.bit

/-- Every capability of a variant. -/
def own (arch : Arch) : Capabilities :=
  ⟨((Capability.all.filter (·.arch == arch)).map Capability.mask).foldl (· ||| ·) 0⟩

/-- Every bit that some capability has. -/
def known : Capabilities := ⟨(Capability.all.map Capability.mask).foldl (· ||| ·) 0⟩

/-- The members that are not in another set. -/
def diff (caps other : Capabilities) : Capabilities := ⟨caps.bits &&& ~~~other.bits⟩

/-- The bits of a set that do not belong to a variant. -/
def foreign (caps : Capabilities) (arch : Arch) : Capabilities := caps.diff (own arch)

/-- The written form: names in order with bars between, then unknown bits. -/
def text (caps : Capabilities) : String :=
  let names := (Capability.all.filter caps.has).map Capability.name
  let rest := (caps.diff known).bits.toNat
  Text.separated " | " (names ++ if rest == 0 then [] else [Text.hex rest])

/-- The written form in messages. -/
def describe (caps : Capabilities) : String :=
  let body := if caps.bits == 0 then "0x0" else caps.text
  s!"HwCaps({body})"

/-- The flag word that a name stands for: a capability, or all of a variant. -/
def ofName? : String → Option (BitVec 32)
  | "PPC32_ALL" => some (own .ppc32).bits
  | "PPC64_ALL" => some (own .ppc64).bits
  | s => (Capability.all.find? (·.name == s)).map Capability.mask

end Capabilities

/-- The enabled instruction-set extensions. -/
structure Features where
  fp : Bool
  altivec : Bool
  /-- The square-root group. -/
  fx : Bool
  /-- The estimate and select group. -/
  gx : Bool
  vsx : Bool
  dfp : Bool
  isa207 : Bool
  isa30 : Bool
  deriving DecidableEq, Repr, Inhabited

namespace Features

/-- The extensions that a capability set enables. A 64-bit processor always has floating point. -/
def resolve : Arch → Capabilities → Features
  | .ppc32, caps =>
      { fp := caps.has .ppc32F, altivec := caps.has .ppc32V, fx := caps.has .ppc32FX,
        gx := caps.has .ppc32GX, vsx := caps.has .ppc32VX, dfp := caps.has .ppc32DFP,
        isa207 := caps.has .ppc32ISA207, isa30 := caps.has .ppc32ISA30 }
  | .ppc64, caps =>
      { fp := true, altivec := caps.has .ppc64V, fx := caps.has .ppc64FX,
        gx := caps.has .ppc64GX, vsx := caps.has .ppc64VX, dfp := caps.has .ppc64DFP,
        isa207 := caps.has .ppc64ISA207, isa30 := caps.has .ppc64ISA30 }

end Features

end PowerLift
