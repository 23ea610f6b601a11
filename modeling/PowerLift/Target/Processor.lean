import PowerLift.Target.Arch

/-!
# Descriptions of the guest processor and of its calling conventions

Cache-line sizes bound what the block-zeroing and cache-management instructions touch; the
calling-convention record says where the area below the stack pointer loses its contents.
-/

namespace PowerLift

/-- The description of a guest processor. -/
structure Processor where
  caps : Capabilities := .empty
  /-- Byte order of guest code. -/
  order : ByteOrder := .big
  /-- Bytes zeroed by the block-zero instruction. -/
  dcbzSize : BitVec 32 := 32
  /-- Bytes zeroed by its long form. -/
  dcbzlSize : BitVec 32 := 128
  /-- Line size that invalidations are rounded to. -/
  icacheLineSize : BitVec 32 := 32
  deriving DecidableEq, Repr, Inhabited

namespace Processor

/-- The cache-line sizes that are accepted. -/
def lineSizes : List (BitVec 32) := [16, 32, 64, 128]

/-- The first line size that is not accepted, with the name of its setting. -/
def badLineSize? (info : Processor) : Option (String × BitVec 32) :=
  [("dcbz_szb", info.dcbzSize), ("dcbzl_szb", info.dcbzlSize),
   ("icache_line_szb", info.icacheLineSize)].find? fun entry => !lineSizes.contains entry.2

end Processor

/-- Calling-convention details. -/
structure CallConvention where
  /-- Bytes reserved below the stack pointer; zero for none. -/
  redzoneSize : BitVec 32 := 0
  /-- Whether a return gives up the reserved area. -/
  zapAtReturn : Bool := false
  /-- Decides per target whether a call gives up the reserved area. -/
  zapAtCall? : Option (BitVec 64 → Bool) := none
  /-- Whether the host represents function pointers as descriptors. -/
  hostDescriptors : Bool := false
  deriving Inhabited

namespace CallConvention

/-- Whether a call to `target` gives up the reserved area. -/
def zapAtCall (abi : CallConvention) (target : BitVec 64) : Bool :=
  abi.redzoneSize != 0 && (abi.zapAtCall?.map (· target)).getD false

end CallConvention

end PowerLift
