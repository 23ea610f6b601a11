import PowerLift.Fault

/-!
# Images

An image is a run of bytes at an address of the guest. Addresses have 64 bits and do not wrap
around.
-/

namespace PowerLift

/-- The sum of two addresses, which must not exceed 64 bits. -/
def Address.add (a b : BitVec 64) : Except Fault (BitVec 64) :=
  if a.toNat + b.toNat < UInt64.size then .ok (a + b) else .error .addOverflow

theorem Address.add_eq_ok_iff {a b c : BitVec 64} :
    Address.add a b = .ok c ↔ a.toNat + b.toNat < UInt64.size ∧ c = a + b := by
  unfold Address.add
  split
  next h => exact ⟨fun heq => ⟨h, (Except.ok.inj heq).symm⟩, fun heq => congrArg _ heq.2.symm⟩
  next h => exact ⟨nofun, fun heq => absurd heq.1 h⟩

/-- Code bytes of a guest. -/
structure Image where
  /-- The address of the first byte. -/
  base : BitVec 64
  bytes : ByteArray
  deriving Inhabited

namespace Image

/-- Whether an address is that of a byte of the image. -/
def contains (image : Image) (addr : BitVec 64) : Bool :=
  image.base ≤ addr && addr.toNat - image.base.toNat < image.bytes.size

/-- The offset of an address at which a whole instruction word stands. Sizes have 64 bits, so that an
end of a word beyond them is beyond the image. -/
def offset? (image : Image) (addr : BitVec 64) : Option Nat :=
  let offset := addr.toNat - image.base.toNat
  if image.base ≤ addr ∧ offset + 4 ≤ image.bytes.size then some offset else none

/-- A whole word stands at its offset. -/
theorem offset?_eq_some {image : Image} {addr : BitVec 64} {offset : Nat}
    (h : image.offset? addr = some offset) :
    image.base.toNat + offset = addr.toNat ∧ offset + 4 ≤ image.bytes.size := by
  unfold offset? at h
  simp only at h
  split at h
  next hinside =>
    cases h
    have hle : image.base.toNat ≤ addr.toNat := hinside.1
    exact ⟨by omega, hinside.2⟩
  next => contradiction

/-- Whole words stand at the offsets that are multiples of four. -/
theorem offset?_word {image : Image} {addr : BitVec 64} {i : Nat}
    (haddr : addr.toNat = image.base.toNat + 4 * i) :
    image.offset? addr = if i < image.bytes.size / 4 then some (4 * i) else none := by
  have hle : image.base ≤ addr := BitVec.le_def.mpr (by omega)
  have hoffset : addr.toNat - image.base.toNat = 4 * i := by omega
  have hinside : 4 * i + 4 ≤ image.bytes.size ↔ i < image.bytes.size / 4 := by omega
  simp only [offset?, hoffset, hle, hinside, true_and]

/-- The address behind the image. -/
def finish (image : Image) : Except Fault (BitVec 64) :=
  Address.add image.base (.ofNat 64 image.bytes.size)

end Image

end PowerLift
