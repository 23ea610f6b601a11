import PowerLift.Fault

/-!
# Extension of immediates and rotate masks

Masks count bits from the most significant one: the mask from 0 to 0 has the top bit alone. A mask
whose beginning lies behind its end wraps around.
-/

namespace PowerLift.Bits

/-- The low `bits` bits of `v`, extended with their sign. -/
def signExtend (v : BitVec 64) (bits : Nat) : Except Fault (BitVec 64) :=
  if 0 < bits ∧ bits ≤ 64 then
    .ok (((v <<< (64 - bits)).sshiftRight (64 - bits)))
  else .error .extensionWidth

/-- The low `bits` bits of `v`. -/
def zeroExtend (v : BitVec 64) (bits : Nat) : Except Fault (BitVec 64) :=
  if 0 < bits ∧ bits ≤ 64 then .ok ((v.setWidth bits).setWidth 64)
  else .error .extensionWidth

/-- As `signExtend`, for 32-bit values. -/
def signExtend32 (v : BitVec 32) (bits : Nat) : Except Fault (BitVec 32) :=
  (signExtend (v.setWidth 64) bits).map (·.setWidth 32)

/-- The mask of the bits `mb` to `me` of a value of `n` bits, wrapping where `me < mb`. -/
def ringMask (n mb me : Nat) : BitVec n :=
  let m := (BitVec.allOnes n <<< (n - 1 - me)) ^^^ ((BitVec.allOnes n <<< (n - 1 - mb)) <<< 1)
  if me < mb then ~~~m else m

/-- The 32-bit rotate mask. -/
def mask32 (mb me : Nat) : Except Fault (BitVec 32) :=
  if mb < 32 ∧ me < 32 then .ok (ringMask 32 mb me) else .error .maskRange32

/-- The 64-bit rotate mask. -/
def mask64 (mb me : Nat) : Except Fault (BitVec 64) :=
  if mb < 64 ∧ me < 64 then .ok (ringMask 64 mb me) else .error .maskRange64

/-- The mask of a word rotate in a 64-bit register, where the word stands in both halves. -/
def mask32In64 (mb me : Nat) : Except Fault (BitVec 64) :=
  if UInt32.size ≤ mb + 32 ∨ UInt32.size ≤ me + 32 then .error .addOverflow
  else mask64 (mb + 32) (me + 32)

/-- The greatest multiple of `align` that is not above `v`, for powers of two. -/
def alignDown (v align : BitVec 64) : Except Fault (BitVec 64) :=
  if align = 0 then .error .subOverflow else .ok (v &&& ~~~(align - 1))

end PowerLift.Bits
