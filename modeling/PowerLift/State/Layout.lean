import PowerLift.Fault

/-!
# Offsets in the guest state

Every slot has a fixed offset that depends on the processor variant only. Slots are naturally
aligned and do not overlap.
-/

namespace PowerLift.Layout

/-- The least multiple of `a` that is not below `n`. -/
def alignUp (n a : Nat) : Nat := (n + a - 1) / a * a

/-- The offset of the vector-scalar registers. -/
def vsrBase (arch : Arch) : Nat := alignUp (32 * arch.wordBytes) 16

/-- The offset of the first special slot. -/
def specialBase (arch : Arch) : Nat := vsrBase arch + 64 * 16

/-- The special slots with their offsets, placed from `cursor` on, and the first free offset. -/
def place (arch : Arch) (cursor : Nat) : List SpecialSlot → List (SpecialSlot × Nat) × Nat
  | [] => ([], cursor)
  | s :: rest =>
      let size := (s.ty arch).bytes
      let offset := alignUp cursor size
      let (placed, free) := place arch (offset + size) rest
      ((s, offset) :: placed, free)

/-- The places of all special slots, and the first offset behind them. -/
def specials (arch : Arch) : List (SpecialSlot × Nat) × Nat :=
  place arch (specialBase arch) SpecialSlot.all

/-- The offset of a special slot. -/
def specialOffset (arch : Arch) (s : SpecialSlot) : Nat :=
  ((specials arch).1.lookup s).getD 0

/-- The offset of the condition-register bytes. -/
def crBase (arch : Arch) : Nat := (specials arch).2

/-- The size of the whole record. -/
def size (arch : Arch) : Nat := alignUp (crBase arch + 16) 16

/-- The offset of a slot. -/
def offset (arch : Arch) : Slot → Except Fault Nat
  | .gpr i => if i < 32 then .ok (i * arch.wordBytes) else .error (.gprIndex i)
  | .vsr i => if i < 64 then .ok (vsrBase arch + i * 16) else .error (.vsrIndex i)
  | .cr321 n => if n < 8 then .ok (crBase arch + 2 * n) else .error (.crField n)
  | .cr0 n => if n < 8 then .ok (crBase arch + 2 * n + 1) else .error (.crField n)
  | .special s => .ok (specialOffset arch s)

/-- An offset and the type stored there. -/
structure Place where
  offset : Nat
  ty : Ty
  deriving DecidableEq, Repr, Inhabited

/-- The place of a slot. -/
def locate (arch : Arch) (s : Slot) : Except Fault Place :=
  (offset arch s).map fun o => ⟨o, s.ty arch⟩

/-- A general register. -/
def gpr (arch : Arch) (i : Nat) : Except Fault Place := locate arch (.gpr i)

/-- A vector-scalar register. -/
def vsr (arch : Arch) (i : Nat) : Except Fault Place := locate arch (.vsr i)

/-- A vector register: one of the upper vector-scalar registers. -/
def vr (arch : Arch) (i : Nat) : Except Fault Place :=
  if i < 32 then vsr arch (i + 32) else .error (.vrIndex i)

/-- A floating-point register: the high half of a lower vector-scalar register, which comes first
in a big-endian record and last in a little-endian one. -/
def fpr (arch : Arch) (i : Nat) (host : ByteOrder) : Except Fault Place :=
  if i < 32 then
    (offset arch (.vsr i)).map fun o =>
      ⟨o + match host with
        | .big => 0
        | .little => 8, .f64⟩
  else .error (.fprIndex i)

/-- Where one bit of the condition register is stored. -/
structure CrBit where
  /-- The condition field. -/
  field : Nat
  /-- The bit of the field: 3 less, 2 greater, 1 equal, 0 summary overflow. -/
  bit : Nat
  deriving DecidableEq, Repr, Inhabited

/-- The position of bit `bi` of the condition register, counted from the most significant. -/
def crBit (bi : Nat) : Except Fault CrBit :=
  if bi < 32 then .ok ⟨bi / 4, 3 - bi % 4⟩ else .error (.crBit bi)

/-- The slot that holds a condition bit. -/
def CrBit.slot (p : CrBit) : Slot :=
  if p.bit = 0 then .cr0 p.field else .cr321 p.field

end PowerLift.Layout
