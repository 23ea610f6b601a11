import Mathlib.Algebra.Group.Nat.Defs
import Mathlib.Data.List.Infix
import PowerLift.Block
import PowerLift.Insn.Word
import PowerLift.Proofs.Layout

/-!
# Flag bytes

Some slots are bytes of which only a few bits are used. An expression keeps within such bits by the
way it is built: by masks, shifts of truth values, orderings, and flags that were read before. The
two bytes of a condition field are written one right behind the other. Sticky bits are written over
with what was read from them, unless a word is meant to write them anew.
-/

namespace PowerLift

/-- The bits that a flag byte uses. -/
def Slot.flagBits? : Slot → Option Nat
  | .cr321 _ => some 0xE
  | .cr0 _ | .special .xerSo | .special .xerOv | .special .xerCa => some 1
  | .special .xerBc => some 0x7F
  | .special .fpRound => some 3
  | .special .dfpRound => some 7
  | .special .cFpcc => some 0x1F
  | _ => none

/-- The conversions between integers of up to 64 bits that keep low bits and fill with zeros. -/
def Cast.isPlain : Cast → Bool
  | zext1to8 | zext1to32 | zext1to64 | zext8to16 | zext8to32 | zext8to64 | zext16to32 | zext16to64
  | zext32to64 | low64to1 | low32to1 | low16to8 | low32to8 | low32to16 | low64to8 | low64to16
  | low64to32 => true
  | sext1to32 | sext1to64 | sext8to32 | sext8to64 | sext16to32 | sext16to64 | sext32to64
  | high64to32 | low128to64 | high128to64 | lowVto64 | highVto64 | lowVto32 | zext32toV | zext64toV
  | cat8to16 | cat16to32 | cat32to64 | cat64to128 | cat64toV => false

namespace Expr

/-- Expressions whose value, behind the statements given, has no bits but those of a mask. -/
inductive Within (arch : Arch) : List Stmt → Expr → Nat → Prop where
  | weaken {ss : List Stmt} {e : Expr} {mask mask' : Nat} (h : Within arch ss e mask)
      (hle : mask &&& mask' = mask) : Within arch ss e mask'
  | u8 {ss : List Stmt} (v : BitVec 8) : Within arch ss (.u8 v) v.toNat
  | u32 {ss : List Stmt} (v : BitVec 32) : Within arch ss (.u32 v) v.toNat
  /-- A flag that is read keeps to its bits. -/
  | flag {ss : List Stmt} {s : Slot} {p : Layout.Place} {mask : Nat}
      (hs : s.flagBits? = some mask) (hp : Layout.locate arch s = .ok p) :
      Within arch ss (.get p.offset p.ty) mask
  /-- A temporary has the bits that its expression had where it was bound. -/
  | tmp {ss ss₀ : List Stmt} {t : Nat} {e : Expr} {mask : Nat} (hss : ss₀ ++ [.bind t e] <+: ss)
      (h : Within arch ss₀ e mask) : Within arch ss (.tmp t) mask
  | andLeft {ss : List Stmt} {w : Width} {a b : Expr} {mask : Nat} (ha : Within arch ss a mask) :
      Within arch ss (.bin (.and w) a b) mask
  | andRight {ss : List Stmt} {w : Width} {a b : Expr} {mask : Nat} (hb : Within arch ss b mask) :
      Within arch ss (.bin (.and w) a b) mask
  | or {ss : List Stmt} {w : Width} {a b : Expr} {mask mask' : Nat} (ha : Within arch ss a mask)
      (hb : Within arch ss b mask') : Within arch ss (.bin (.or w) a b) (mask ||| mask')
  | shl {ss : List Stmt} {w : Width} {a : Expr} {mask : Nat} (k : BitVec 8) (hk : k.toNat < w.bits)
      (ha : Within arch ss a mask) : Within arch ss (.bin (.shl w) a (.u8 k)) (mask <<< k.toNat)
  /-- A shift by an amount that is not known but bounded. -/
  | shlUpTo {ss : List Stmt} {w : Width} {a b : Expr} {n mask : Nat} (hmask : mask < w.bits)
      (ha : Within arch ss a (2 ^ n - 1)) (hb : Within arch ss b mask) :
      Within arch ss (.bin (.shl w) a b) (2 ^ (n + mask) - 1)
  | shr {ss : List Stmt} {w : Width} {a : Expr} (k : BitVec 8) (hk : k.toNat < w.bits) :
      Within arch ss (.bin (.shr w) a (.u8 k)) (2 ^ (w.bits - k.toNat) - 1)
  | order {ss : List Stmt} {w : Word} {s : Sign} {a b : Expr} :
      Within arch ss (.bin (.cmpORD w s) a b) 0xE
  /-- A truth value is one bit. -/
  | truth {ss : List Stmt} {c : Cast} {a : Expr} (hc : c.isPlain = true)
      (harg : c.signature.args = [.i1]) : Within arch ss (.un (.cast c) a) 1
  | cast {ss : List Stmt} {c : Cast} {a : Expr} {mask : Nat} (hc : c.isPlain = true)
      (ha : Within arch ss a mask) : Within arch ss (.un (.cast c) a) mask
  | ite {ss : List Stmt} {c a b : Expr} {mask : Nat} (ha : Within arch ss a mask)
      (hb : Within arch ss b mask) : Within arch ss (.ite c a b) mask

/-- What holds behind some statements holds behind more. -/
theorem Within.mono {arch : Arch} {ss ss' : List Stmt} {e : Expr} {mask : Nat}
    (h : Within arch ss e mask) (hss : ss <+: ss') : Within arch ss' e mask := by
  induction h with
  | weaken h hle ih => exact .weaken (ih hss) hle
  | u8 v => exact .u8 v
  | u32 v => exact .u32 v
  | flag hs hp => exact .flag hs hp
  | tmp hpre h => exact .tmp (hpre.trans hss) h
  | andLeft ha ih => exact .andLeft (ih hss)
  | andRight hb ih => exact .andRight (ih hss)
  | or ha hb iha ihb => exact .or (iha hss) (ihb hss)
  | shl k hk ha ih => exact .shl k hk (ih hss)
  | shlUpTo hmask ha hb iha ihb => exact .shlUpTo hmask (iha hss) (ihb hss)
  | shr k hk => exact .shr k hk
  | order => exact .order
  | truth hc harg => exact .truth hc harg
  | cast hc ha ih => exact .cast hc (ih hss)
  | ite ha hb iha ihb => exact .ite (iha hss) (ihb hss)

theorem Within.zero {arch : Arch} {ss : List Stmt} {mask : Nat} : Within arch ss (.u8 0) mask :=
  .weaken (.u8 0) (Nat.zero_and mask)

end Expr

namespace Layout

/-- A whole register other than the instruction address, or the floating-point half of one. -/
inductive Register (arch : Arch) (host : ByteOrder) (p : Place) : Prop where
  | slot (s : Slot) (hs : s ≠ .special .cia) (hp : locate arch s = .ok p)
  | half (i : Nat) (hp : fpr arch i host = .ok p)

/-- A register to which an expression may be written behind the statements given: a flag byte takes
its bits only. -/
inductive Accepts (arch : Arch) (host : ByteOrder) (ss : List Stmt) (e : Expr) (p : Place) :
    Prop where
  | slot (s : Slot) (hs : s ≠ .special .cia) (hp : locate arch s = .ok p)
      (hflag : ∀ mask, s.flagBits? = some mask → e.Within arch ss mask)
  | half (i : Nat) (hp : fpr arch i host = .ok p)

theorem Accepts.register {arch : Arch} {host : ByteOrder} {ss : List Stmt} {e : Expr} {p : Place}
    (h : Accepts arch host ss e p) : Register arch host p := by
  cases h with
  | slot s hs hp hflag => exact .slot s hs hp
  | half i hp => exact .half i hp

end Layout

/-- The bytes of condition fields. -/
def Slot.isField : Slot → Bool
  | .cr321 _ | .cr0 _ => true
  | _ => false

/-- A statement that writes no byte of a condition field. -/
def Stmt.OffFields (arch : Arch) (stmt : Stmt) : Prop :=
  ∀ s p, s.isField = true → Layout.locate arch s = .ok p → ∀ e, stmt ≠ .put p.offset e

/-- Only writes of the record can reach a field. -/
theorem Stmt.offFields_of_ne_put {arch : Arch} {stmt : Stmt}
    (h : ∀ offset e, stmt ≠ .put offset e) : stmt.OffFields arch := fun _ p _ _ e => h p.offset e

theorem Stmt.offFields_slot {arch : Arch} {s : Slot} {p : Layout.Place} {e : Expr}
    (hp : Layout.locate arch s = .ok p) (hs : s.isField = false) :
    (Stmt.put p.offset e).OffFields arch := by
  intro s' q hs' hq e' heq
  obtain ⟨hoffset, -⟩ := Stmt.put.inj heq
  rw [Layout.locate_injective hp hq hoffset, hs'] at hs
  contradiction

theorem Stmt.offFields_half {arch : Arch} {i : Nat} {host : ByteOrder} {p : Layout.Place} {e : Expr}
    (hp : Layout.fpr arch i host = .ok p) : (Stmt.put p.offset e).OffFields arch := by
  intro s q hs hq e' heq
  obtain ⟨hoffset, -⟩ := Stmt.put.inj heq
  have hhalf := (Layout.fpr_le hp).2
  have hspecials := Layout.specialBase_le_crBase arch
  -- Condition fields come last in the record.
  have hregion := (Layout.locate_region hq).1
  cases s <;> simp only [Slot.isField, Bool.false_eq_true, Layout.region] at hs hregion <;> omega

/-- Code that writes the bytes of a condition field together. -/
inductive Fieldwise (arch : Arch) : List Stmt → Prop where
  | nil : Fieldwise arch []
  | other {ss : List Stmt} {stmt : Stmt} (hss : Fieldwise arch ss) (hstmt : stmt.OffFields arch) :
      Fieldwise arch (ss ++ [stmt])
  | field {ss : List Stmt} {p q : Layout.Place} {a b : Expr} (hss : Fieldwise arch ss) (f : Nat)
      (hp : Layout.locate arch (.cr321 f) = .ok p) (hq : Layout.locate arch (.cr0 f) = .ok q) :
      Fieldwise arch (ss ++ [.put p.offset a, .put q.offset b])

/-- The words that combine two bits of the condition register into a third. -/
def Insn.IsBitLogic (w : Insn) : Prop :=
  w.opcode = 19 ∧ w.xo10 ∈ [257, 129, 289, 225, 33, 449, 417, 193]

instance (w : Insn) : Decidable w.IsBitLogic :=
  inferInstanceAs (Decidable (w.opcode = 19 ∧ w.xo10 ∈ [257, 129, 289, 225, 33, 449, 417, 193]))

/-! ## Sticky bits -/

/-- The bits of a slot that stay set: the summary overflow, and all of the vector status. -/
def Slot.stickyBits? : Slot → Option Nat
  | .special .xerSo => some 1
  | .special .vscr => some 0xFFFFFFFF
  | _ => none

/-- The words that write a sticky slot anew: a move to the exception register or one that clears it,
and a move to the vector status. -/
def Insn.Resets (w : Insn) : Slot → Prop
  | .special .xerSo => w.opcode = 31 ∧ (w.xo10 = 467 ∧ w.spr = 1 ∨ w.xo10 = 512)
  | .special .vscr => w.opcode = 4 ∧ w.vxXo = 1604
  | _ => False

instance (w : Insn) : Decidable (w.Resets (.special .xerSo)) :=
  inferInstanceAs (Decidable (w.opcode = 31 ∧ (w.xo10 = 467 ∧ w.spr = 1 ∨ w.xo10 = 512)))

instance (w : Insn) : Decidable (w.Resets (.special .vscr)) :=
  inferInstanceAs (Decidable (w.opcode = 4 ∧ w.vxXo = 1604))

/-- The bits of a mask that `x` has are carried by expressions that have them as well. -/
inductive Expr.CarriedBy (x : Expr) (mask : Nat) : Expr → Prop where
  | self : CarriedBy x mask x
  | or {w : Width} {a b : Expr} (ha : CarriedBy x mask a) : CarriedBy x mask (.bin (.or w) a b)
  | and {a : Expr} (v : BitVec 8) (hv : mask &&& v.toNat = mask) (ha : CarriedBy x mask a) :
      CarriedBy x mask (.bin .and8 a (.u8 v))

/-- A statement that keeps the sticky bits of a slot, where the word is not meant to write it. -/
def Stmt.Keeps (arch : Arch) (w : Insn) (stmt : Stmt) : Prop :=
  ∀ s mask p, s.stickyBits? = some mask → Layout.locate arch s = .ok p → ¬w.Resets s →
    ∀ e, stmt = .put p.offset e → (Expr.get p.offset p.ty).CarriedBy mask e

namespace Stmt

variable {arch : Arch} {w : Insn} {p : Layout.Place} {e : Expr}

theorem keeps_of_ne_put {stmt : Stmt} (h : ∀ offset e, stmt ≠ .put offset e) : stmt.Keeps arch w :=
  fun _ _ p _ _ _ e heq => absurd heq (h p.offset e)

theorem keeps_slot {s : Slot} (hp : Layout.locate arch s = .ok p)
    (hs : ∀ mask, s.stickyBits? = some mask → ¬w.Resets s →
      (Expr.get p.offset p.ty).CarriedBy mask e) :
    (Stmt.put p.offset e).Keeps arch w := by
  intro s' mask q hs' hq hw e' heq
  obtain ⟨hoffset, rfl⟩ := Stmt.put.inj heq
  obtain rfl := Layout.locate_injective hp hq hoffset
  obtain rfl : p = q := Except.ok.inj (hp.symm.trans hq)
  exact hs mask hs' hw

theorem keeps_half {i : Nat} {host : ByteOrder} (hp : Layout.fpr arch i host = .ok p) :
    (Stmt.put p.offset e).Keeps arch w := by
  intro s mask q hs hq _ e' heq
  obtain ⟨hoffset, -⟩ := Stmt.put.inj heq
  have hhalf := (Layout.fpr_le hp).2
  -- Special slots come behind the registers.
  have hregion := (Layout.locate_region hq).1
  cases s with
  | special x =>
      simp only [Layout.region] at hregion
      omega
  | _ => simp [Slot.stickyBits?] at hs

end Stmt

end PowerLift
