import PowerLift.Lift.Registers
import PowerLift.Proofs.ConditionWord
import PowerLift.Proofs.RegisterFile
import PowerLift.Proofs.SpecialRegisters

/-!
# The floating-point status register

Of the 64 bits of the status register three groups are kept, each in a byte of its own. A write
under a mask rewrites every byte of which it touches a bit, from the old register merged with the
new value, so that it is a merge of the whole register, cut to the bits that are kept.
-/

namespace PowerLift

open Layout (specialOffset)

/-! ## Parts -/

/-- Bits of the status register that are kept in a slot. -/
structure StatusPart where
  slot : SpecialSlot
  /-- The bits of the slot that count. -/
  keep : BitVec 8
  /-- How far up they stand in the register. -/
  shift : Nat

namespace StatusPart

variable {arch : Arch} {σ : GuestState} {p q : StatusPart} {mask v : BitVec 64}

/-- The binary rounding mode. -/
def rounding : StatusPart := ⟨.fpRound, 3, 0⟩

/-- The class of a result and the outcome of a comparison. -/
def outcome : StatusPart := ⟨.cFpcc, 0x1F, 12⟩

/-- The decimal rounding mode. -/
def decimal : StatusPart := ⟨.dfpRound, 7, 32⟩

def all : List StatusPart := [rounding, outcome, decimal]

/-- The bits of the register that a part has. -/
def region (p : StatusPart) : BitVec 64 := p.keep.setWidth 64 <<< p.shift

/-- What a part holds, in its place. -/
def read (arch : Arch) (σ : GuestState) (p : StatusPart) : BitVec 64 :=
  (σ (specialOffset arch p.slot) &&& p.keep).setWidth 64 <<< p.shift

/-- A part is written where the mask has one of its bits. -/
def write (arch : Arch) (mask v : BitVec 64) (σ : GuestState) (p : StatusPart) : GuestState :=
  if mask &&& p.region = 0 then σ
  else Function.update σ (specialOffset arch p.slot) ((v >>> p.shift).setWidth 8 &&& p.keep)

theorem read_eq (arch : Arch) (σ : GuestState) (p : StatusPart) :
    p.read arch σ = (σ (specialOffset arch p.slot)).setWidth 64 <<< p.shift &&& p.region := by
  rw [read, BitVec.setWidth_and, BitVec.shiftLeft_and_distrib, region]

theorem read_congr {σ' : GuestState}
    (h : σ' (specialOffset arch p.slot) = σ (specialOffset arch p.slot)) :
    p.read arch σ' = p.read arch σ := by
  rw [read, h, read]

theorem write_apply {o : Nat} (ho : o ≠ specialOffset arch p.slot) :
    p.write arch mask v σ o = σ o := by
  unfold write
  split
  · rfl
  · exact Function.update_of_ne ho _ _

/-- A part reads as it was written. -/
theorem read_write : p.read arch (p.write arch mask v σ) =
    if mask &&& p.region = 0 then p.read arch σ else v &&& p.region := by
  unfold write
  split
  · rfl
  · rw [read, Function.update_self, BitVec.and_assoc, BitVec.and_self, masked_in_place, region]

theorem read_write_of_ne (hne : q.slot ≠ p.slot) :
    q.read arch (p.write arch mask v σ) = q.read arch σ :=
  read_congr (write_apply (GuestState.special_ne hne))

end StatusPart

/-! ## The register -/

/-- The old value with the bits under a mask taken from a new one. -/
def mergeBits {n : Nat} (mask old new : BitVec n) : BitVec n := (old &&& ~~~mask) ||| (new &&& mask)

/-- Only bits under the mask count. -/
theorem mergeBits_congr {n : Nat} {mask old new new' : BitVec n} (h : new &&& mask = new' &&& mask) :
    mergeBits mask old new = mergeBits mask old new' := by
  rw [mergeBits, h, mergeBits]

/-- Where the mask has no bit, the old value stays. -/
theorem mergeBits_and {n : Nat} {mask region : BitVec n} (h : mask &&& region = 0)
    (old new : BitVec n) : mergeBits mask old new &&& region = old &&& region := by
  apply BitVec.eq_of_getLsbD_eq
  intro i hi
  have hbit : (mask.getLsbD i && region.getLsbD i) = false := by
    rw [← BitVec.getLsbD_and, h]
    exact BitVec.getLsbD_zero
  simp only [mergeBits, BitVec.getLsbD_and, BitVec.getLsbD_or, BitVec.getLsbD_not, hi]
  grind

/-- Bits in three groups that have no bit in common. -/
theorem and_disjoint_groups {n : Nat} {x y z r s t : BitVec n} (hrs : r &&& s = 0)
    (hrt : r &&& t = 0) (hst : s &&& t = 0) :
    ((x &&& r) ||| (y &&& s) ||| (z &&& t)) &&& r = x &&& r ∧
      ((x &&& r) ||| (y &&& s) ||| (z &&& t)) &&& s = y &&& s ∧
      ((x &&& r) ||| (y &&& s) ||| (z &&& t)) &&& t = z &&& t := by
  have hsr : s &&& r = 0 := (BitVec.and_comm s r).trans hrs
  have htr : t &&& r = 0 := (BitVec.and_comm t r).trans hrt
  have hts : t &&& s = 0 := (BitVec.and_comm t s).trans hst
  simp only [BitVec.and_or_distrib_right, BitVec.and_assoc, hrs, hrt, hst, hsr, htr, hts]
  simp

namespace GuestState

open StatusPart

variable {arch : Arch} {σ σ' : GuestState} {mask v : BitVec 64}

/-- The status register, as far as it is kept. -/
def fpscr (arch : Arch) (σ : GuestState) : BitVec 64 :=
  rounding.read arch σ ||| outcome.read arch σ ||| decimal.read arch σ

/-- The state in which the parts are written of which a mask has a bit. -/
def withFpscr (arch : Arch) (σ : GuestState) (mask v : BitVec 64) : GuestState :=
  StatusPart.all.foldl (StatusPart.write arch mask v) σ

theorem fpscr_congr
    (h : ∀ p ∈ StatusPart.all, σ' (specialOffset arch p.slot) = σ (specialOffset arch p.slot)) :
    σ'.fpscr arch = σ.fpscr arch := by
  simp only [fpscr, StatusPart.read_congr (h rounding (by simp [all])),
    StatusPart.read_congr (h outcome (by simp [all])),
    StatusPart.read_congr (h decimal (by simp [all]))]

theorem withFpscr_apply {o : Nat} (ho : ∀ p ∈ StatusPart.all, o ≠ specialOffset arch p.slot) :
    σ.withFpscr arch mask v o = σ o := by
  simp only [StatusPart.all, List.forall_mem_cons] at ho
  obtain ⟨hrounding, houtcome, hdecimal, -⟩ := ho
  simp only [withFpscr, StatusPart.all, List.foldl_cons, List.foldl_nil,
    StatusPart.write_apply hrounding, StatusPart.write_apply houtcome,
    StatusPart.write_apply hdecimal]

/-- The bits of the register that are kept. -/
def statusBits : BitVec 64 := rounding.region ||| outcome.region ||| decimal.region

/-- A part of the register is what the part holds. -/
theorem fpscr_and_region {p : StatusPart} (hp : p ∈ StatusPart.all) :
    σ.fpscr arch &&& p.region = p.read arch σ := by
  simp only [fpscr, StatusPart.read_eq]
  obtain ⟨hrounding, houtcome, hdecimal⟩ := and_disjoint_groups
    (r := rounding.region) (s := outcome.region) (t := decimal.region)
    (by decide) (by decide) (by decide)
  simp only [StatusPart.all, List.mem_cons, List.not_mem_nil, or_false] at hp
  obtain rfl | rfl | rfl := hp
  · exact hrounding
  · exact houtcome
  · exact hdecimal

/-- Each part is written, and the others do not disturb it. -/
theorem read_withFpscr {p : StatusPart} (hp : p ∈ StatusPart.all) :
    p.read arch (σ.withFpscr arch mask v) =
      if mask &&& p.region = 0 then p.read arch σ else v &&& p.region := by
  simp only [StatusPart.all, List.mem_cons, List.not_mem_nil, or_false] at hp
  simp only [withFpscr, StatusPart.all, List.foldl_cons, List.foldl_nil]
  obtain rfl | rfl | rfl := hp
  · rw [StatusPart.read_write_of_ne (by decide), StatusPart.read_write_of_ne (by decide),
      StatusPart.read_write]
  · rw [StatusPart.read_write_of_ne (by decide), StatusPart.read_write,
      StatusPart.read_write_of_ne (by decide)]
  · rw [StatusPart.read_write, StatusPart.read_write_of_ne (by decide),
      StatusPart.read_write_of_ne (by decide)]

/-- A write of the merged register is a merge of the register. -/
theorem fpscr_withFpscr (new : BitVec 64) :
    (σ.withFpscr arch mask (mergeBits mask (σ.fpscr arch) new)).fpscr arch =
      mergeBits mask (σ.fpscr arch) new &&& statusBits := by
  have hpart {p : StatusPart} (hp : p ∈ StatusPart.all) :
      p.read arch (σ.withFpscr arch mask (mergeBits mask (σ.fpscr arch) new)) =
        mergeBits mask (σ.fpscr arch) new &&& p.region := by
    rw [read_withFpscr hp]
    split
    next hclear => rw [mergeBits_and hclear, fpscr_and_region hp]
    next => rfl
  rw [fpscr, hpart (by simp [all]), hpart (by simp [all]), hpart (by simp [all]), statusBits,
    BitVec.and_or_distrib_left, BitVec.and_or_distrib_left]

end GuestState

/-! ## Numbering from the most significant bit -/

/-- All bits of the fields that are chosen, and no others. -/
def chosenFields (chosen : Nat → Bool) : BitVec 64 :=
  CrWord.ofFields (fun k => if chosen k then 0xF else 0) 16

theorem getLsbD_chosenFields (chosen : Nat → Bool) {k : Nat} (hk : k < 64) :
    (chosenFields chosen).getLsbD k = chosen (15 - k / 4) := by
  have hone : ∀ j < 4, (0xF : BitVec 4).getLsbD j = true := by decide
  refine (CrWord.getLsbD_ofFields _ (n := 16) hk).trans ?_
  change BitVec.getLsbD (if chosen (15 - k / 4) then 0xF else 0) (k % 4) = _
  cases chosen (15 - k / 4) with
  | true => exact hone _ (Nat.mod_lt _ (by decide))
  | false => exact BitVec.getLsbD_zero

/-- Bits 29 to 31, 47 to 51 and 62 to 63 are kept. -/
theorem getMsbD_statusBits : ∀ b < 64, GuestState.statusBits.getMsbD b =
    decide (29 ≤ b ∧ b ≤ 31 ∨ 47 ≤ b ∧ b ≤ 51 ∨ 62 ≤ b) := by
  decide

/-! ## Floating-point registers as bit patterns -/

/-- Where a floating-point register is stored. -/
def Layout.fprOffset (arch : Arch) (host : ByteOrder) (i : Nat) : Nat :=
  vsrBase arch + i * 16 + GuestState.highHalf host

theorem Layout.fpr_eq (arch : Arch) (host : ByteOrder) {i : Nat} (hi : i < 32) :
    fpr arch i host = .ok ⟨fprOffset arch host i, .f64⟩ :=
  Reg.locate_eq arch host (.fpr ⟨i, hi⟩)

/-- The bytes of a floating-point register. -/
def Layout.InFpr (arch : Arch) (host : ByteOrder) (i o : Nat) : Prop :=
  fprOffset arch host i ≤ o ∧ o < fprOffset arch host i + Ty.f64.bytes

namespace GuestState

variable {arch : Arch} {host order : ByteOrder} {σ σ' : GuestState} {i k o : Nat} {x : BitVec 64}

/-- The bits of a floating-point register. -/
def fpr (arch : Arch) (host order : ByteOrder) (σ : GuestState) (i : Nat) : BitVec 64 :=
  σ.read order (Layout.fprOffset arch host i) .f64

/-- The state with other bits in a floating-point register. -/
def withFpr (arch : Arch) (host order : ByteOrder) (σ : GuestState) (i : Nat) (x : BitVec 64) :
    GuestState :=
  σ.write order (Layout.fprOffset arch host i) ⟨.f64, x⟩

theorem fpr_withFpr : (σ.withFpr arch host order i x).fpr arch host order i = x :=
  read_write (v := ⟨.f64, x⟩) Ty.noConfusion

theorem fpr_withFpr_of_ne (h : i ≠ k) :
    (σ.withFpr arch host order i x).fpr arch host order k = σ.fpr arch host order k := by
  refine read_write_disjoint (v := ⟨.f64, x⟩) ?_
  have hdouble : Ty.f64.bytes = 8 := rfl
  simp only [Layout.fprOffset]
  omega

theorem withFpr_apply (ho : ¬Layout.InFpr arch host i o) :
    σ.withFpr arch host order i x o = σ o := if_neg ho

theorem fpr_congr (h : ∀ o, Layout.InFpr arch host i o → σ' o = σ o) :
    σ'.fpr arch host order i = σ.fpr arch host order i :=
  read_congr fun o hle hlt => h o ⟨hle, hlt⟩

/-- Floating-point registers end before the special slots begin. -/
theorem fpr_below (hi : i < 32) (ho : Layout.InFpr arch host i o) (slot : SpecialSlot) :
    o < specialOffset arch slot := by
  have hbase := Layout.specialBase_eq arch
  have hslot := (Layout.special_between arch slot).low_le
  have hhalf : highHalf host ≤ 8 := by cases host <;> decide
  have hdouble : Ty.f64.bytes = 8 := rfl
  simp only [Layout.InFpr, Layout.fprOffset] at ho
  simp only at hslot
  omega

end GuestState

end PowerLift
