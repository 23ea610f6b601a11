import Mathlib.Data.Fintype.OfMap
import PowerLift.Family.System
import PowerLift.Proofs.Access
import PowerLift.Proofs.IntegerResult

/-!
# Special-purpose registers

Programs name special-purpose registers by numbers. Some have the width of a word, some a width of
their own, one is put together from four bytes, and one is the upper half of another. A register
reads as what it keeps of a value that was written, and what does not share its storage stays. The
registers that are read and those that are written are found in two tables; both agree with the
registers as they are told here.
-/

namespace PowerLift

open Layout (specialOffset)
open PowerLift.System (Special Source source? destination?)

/-! ## Slots -/

/-- The bytes of a slot. -/
def Layout.InSlot (arch : Arch) (s : SpecialSlot) (o : Nat) : Prop :=
  specialOffset arch s ≤ o ∧ o < specialOffset arch s + (s.ty arch).bytes

namespace GuestState

variable {arch : Arch} {order : ByteOrder} {σ : GuestState} {s s' : SpecialSlot}

/-- What a slot holds. -/
def held (arch : Arch) (order : ByteOrder) (σ : GuestState) (s : SpecialSlot) :
    BitVec (s.ty arch).bits :=
  σ.read order (specialOffset arch s) (s.ty arch)

/-- The state in which a slot holds something else. -/
def holding (arch : Arch) (order : ByteOrder) (σ : GuestState) (s : SpecialSlot)
    (x : BitVec (s.ty arch).bits) : GuestState :=
  σ.write order (specialOffset arch s) ⟨s.ty arch, x⟩

theorem held_holding (x : BitVec (s.ty arch).bits) :
    (σ.holding arch order s x).held arch order s = x :=
  read_write (v := ⟨s.ty arch, x⟩) (Cell.ty_ne_i1 arch (.special s))

theorem holding_apply {o : Nat} (ho : ¬Layout.InSlot arch s o) (x : BitVec (s.ty arch).bits) :
    σ.holding arch order s x o = σ o := if_neg ho

/-- What a slot holds is in its bytes. -/
theorem held_congr {σ' : GuestState} (h : ∀ o, Layout.InSlot arch s o → σ' o = σ o) :
    σ'.held arch order s = σ.held arch order s :=
  read_congr fun o hle hlt => h o ⟨hle, hlt⟩

end GuestState

theorem Layout.InSlot.ne {arch : Arch} {s s' : SpecialSlot} {o : Nat} (h : InSlot arch s o)
    (hne : s ≠ s') : ¬InSlot arch s' o := by
  have hdisjoint := special_disjoint arch hne
  unfold InSlot at *
  omega

theorem Layout.inSlot_offset (arch : Arch) (s : SpecialSlot) :
    InSlot arch s (specialOffset arch s) :=
  ⟨Nat.le_refl _, Nat.lt_add_of_pos_right (bytes_pos arch s)⟩

/-! ## Bits in bytes -/

/-- Bits that are moved to a byte, masked there and moved back are those under the mask. -/
theorem masked_in_place {n : Nat} (v : BitVec n) (keep : BitVec 8) (k : Nat) :
    ((v >>> k).setWidth 8 &&& keep).setWidth n <<< k = v &&& keep.setWidth n <<< k := by
  apply BitVec.eq_of_getLsbD_eq
  intro i hi
  simp only [BitVec.getLsbD_and, BitVec.getLsbD_shiftLeft, BitVec.getLsbD_setWidth,
    BitVec.getLsbD_ushiftRight]
  by_cases hk : i < k
  · simp [hk]
  · have hkeep : keep.getLsbD (i - k) = (decide (i - k < 8) && keep.getLsbD (i - k)) := by
      by_cases hbyte : i - k < 8
      · simp [hbyte]
      · simp [hbyte, BitVec.getLsbD_of_ge keep (i - k) (by omega)]
    rw [show k + (i - k) = i by omega, hkeep]
    grind

/-! ## The exception register -/

/-- The slots of the exception register. -/
def SpecialSlot.ofXer : List SpecialSlot := [xerSo, xerOv, xerCa, xerBc]

namespace GuestState

variable {arch : Arch} {σ σ' : GuestState}

/-- The exception register, put together from its flags and its count. -/
def xer (arch : Arch) (σ : GuestState) : BitVec 32 :=
  let bits (s : SpecialSlot) (mask : BitVec 8) : BitVec 32 :=
    (σ (specialOffset arch s) &&& mask).setWidth 32
  bits .xerSo 1 <<< 31 ||| bits .xerOv 1 <<< 30 ||| (bits .xerCa 1 <<< 29 ||| bits .xerBc 0x7F)

/-- The exception register taken apart. -/
def withXer (arch : Arch) (σ : GuestState) (v : BitVec 32) : GuestState :=
  let put (s : SpecialSlot) (k : Nat) (mask : BitVec 8) (σ : GuestState) : GuestState :=
    Function.update σ (specialOffset arch s) ((v >>> k).setWidth 8 &&& mask)
  put .xerBc 0 0x7F (put .xerCa 29 1 (put .xerOv 30 1 (put .xerSo 31 1 σ)))

theorem withXer_apply {o : Nat} (ho : ∀ s ∈ SpecialSlot.ofXer, o ≠ specialOffset arch s)
    (v : BitVec 32) : σ.withXer arch v o = σ o := by
  simp only [SpecialSlot.ofXer, List.forall_mem_cons] at ho
  obtain ⟨hso, hov, hca, hbc, -⟩ := ho
  simp only [withXer, Function.update_of_ne hso, Function.update_of_ne hov,
    Function.update_of_ne hca, Function.update_of_ne hbc]

theorem xer_congr
    (h : ∀ s ∈ SpecialSlot.ofXer, σ' (specialOffset arch s) = σ (specialOffset arch s)) :
    σ'.xer arch = σ.xer arch := by
  simp only [SpecialSlot.ofXer, List.forall_mem_cons] at h
  simp only [xer, h]

/-- Three flags and seven bits of the count are kept. -/
theorem xer_withXer (v : BitVec 32) : (σ.withXer arch v).xer arch = v &&& 0xE000007F := by
  have hne {s s' : SpecialSlot} (h : s ≠ s') : specialOffset arch s ≠ specialOffset arch s' :=
    special_ne h
  have hso : σ.withXer arch v (specialOffset arch .xerSo) = (v >>> 31).setWidth 8 &&& 1 := by
    simp [withXer, hne]
  have hov : σ.withXer arch v (specialOffset arch .xerOv) = (v >>> 30).setWidth 8 &&& 1 := by
    simp [withXer, hne]
  have hca : σ.withXer arch v (specialOffset arch .xerCa) = (v >>> 29).setWidth 8 &&& 1 := by
    simp [withXer, hne]
  have hbc : σ.withXer arch v (specialOffset arch .xerBc) = v.setWidth 8 &&& 0x7F := by
    simp [withXer]
  have hflag (k : Nat) : (((v >>> k).setWidth 8 &&& 1 &&& 1 : BitVec 8).setWidth 32) <<< k =
      v &&& (1 : BitVec 8).setWidth 32 <<< k := by
    rw [BitVec.and_assoc, BitVec.and_self, masked_in_place]
  have hcount : ((v.setWidth 8 &&& 0x7F &&& 0x7F : BitVec 8).setWidth 32) =
      v &&& (0x7F : BitVec 8).setWidth 32 := by
    simpa [BitVec.and_assoc] using masked_in_place v 0x7F 0
  simp only [xer, hso, hov, hca, hbc, hcount, hflag, ← BitVec.and_or_distrib_left]
  rfl

end GuestState

/-! ## What is kept where -/

/-- Where the bits of a register are kept. -/
inductive Keeping where
  /-- The four bytes of the exception register. -/
  | exception
  | whole (s : SpecialSlot)
  | upper (s : SpecialSlot)
  /-- The time base, or its upper half, is not part of the guest state. -/
  | clock (upper : Bool)

namespace Keeping

variable {arch : Arch} {order : ByteOrder} {σ σ' : GuestState} {k k' : Keeping}

/-- The slots of what is kept. -/
def slots : Keeping → List SpecialSlot
  | .exception => SpecialSlot.ofXer
  | .whole s | .upper s => [s]
  | .clock _ => []

/-- What is read from the guest state. -/
def value (arch : Arch) (order : ByteOrder) (σ : GuestState) : Keeping → BitVec arch.word.ty.bits
  | .exception => (σ.xer arch).setWidth _
  | .whole s => (σ.held arch order s).setWidth _
  | .upper s => (σ.held arch order s >>> 32).setWidth _
  | .clock _ => 0

/-- The state behind a write. -/
def written (arch : Arch) (order : ByteOrder) (σ : GuestState) (x : BitVec arch.word.ty.bits) :
    Keeping → GuestState
  | .exception => σ.withXer arch (x.setWidth 32)
  | .whole s => σ.holding arch order s (x.setWidth _)
  | .upper s =>
      let low : BitVec 32 := (σ.held arch order s).setWidth 32
      σ.holding arch order s ((x.setWidth 32 ++ low).setWidth _)
  | .clock _ => σ

/-- What is kept is read from its slots. -/
theorem value_congr (h : ∀ s ∈ k.slots, ∀ o, Layout.InSlot arch s o → σ' o = σ o) :
    k.value arch order σ' = k.value arch order σ := by
  cases k with
  | exception =>
      refine congrArg (BitVec.setWidth _) (GuestState.xer_congr fun s hs => ?_)
      exact h s hs _ (Layout.inSlot_offset arch s)
  | clock => rfl
  | whole s | upper s => simp only [value, GuestState.held_congr (h s (by simp [slots]))]

/-- What is kept is written in its slots. -/
theorem written_apply {o : Nat} (ho : ∀ s ∈ k.slots, ¬Layout.InSlot arch s o)
    (x : BitVec arch.word.ty.bits) : k.written arch order σ x o = σ o := by
  cases k with
  | exception =>
      refine GuestState.withXer_apply (fun s hs heq => ?_) _
      exact ho s hs (heq ▸ Layout.inSlot_offset arch s)
  | clock => rfl
  | whole s | upper s => exact GuestState.holding_apply (ho s (by simp [slots])) _

/-- What shares no slot is not disturbed. -/
theorem value_written_of_apart (h : ∀ s ∈ k.slots, s ∉ k'.slots) (x : BitVec arch.word.ty.bits) :
    k'.value arch order (k.written arch order σ x) = k'.value arch order σ := by
  refine value_congr fun s hs o ho => written_apply (fun s' hs' => ho.ne ?_) x
  rintro rfl
  exact h s hs' hs

theorem append_shiftRight (x y : BitVec 32) : (x ++ y) >>> 32 = x.setWidth 64 := by
  apply BitVec.eq_of_getLsbD_eq
  intro i hi
  rw [BitVec.getLsbD_ushiftRight, BitVec.getLsbD_append, if_neg (by omega),
    Nat.add_sub_cancel_left, BitVec.getLsbD_setWidth, decide_eq_true hi, Bool.true_and]

/-- A slot keeps as much of a value as it is wide. -/
theorem whole_value_written {s : SpecialSlot} (x : BitVec arch.word.ty.bits) :
    (whole s).value arch order ((whole s).written arch order σ x) =
      (x.setWidth (s.ty arch).bits).setWidth _ := by
  simp only [value, written, GuestState.held_holding]

/-- The upper half of a doubleword keeps a word. -/
theorem upper_value_written {s : SpecialSlot} (hs : (s.ty arch).bits = 64)
    (x : BitVec arch.word.ty.bits) :
    (upper s).value arch order ((upper s).written arch order σ x) =
      (x.setWidth 32).setWidth _ := by
  simp only [value, written, GuestState.held_holding]
  generalize (σ.held arch order s).setWidth 32 = low
  rw [hs, BitVec.setWidth_eq, append_shiftRight, BitVec.setWidth_setWidth (by omega)]

end Keeping

/-! ## The registers -/

/-- The special-purpose registers that programs may name. -/
inductive SpecialRegister where
  | xer | lr | ctr | tar | sprg3 | vrsave | pspb | texasru | dscr | tfhar | tfiar | texasr | ppr
  /-- The upper half of the program priority register. -/
  | ppr32
  | timeBase
  /-- The upper half of the time base. -/
  | timeBaseUpper
  deriving DecidableEq

namespace SpecialRegister

variable {arch : Arch} {order : ByteOrder} {σ : GuestState} {r r' : SpecialRegister} {n : Nat}

/-- The number by which a program names a register. -/
def number : SpecialRegister → Nat
  | xer => 1
  | dscr => 3
  | lr => 8
  | ctr => 9
  | tfhar => 128
  | tfiar => 129
  | texasr => 130
  | texasru => 131
  | pspb => 159
  | vrsave => 256
  | sprg3 => 259
  | timeBase => 268
  | timeBaseUpper => 269
  | tar => 815
  | ppr => 896
  | ppr32 => 898

/-- How many bits a register has. -/
def width (arch : Arch) : SpecialRegister → Nat
  | lr | ctr | tar | sprg3 => if arch = .ppc64 then 64 else 32
  | xer | vrsave | pspb | texasru | ppr32 | timeBaseUpper => 32
  | dscr | tfhar | tfiar | texasr | ppr | timeBase => 64

/-- Whether a program may write a register. -/
def isWritable : SpecialRegister → Bool
  | sprg3 | timeBase | timeBaseUpper => false
  | _ => true

/-- Whether a register is part of the guest state. -/
def isStored : SpecialRegister → Bool
  | timeBase | timeBaseUpper => false
  | _ => true

/-- Where a register is kept. -/
def keeping : SpecialRegister → Keeping
  | xer => .exception
  | dscr => .whole .dscr
  | lr => .whole .lr
  | ctr => .whole .ctr
  | tfhar => .whole .tfhar
  | tfiar => .whole .tfiar
  | texasr => .whole .texasr
  | texasru => .whole .texasru
  | pspb => .whole .pspb
  | vrsave => .whole .vrsave
  | sprg3 => .whole .sprg3Ro
  | timeBase => .clock false
  | timeBaseUpper => .clock true
  | tar => .whole .tar
  | ppr => .whole .ppr
  | ppr32 => .upper .ppr

/-- What a register keeps of a value: as much as it is wide, and of the exception register the three
flags and the count. -/
def kept {n : Nat} (arch : Arch) (x : BitVec n) : SpecialRegister → BitVec n
  | xer => (x.setWidth 32 &&& 0xE000007F).setWidth n
  | r => (x.setWidth (r.width arch)).setWidth n

instance : Fintype SpecialRegister :=
  .ofList [xer, lr, ctr, tar, sprg3, vrsave, pspb, texasru, dscr, tfhar, tfiar, texasr, ppr, ppr32,
    timeBase, timeBaseUpper] fun r => by cases r <;> decide

theorem number_injective : Function.Injective number := by
  unfold Function.Injective
  decide

theorem isStored_of_isWritable (h : r.isWritable = true) : r.isStored = true := by
  cases r <;> first | rfl | cases h

/-- A slot is as wide as the register that it keeps. -/
theorem bits_slot {s : SpecialSlot} (h : r.keeping = .whole s) :
    (s.ty arch).bits = r.width arch := by
  cases r <;> cases h <;> cases arch <;> rfl

/-- Registers share a slot only if they are one register, whole and in part. -/
theorem apart (hne : r' ≠ r) (halias : ¬(r = ppr ∧ r' = ppr32))
    (halias' : ¬(r = ppr32 ∧ r' = ppr)) : ∀ s ∈ r.keeping.slots, s ∉ r'.keeping.slots := by
  revert r r'
  decide

/-- A register reads as what it keeps of the value that was written. -/
theorem value_written (hwritable : r.isWritable = true) (x : BitVec arch.word.ty.bits) :
    r.keeping.value arch order (r.keeping.written arch order σ x) = r.kept arch x := by
  cases hkeeping : r.keeping with
  | exception =>
      obtain rfl : r = xer := by cases r <;> first | rfl | cases hkeeping
      exact congrArg (BitVec.setWidth _) (GuestState.xer_withXer _)
  | clock => cases r <;> cases hkeeping <;> cases hwritable
  | upper s =>
      obtain ⟨rfl, rfl⟩ : r = ppr32 ∧ s = .ppr := by
        cases r <;> first | exact ⟨rfl, (Keeping.upper.inj hkeeping).symm⟩ | cases hkeeping
      exact Keeping.upper_value_written rfl x
  | whole s =>
      have hne : r ≠ xer := by
        rintro rfl
        cases hkeeping
      have hkept : r.kept arch x = (x.setWidth (r.width arch)).setWidth _ := by
        cases r <;> first | rfl | exact absurd rfl hne
      rw [Keeping.whole_value_written, bits_slot hkeeping, hkept]

/-- The upper half of the priority register is written, and its lower half stays. -/
theorem ppr_written (x : BitVec arch.word.ty.bits) :
    (ppr32.keeping.written arch order σ x).held arch order .ppr =
      x.setWidth 32 ++ (σ.held arch order .ppr).setWidth 32 :=
  GuestState.held_holding _ |>.trans (BitVec.setWidth_eq _)

/-- A register that is wider than a word has no upper half behind a write. -/
theorem upper_half_written (hword : arch = .ppc32) (hwide : r.width arch = 64)
    (hwritable : r.isWritable = true) (x : BitVec arch.word.ty.bits) :
    ∀ s ∈ r.keeping.slots,
      ((r.keeping.written arch order σ x).held arch order s).extractLsb' 32 32 = 0 := by
  subst hword
  obtain ⟨s, hs⟩ : ∃ s, r.keeping = .whole s := by
    cases r <;>
      first | exact ⟨_, rfl⟩ | exact absurd hwide (by decide) | exact absurd hwritable (by decide)
  rw [hs]
  intro s' hs'
  obtain rfl := List.mem_singleton.mp hs'
  simp only [Keeping.written, GuestState.held_holding]
  apply BitVec.eq_of_getLsbD_eq
  intro i hi
  rw [BitVec.getLsbD_extractLsb', BitVec.getLsbD_setWidth, x.getLsbD_of_ge _ (Nat.le_add_right 32 i)]
  simp

end SpecialRegister

/-! ## The tables -/

namespace System

variable {arch : Arch} {n : Nat} {x : Special}

/-- Where the code keeps a register. -/
def Special.keeping : Special → Keeping
  | .xer => .exception
  | .word s | .narrow s | .wide s => .whole s
  | .upper s => .upper s

/-- Where the code reads a register. -/
def Source.keeping : Source → Keeping
  | .stored r => r.keeping
  | .timeBase upper => .clock upper

/-- A register is read where it is kept. -/
theorem exists_source? (r : SpecialRegister) :
    ∃ y, source? r.number = some y ∧ y.keeping = r.keeping := by
  cases r <;> exact ⟨_, rfl, rfl⟩

/-- A register that can be written is written where it is kept. -/
theorem exists_destination? {r : SpecialRegister} (hwritable : r.isWritable = true) :
    ∃ x, destination? r.number = some x ∧ x.keeping = r.keeping := by
  cases r <;> first | exact ⟨_, rfl, rfl⟩ | cases hwritable

/-- The numbers that can be read name registers. -/
theorem exists_of_source? {y : Source} (h : source? n = some y) :
    ∃ r : SpecialRegister, r.number = n ∧ r.keeping = y.keeping := by
  obtain ⟨r, rfl⟩ : ∃ r : SpecialRegister, r.number = n := by
    unfold source? at h
    split at h <;> first | decide | cases h
  obtain ⟨y', hy', hkeeping⟩ := exists_source? r
  obtain rfl := Option.some.inj (hy'.symm.trans h)
  exact ⟨r, rfl, hkeeping.symm⟩

/-- What can be written can be read at the same place. -/
theorem source?_of_destination? (h : destination? n = some x) : source? n = some (.stored x) := by
  unfold destination? at h
  split at h <;> cases h <;> rfl

/-- The numbers that can be written name registers that can be written. -/
theorem exists_of_destination? (h : destination? n = some x) :
    ∃ r : SpecialRegister, r.number = n ∧ r.isWritable = true ∧ r.keeping = x.keeping := by
  obtain ⟨r, rfl, hkeeping⟩ := exists_of_source? (source?_of_destination? h)
  have hwritable : r.isWritable = true := by cases r <;> first | rfl | cases h
  exact ⟨r, rfl, hwritable, hkeeping⟩

/-- The types of slots suit the registers that are stored there. -/
def Special.Fits (arch : Arch) : Special → Prop
  | .word s => s.ty arch = arch.word.ty
  | .narrow s => s.ty arch = .i32
  | .wide s | .upper s => s.ty arch = .i64
  | .xer => True

theorem Special.fits_of_source? (arch : Arch) (h : source? n = some (.stored x)) :
    x.Fits arch := by
  unfold source? at h
  split at h <;> cases h <;> first | trivial | exact Arch.wordTy_eq arch

end System

end PowerLift
