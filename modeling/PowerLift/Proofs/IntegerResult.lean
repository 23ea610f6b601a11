import PowerLift.Proofs.Access
import PowerLift.Proofs.ConditionalStore
import PowerLift.Proofs.IntegerOperators

/-!
# What integer instructions leave

An integer instruction leaves a result in a general register, and it may leave a carry, an
overflow and a comparison of its result with zero. Everything else in the guest state stays.
-/

namespace PowerLift

open Layout (specialOffset crBase)

/-- The result of an integer instruction, the flags that it writes, and whether it compares its
result. -/
structure Computed (n : Nat) where
  result : BitVec n
  carry : Option Bool := none
  overflow : Option Bool := none
  record : Bool := false
  deriving DecidableEq

/-- A flag as it is kept in a byte. -/
def flagByte (b : Bool) : BitVec 8 := (BitVec.ofBool b).setWidth 8

/-- A condition field that tells the sign of a number, with the summary overflow. -/
def signField {n : Nat} (x : BitVec n) (so : Bool) : BitVec 4 :=
  BitVec.ofBool (x.toInt < 0) ++ BitVec.ofBool (0 < x.toInt) ++ BitVec.ofBool (x == 0) ++
    BitVec.ofBool so

namespace GuestState

variable {arch : Arch} {order : ByteOrder} {σ σ' : GuestState} {i : Nat}

/-- The value of a general register, at the width of a word. -/
def operand (arch : Arch) (order : ByteOrder) (σ : GuestState) (i : Nat) :
    BitVec arch.word.ty.bits :=
  σ.read order (i * arch.wordBytes) arch.word.ty

/-- The carry. -/
def carry (arch : Arch) (σ : GuestState) : Bool := (σ (specialOffset arch .xerCa)).getLsbD 0

/-- The state `σ'` is `σ` with what was computed in general register `i` and in the flags. -/
structure Shows (arch : Arch) (order : ByteOrder) (i : Nat) (out : Computed arch.word.ty.bits)
    (σ σ' : GuestState) : Prop where
  result : σ'.operand arch order i = out.result
  carry : ∀ b, out.carry = some b → σ' (specialOffset arch .xerCa) = flagByte b
  overflow : ∀ b, out.overflow = some b → σ' (specialOffset arch .xerOv) = flagByte b
  summary : ∀ b, out.overflow = some b →
    σ' (specialOffset arch .xerSo) = flagByte (σ.summaryOverflow arch || b)
  field : out.record = true →
    σ'.crField arch 0 = signField out.result (σ'.summaryOverflow arch)
  others : ∀ o, ¬(i * arch.wordBytes ≤ o ∧ o < i * arch.wordBytes + arch.wordBytes) →
    ¬(out.carry.isSome = true ∧ o = specialOffset arch .xerCa) →
    ¬(out.overflow.isSome = true ∧
      (o = specialOffset arch .xerOv ∨ o = specialOffset arch .xerSo)) →
    ¬(out.record = true ∧ Layout.InField arch 0 o) → σ' o = σ o

/-! ## The writes one by one -/

/-- Another carry. -/
def withCarry (arch : Arch) (σ : GuestState) (b : Bool) : GuestState :=
  Function.update σ (specialOffset arch .xerCa) (flagByte b)

/-- Another overflow, which the summary overflow gathers. -/
def withOverflow (arch : Arch) (σ : GuestState) (b : Bool) : GuestState :=
  Function.update (Function.update σ (specialOffset arch .xerOv) (flagByte b))
    (specialOffset arch .xerSo) (flagByte (σ.summaryOverflow arch || b))

/-- The flags that an instruction writes. -/
def withFlags (arch : Arch) (σ : GuestState) (carry overflow : Option Bool) : GuestState :=
  let σ := carry.elim σ (σ.withCarry arch)
  overflow.elim σ (σ.withOverflow arch)

/-- Another value of a general register. -/
def withOperand (arch : Arch) (order : ByteOrder) (σ : GuestState) (i : Nat)
    (x : BitVec arch.word.ty.bits) : GuestState :=
  σ.write order (i * arch.wordBytes) ⟨arch.word.ty, x⟩

/-- A number compared with zero in condition field 0. -/
def compared (arch : Arch) (σ : GuestState) {n : Nat} (x : BitVec n) : GuestState :=
  σ.withCrBytes arch 0 (Interp.orderCode (x.toInt < 0) (0 < x.toInt))
    (σ (specialOffset arch .xerSo) &&& 1)

/-- The state behind an instruction. -/
def after (arch : Arch) (order : ByteOrder) (σ : GuestState) (i : Nat)
    (out : Computed arch.word.ty.bits) : GuestState :=
  let σ := (σ.withFlags arch out.carry out.overflow).withOperand arch order i out.result
  if out.record then σ.compared arch out.result else σ

theorem after_plain (x : BitVec arch.word.ty.bits) :
    σ.after arch order i { result := x } = σ.withOperand arch order i x := rfl

/-! ## Where the writes are -/

theorem wordBytes_eq (arch : Arch) : arch.word.ty.bytes = arch.wordBytes := by cases arch <;> rfl

theorem write_flag (o : Nat) (x : BitVec 8) :
    σ.write order o ⟨.i8, x⟩ = Function.update σ o x := by
  funext a
  rw [write_i8, Function.update_apply]

theorem withOperand_apply (x : BitVec arch.word.ty.bits) {o : Nat}
    (ho : ¬(i * arch.wordBytes ≤ o ∧ o < i * arch.wordBytes + arch.wordBytes)) :
    σ.withOperand arch order i x o = σ o := by
  rw [withOperand, write, if_neg]
  rwa [wordBytes_eq]

/-- Registers end before the flags begin. -/
theorem operand_below (arch : Arch) (hi : i < 32) (slot : SpecialSlot) :
    i * arch.wordBytes + arch.wordBytes ≤ specialOffset arch slot := by
  have hgpr : i * arch.wordBytes + arch.wordBytes ≤ 32 * arch.wordBytes := Layout.gpr_end hi
  have hvsr := Layout.gprs_below_vsrs arch
  have hbase := Layout.specialBase_eq arch
  have hslot := (Layout.special_between arch slot).low_le
  simp only at hslot
  omega

/-- Flags end before the condition fields begin. -/
theorem special_below (arch : Arch) (slot : SpecialSlot) :
    specialOffset arch slot < crBase arch := by
  have hslot := (Layout.special_between arch slot).le_high
  have hbytes := Layout.bytes_pos arch slot
  simp only at hslot
  omega

theorem special_ne {s s' : SpecialSlot} (hne : s ≠ s') :
    specialOffset arch s ≠ specialOffset arch s' := by
  have hdisjoint := Layout.special_disjoint arch hne
  have hs := Layout.bytes_pos arch s
  have hs' := Layout.bytes_pos arch s'
  omega

theorem withFlags_apply {carry overflow : Option Bool} {o : Nat}
    (hcarry : ¬(carry.isSome = true ∧ o = specialOffset arch .xerCa))
    (hoverflow : ¬(overflow.isSome = true ∧
      (o = specialOffset arch .xerOv ∨ o = specialOffset arch .xerSo))) :
    σ.withFlags arch carry overflow o = σ o := by
  cases carry <;> cases overflow <;>
    simp_all [withFlags, withCarry, withOverflow]

/-! ## What the writes leave -/

/-- The order of a number and zero, with the summary overflow, makes up a condition field. -/
theorem signField_eq {n : Nat} (x : BitVec n) (so : BitVec 8) :
    (((Interp.orderCode (x.toInt < 0) (0 < x.toInt) : BitVec 8) &&& 0xE) |||
      ((so &&& 1) &&& 1)).setWidth 4 = signField x (so.getLsbD 0) := by
  have hzero : (x == 0) = (!decide (x.toInt < 0) && !decide (0 < x.toInt)) := by
    rw [Bool.eq_iff_iff]
    simp only [beq_iff_eq, Bool.and_eq_true, Bool.not_eq_true', decide_eq_false_iff_not,
      ← BitVec.toInt_inj, BitVec.ofNat_eq_ofNat, BitVec.toInt_zero]
    omega
  rw [signField, hzero]
  have hnot : ¬(x.toInt < 0 ∧ 0 < x.toInt) := by omega
  by_cases hless : x.toInt < 0 <;> by_cases hgreater : 0 < x.toInt <;>
    simp only [hless, hgreater, decide_true, decide_false]
  · exact absurd ⟨hless, hgreater⟩ hnot
  all_goals
    revert so
    decide

theorem compared_apply {n : Nat} (x : BitVec n) {o : Nat} (ho : ¬Layout.InField arch 0 o) :
    σ.compared arch x o = σ o := by
  obtain ⟨hhi, hlo⟩ := not_or.mp ho
  simp only [compared, withCrBytes, hhi, hlo, if_false]

theorem special_not_inField (slot : SpecialSlot) :
    ¬Layout.InField arch 0 (specialOffset arch slot) := by
  have hbelow := special_below arch slot
  unfold Layout.InField
  omega

theorem operand_not_inField (hi : i < 32) {o : Nat}
    (ho : o < i * arch.wordBytes + arch.wordBytes) : ¬Layout.InField arch 0 o := by
  have hbelow := operand_below arch hi .xerCa
  have hspecial := special_below arch .xerCa
  unfold Layout.InField
  omega

/-- Where a result is written does not matter for its comparison. -/
theorem compared_withOperand (hi : i < 32) {n : Nat} (x : BitVec n) (y : BitVec arch.word.ty.bits) :
    (σ.compared arch x).withOperand arch order i y =
      (σ.withOperand arch order i y).compared arch x := by
  have hso : σ.withOperand arch order i y (specialOffset arch .xerSo) =
      σ (specialOffset arch .xerSo) := by
    have hbelow := operand_below arch hi .xerSo
    exact withOperand_apply y (by omega)
  funext o
  by_cases ho : i * arch.wordBytes ≤ o ∧ o < i * arch.wordBytes + arch.wordBytes
  · rw [compared_apply x (operand_not_inField hi ho.2)]
    simp only [withOperand, write, wordBytes_eq, if_pos ho]
  · rw [withOperand_apply y ho]
    simp only [compared, withCrBytes, hso, withOperand_apply y ho]

variable {out : Computed arch.word.ty.bits}

/-- Bytes that are neither in the target nor in the condition field. -/
theorem after_apply {o : Nat}
    (hgpr : ¬(i * arch.wordBytes ≤ o ∧ o < i * arch.wordBytes + arch.wordBytes))
    (hfield : ¬(out.record = true ∧ Layout.InField arch 0 o)) :
    σ.after arch order i out o = σ.withFlags arch out.carry out.overflow o := by
  unfold after
  split
  next hrecord => rw [compared_apply _ fun h => hfield ⟨hrecord, h⟩, withOperand_apply _ hgpr]
  next => exact withOperand_apply _ hgpr

theorem after_special (hi : i < 32) (slot : SpecialSlot) :
    σ.after arch order i out (specialOffset arch slot) =
      σ.withFlags arch out.carry out.overflow (specialOffset arch slot) := by
  have hbelow := operand_below arch hi slot
  exact after_apply (by omega) fun h => special_not_inField slot h.2

theorem operand_compared (hi : i < 32) {n : Nat} (x : BitVec n) :
    (σ.compared arch x).operand arch order i = σ.operand arch order i := by
  refine read_congr fun o _ hlt => ?_
  rw [wordBytes_eq] at hlt
  exact compared_apply _ (operand_not_inField hi hlt)

theorem operand_after (hi : i < 32) :
    (σ.after arch order i out).operand arch order i = out.result := by
  have hty : arch.word.ty ≠ .i1 := by cases arch <;> decide
  have hwritten (τ : GuestState) :
      (τ.withOperand arch order i out.result).operand arch order i = out.result :=
    read_write (v := ⟨arch.word.ty, out.result⟩) hty
  unfold after
  split
  · exact (operand_compared hi _).trans (hwritten _)
  · exact hwritten _

/-- What is computed shows in the state behind the instruction. -/
theorem shows_after (hi : i < 32) (out : Computed arch.word.ty.bits) :
    Shows arch order i out σ (σ.after arch order i out) where
  result := operand_after hi
  carry b hb := by
    rw [after_special hi, hb]
    cases out.overflow with
    | none => exact Function.update_self _ _ _
    | some v =>
        simp only [withFlags, Option.elim, withOverflow, withCarry]
        rw [Function.update_of_ne (special_ne (by decide)),
          Function.update_of_ne (special_ne (by decide)), Function.update_self]
  overflow b hb := by
    rw [after_special hi, hb]
    simp only [withFlags, Option.elim, withOverflow]
    rw [Function.update_of_ne (special_ne (by decide)), Function.update_self]
  summary b hb := by
    rw [after_special hi, hb]
    simp only [withFlags, Option.elim, withOverflow]
    rw [Function.update_self]
    cases out.carry with
    | none => rfl
    | some c =>
        simp only [summaryOverflow, withCarry]
        rw [Function.update_of_ne (special_ne (by decide))]
  field hrecord := by
    rw [summaryOverflow, after_special hi]
    have hbelow := operand_below arch hi .xerSo
    simp only [after, hrecord, if_true, compared, crField_withCrBytes]
    rw [withOperand_apply _ (by omega), signField_eq]
  others o hgpr hcarry hoverflow hfield :=
    (after_apply hgpr hfield).trans (withFlags_apply hcarry hoverflow)

end GuestState

end PowerLift
