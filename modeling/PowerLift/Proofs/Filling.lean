import PowerLift.Proofs.ByteMemory
import PowerLift.Proofs.IntegerResult

/-!
# Rows of registers and of places in memory

Some instructions fill a row of registers or of places in memory, one after the other. What a row
holds is kept as the next one is filled, because no two of them meet.
-/

namespace PowerLift

theorem Arch.word_bits (arch : Arch) : arch.word.ty.bits = 32 ∨ arch.word.ty.bits = 64 := by
  cases arch
  · exact .inl rfl
  · exact .inr rfl

theorem Arch.word_ty_ne_i1 (arch : Arch) : arch.word.ty ≠ .i1 := by
  cases arch <;> decide

namespace GuestState

variable {arch : Arch} {order : ByteOrder} {reg : Nat → Nat} {n m : Nat}
  {value value' : Nat → BitVec arch.word.ty.bits} {σ σ' : GuestState}

theorem operand_withOperand (i : Nat) (x : BitVec arch.word.ty.bits) :
    (σ.withOperand arch order i x).operand arch order i = x :=
  read_write (v := ⟨arch.word.ty, x⟩) arch.word_ty_ne_i1

theorem operand_withOperand_of_ne {i k : Nat} (h : i ≠ k) (x : BitVec arch.word.ty.bits) :
    (σ.withOperand arch order k x).operand arch order i = σ.operand arch order i := by
  refine read_write_disjoint ?_
  rw [wordBytes_eq]
  rcases Nat.lt_or_gt_of_ne h with hlt | hlt
  · have hrow := Nat.mul_le_mul_right arch.wordBytes (Nat.succ_le_of_lt hlt)
    rw [Nat.succ_mul] at hrow
    exact .inr hrow
  · have hrow := Nat.mul_le_mul_right arch.wordBytes (Nat.succ_le_of_lt hlt)
    rw [Nat.succ_mul] at hrow
    exact .inl hrow

/-- A byte of the state belongs to a register. -/
def InOperand (arch : Arch) (i o : Nat) : Prop :=
  i * arch.wordBytes ≤ o ∧ o < i * arch.wordBytes + arch.wordBytes

/-- The state `σ'` is `σ` with the first `n` registers of a row filled. -/
structure Filled (arch : Arch) (order : ByteOrder) (reg : Nat → Nat) (n : Nat)
    (value : Nat → BitVec arch.word.ty.bits) (σ σ' : GuestState) : Prop where
  words : ∀ j < n, σ'.operand arch order (reg j) = value j
  others : ∀ o, (∀ j < n, ¬InOperand arch (reg j) o) → σ' o = σ o

theorem filled_none : Filled arch order reg 0 value σ σ :=
  ⟨fun _ hj => absurd hj (Nat.not_lt_zero _), fun _ _ => rfl⟩

/-- The next register of a row is filled, or the last one once more. -/
theorem Filled.put (h : Filled arch order reg m value σ σ') (hm : m = n ∨ m = n + 1)
    (hreg : ∀ j < n, reg j ≠ reg n) (hvalue : ∀ j < n, value' j = value j) :
    Filled arch order reg (n + 1) value' σ (σ'.withOperand arch order (reg n) (value' n)) where
  words j hj := by
    rcases Nat.lt_succ_iff_lt_or_eq.mp hj with hlt | rfl
    · rw [operand_withOperand_of_ne (hreg j hlt), h.words j (by omega), hvalue j hlt]
    · exact operand_withOperand _ _
  others o ho := by
    rw [withOperand_apply _ (ho n (Nat.lt_succ_self n))]
    exact h.others o fun j hj => ho j (by omega)

end GuestState

namespace ByteMemory

variable {order : ByteOrder} {ty : Ty} {addr : Nat → BitVec 64} {n : Nat}
  {value : Nat → BitVec ty.bits} {bytes bytes' : ByteMemory} {a b : BitVec 64}

/-- No address is less than `k` behind both `a` and `b`. -/
def Apart (k : Nat) (a b : BitVec 64) : Prop := ∀ x, (x - a).toNat < k → ¬(x - b).toNat < k

theorem toNat_add_sub (a : BitVec 64) {i : Nat} (hi : i < 2 ^ 64) :
    (a + .ofNat 64 i - a).toNat = i := by
  rw [BitVec.add_comm, BitVec.add_sub_cancel, BitVec.toNat_ofNat, Nat.mod_eq_of_lt hi]

theorem read_byte : bytes.read order a .i8 = bytes a := by
  rw [read, GuestState.read_i8, BitVec.add_zero]

theorem read_write {v : Value} (hv : v.ty ≠ .i1) :
    (bytes.write order a v).read order a v.ty = v.bits := by
  refine read_eq_of_bytes hv fun i hi => ?_
  have hlt : i < 2 ^ 64 := by
    have : v.ty.bytes ≤ 16 := by cases v.ty <;> decide
    omega
  have hi' : (a + .ofNat 64 i - a).toNat < v.ty.bytes := by rwa [toNat_add_sub a hlt]
  rw [write_inside hi', toNat_add_sub a hlt]

theorem read_write_apart {v : Value} (hab : Apart v.ty.bytes a b) :
    (bytes.write order b v).read order a v.ty = bytes.read order a v.ty := by
  refine GuestState.read_congr fun i _ hi => ?_
  have hlt : i < 2 ^ 64 := by
    have : v.ty.bytes ≤ 16 := by cases v.ty <;> decide
    omega
  refine write_outside (hab _ ?_)
  rw [toNat_add_sub a hlt]
  omega

/-- The memory `bytes'` is `bytes` with the first `n` places of a row filled. -/
structure Filled (order : ByteOrder) (ty : Ty) (addr : Nat → BitVec 64) (n : Nat)
    (value : Nat → BitVec ty.bits) (bytes bytes' : ByteMemory) : Prop where
  words : ∀ j < n, bytes'.read order (addr j) ty = value j
  others : ∀ a, (∀ j < n, ¬(a - addr j).toNat < ty.bytes) → bytes' a = bytes a

theorem filled_none : Filled order ty addr 0 value bytes bytes :=
  ⟨fun _ hj => absurd hj (Nat.not_lt_zero _), fun _ _ => rfl⟩

theorem Filled.put (h : Filled order ty addr n value bytes bytes') (hty : ty ≠ .i1)
    (hapart : ∀ j < n, Apart ty.bytes (addr j) (addr n)) :
    Filled order ty addr (n + 1) value bytes (bytes'.write order (addr n) ⟨ty, value n⟩) where
  words j hj := by
    rcases Nat.lt_succ_iff_lt_or_eq.mp hj with hlt | rfl
    · exact (read_write_apart (v := ⟨ty, value n⟩) (hapart j hlt)).trans (h.words j hlt)
    · exact read_write (v := ⟨ty, value j⟩) hty
  others a ha := by
    rw [write_outside (v := ⟨ty, value n⟩) (ha n (Nat.lt_succ_self n))]
    exact h.others a fun j hj => ha j (by omega)

/-- Places in a row do not meet, though the row may wrap around at the width of a word. -/
theorem apart_row (arch : Arch) (a : BitVec arch.word.ty.bits) {k i j : Nat} (hij : i + k ≤ j)
    (hj : j + k ≤ 2 ^ 32) :
    Apart k ((a + .ofNat _ i).setWidth 64) ((a + .ofNat _ j).setWidth 64) := by
  have hbits := arch.word_bits
  revert a
  generalize arch.word.ty.bits = width at hbits
  intro a x hi hj
  simp only [BitVec.toNat_sub, BitVec.toNat_setWidth, BitVec.toNat_add, BitVec.toNat_ofNat] at hi hj
  rcases hbits with rfl | rfl <;> omega

end ByteMemory

end PowerLift
