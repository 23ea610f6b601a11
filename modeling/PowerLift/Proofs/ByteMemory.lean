import PowerLift.Proofs.Meaning
import PowerLift.Proofs.RegisterFile

/-!
# Memory in bytes

Where it matters which bytes an access reaches, memory is seen as a map from addresses to bytes, and
a value stands there in the byte order of the access. Addresses wrap around.
-/

namespace PowerLift

/-- The bytes at all addresses. -/
abbrev ByteMemory := BitVec 64 → BitVec 8

/-- The byte of a stored value at a distance from its address. -/
def Value.byteAt (v : Value) (order : ByteOrder) (i : Nat) : BitVec 8 :=
  v.bits.extractLsb' (8 * order.position v.ty.bytes i) 8

namespace ByteMemory

/-- The bits stored at an address. -/
def read (bytes : ByteMemory) (order : ByteOrder) (addr : BitVec 64) (ty : Ty) : BitVec ty.bits :=
  GuestState.read (fun i => bytes (addr + .ofNat 64 i)) order 0 ty

/-- Memory with a value stored at an address. -/
def write (bytes : ByteMemory) (order : ByteOrder) (addr : BitVec 64) (v : Value) : ByteMemory :=
  fun a => if (a - addr).toNat < v.ty.bytes then v.byteAt order (a - addr).toNat else bytes a

variable {bytes : ByteMemory} {order : ByteOrder} {addr a : BitVec 64}

theorem write_inside {v : Value} (h : (a - addr).toNat < v.ty.bytes) :
    bytes.write order addr v a = v.byteAt order (a - addr).toNat := if_pos h

theorem write_outside {v : Value} (h : ¬(a - addr).toNat < v.ty.bytes) :
    bytes.write order addr v a = bytes a := if_neg h

/-- What a value's bytes are is what is read. -/
theorem read_eq_of_bytes {v : Value} (hty : v.ty ≠ .i1)
    (h : ∀ i < v.ty.bytes, bytes (addr + .ofNat 64 i) = v.byteAt order i) :
    bytes.read order addr v.ty = v.bits := by
  refine GuestState.read_eq_of_bytes hty fun i hi => ?_
  have hlt := GuestState.position_lt order hi
  rw [Nat.zero_add, h _ hlt, Value.byteAt, GuestState.position_position order hi]

/-- Which addresses are less than `n` behind `addr + k`, and how far. -/
theorem toNat_sub_add (a addr : BitVec 64) {k n : Nat} (hkn : k + n ≤ 2 ^ 64) :
    ((a - (addr + .ofNat 64 k)).toNat < n ↔ k ≤ (a - addr).toNat ∧ (a - addr).toNat < k + n) ∧
      (k ≤ (a - addr).toNat → (a - (addr + .ofNat 64 k)).toNat = (a - addr).toNat - k) := by
  have hsub : a - (addr + .ofNat 64 k) = (a - addr) - .ofNat 64 k := by bv_omega
  have hlt := (a - addr).isLt
  rw [hsub, BitVec.toNat_sub, BitVec.toNat_ofNat]
  omega

theorem bytes_double : Ty.i64.bytes = 8 := rfl

theorem bytes_quad : Ty.i128.bytes = 16 := rfl

theorem bytes_vector : Ty.v128.bytes = 16 := rfl

/-- The bytes of a quadword are those of its halves. -/
theorem byteAt_high (hi lo : BitVec 64) {i : Nat} (hlt : i < 8) :
    (⟨.i128, hi ++ lo⟩ : Value).byteAt order (GuestState.highHalf order + i) =
      (⟨.i64, hi⟩ : Value).byteAt order i := by
  have hposition : order.position 16 (GuestState.highHalf order + i) = 8 + order.position 8 i := by
    cases order <;> simp [GuestState.highHalf, ByteOrder.position]
    omega
  have hextract : (hi ++ lo).extractLsb' (8 * order.position 16 (GuestState.highHalf order + i)) 8 =
      hi.extractLsb' (8 * order.position 8 i) 8 := by
    rw [hposition, BitVec.extractLsb'_append_eq_of_le (by omega)]
    congr 1
    omega
  simp only [Value.byteAt, bytes_double, bytes_quad]
  exact hextract

theorem byteAt_low (hi lo : BitVec 64) {i : Nat} (hlt : i < 8) :
    (⟨.i128, hi ++ lo⟩ : Value).byteAt order (8 - GuestState.highHalf order + i) =
      (⟨.i64, lo⟩ : Value).byteAt order i := by
  have hposition : order.position 16 (8 - GuestState.highHalf order + i) = order.position 8 i := by
    cases order <;> simp [GuestState.highHalf, ByteOrder.position]
    omega
  have hextract : (hi ++ lo).extractLsb'
      (8 * order.position 16 (8 - GuestState.highHalf order + i)) 8 =
        lo.extractLsb' (8 * order.position 8 i) 8 := by
    have hposition' := GuestState.position_lt order hlt
    rw [hposition, BitVec.extractLsb'_append_eq_of_add_le (by omega)]
  simp only [Value.byteAt, bytes_double, bytes_quad]
  exact hextract

/-- The halves of a quadword, each stored as a doubleword. -/
theorem write_halves (hi lo : BitVec 64) :
    (bytes.write order (addr + .ofNat 64 (GuestState.highHalf order)) ⟨.i64, hi⟩).write order
      (addr + .ofNat 64 (8 - GuestState.highHalf order)) ⟨.i64, lo⟩ =
      bytes.write order addr ⟨.i128, hi ++ lo⟩ := by
  have hhalf : GuestState.highHalf order = 0 ∨ GuestState.highHalf order = 8 := by
    cases order <;> simp [GuestState.highHalf]
  funext a
  have hhigh := toNat_sub_add a addr (k := GuestState.highHalf order) (n := 8) (by omega)
  have hlow := toNat_sub_add a addr (k := 8 - GuestState.highHalf order) (n := 8) (by omega)
  by_cases hinLow : (a - (addr + .ofNat 64 (8 - GuestState.highHalf order))).toNat < Ty.i64.bytes
  · rw [write_inside hinLow]
    rw [bytes_double] at hinLow
    rw [write_inside (by rw [bytes_quad]; omega), ← byteAt_low hi lo hinLow]
    congr 1
    omega
  · rw [write_outside hinLow]
    rw [bytes_double] at hinLow
    by_cases hinHigh : (a - (addr + .ofNat 64 (GuestState.highHalf order))).toNat < Ty.i64.bytes
    · rw [write_inside hinHigh]
      rw [bytes_double] at hinHigh
      rw [write_inside (by rw [bytes_quad]; omega), ← byteAt_high hi lo hinHigh]
      congr 1
      omega
    · rw [write_outside hinHigh]
      rw [bytes_double] at hinHigh
      rw [write_outside (by rw [bytes_quad]; omega)]

end ByteMemory

namespace Interp

variable {M : Type}

/-- Memory has the bytes that `view` shows: they are what loads read and stores write, and a
conditional store writes them if it says that it was carried out. -/
structure Bytewise (I : Interp M) (view : M → ByteMemory) : Prop where
  load (memory : M) (order : ByteOrder) (ty : Ty) (addr : Value) (hty : ty ≠ .i1) :
    I.load memory order ty addr = (view memory).read order addr.address ty
  store (memory : M) (order : ByteOrder) (addr v : Value) (hv : v.ty ≠ .i1) :
    view (I.store memory order addr v) = (view memory).write order addr.address v
  storeConditional (memory : M) (order : ByteOrder) (addr v : Value) (hv : v.ty ≠ .i1) :
    view (I.storeConditional memory order addr v).2 =
      if (I.storeConditional memory order addr v).1 then
        (view memory).write order addr.address v
      else view memory

/-- Bytes, and whether a reservation is held. -/
structure Reserved where
  bytes : ByteMemory
  held : Bool

/-- The interpretation with memory in bytes and arithmetic as usual; helpers give zero. -/
def bytewise (order : ByteOrder) : Interp Reserved where
  order
  op := modularOp
  helper _ _ _ := 0
  load memory order ty addr := memory.bytes.read order addr.address ty
  store memory order addr v := { memory with bytes := memory.bytes.write order addr.address v }
  loadLinked memory order ty addr :=
    (memory.bytes.read order addr.address ty, { memory with held := true })
  storeConditional memory order addr v :=
    if memory.held then (true, ⟨memory.bytes.write order addr.address v, false⟩)
    else (false, memory)
  fence memory := memory
  hint memory _ _ _ := memory
  call memory _ _ _ _ := ⟨fun _ => 0, memory, []⟩

theorem bytewise_modular (order : ByteOrder) : (bytewise order).Modular := modular_of_op rfl

theorem bytewise_shifts (order : ByteOrder) : (bytewise order).Shifts := shifts_of_op rfl

theorem bytewise_bytewise (order : ByteOrder) : (bytewise order).Bytewise Reserved.bytes where
  load _ _ _ _ _ := rfl
  store _ _ _ _ _ := rfl
  storeConditional memory order addr v _ := by
    cases hheld : memory.held <;> simp [bytewise, hheld]

end Interp

end PowerLift
