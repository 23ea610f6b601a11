import PowerLift.Proofs.Elements
import PowerLift.Proofs.ScalarOperators

/-!
# Memory addressed by words

A processor has a byte at every address of its word, and an access that reaches the end of its
address space goes on at the beginning. Values are written one behind the other, and each is read
back from where it was written. What is read in the big-endian order as one vector is read in its
elements as well.
-/

namespace PowerLift

/-- The bytes at all addresses of `n` bits. -/
abbrev WordMemory (n : Nat) := BitVec n → BitVec 8

namespace WordMemory

/-- The bits stored at an address. -/
def read {n : Nat} (bytes : WordMemory n) (order : ByteOrder) (a : BitVec n) (ty : Ty) :
    BitVec ty.bits :=
  GuestState.read (fun i => bytes (a + .ofNat n i)) order 0 ty

/-- Memory with a value stored at an address. -/
def write {n : Nat} (bytes : WordMemory n) (order : ByteOrder) (a : BitVec n) (v : Value) :
    WordMemory n :=
  fun b => if (b - a).toNat < v.ty.bytes then v.byteAt order (b - a).toNat else bytes b

/-- Memory with the first `count` of some values stored one behind the other. -/
def writeAll {n : Nat} (bytes : WordMemory n) (order : ByteOrder) (a : BitVec n) (ty : Ty)
    (f : Nat → BitVec ty.bits) : Nat → WordMemory n
  | 0 => bytes
  | count + 1 => (writeAll bytes order a ty f count).write order
      (a + .ofNat n (count * ty.bytes)) ⟨ty, f count⟩

variable {n : Nat} {bytes : WordMemory n} {order : ByteOrder} {a b : BitVec n} {ty : Ty}

/-! ## Distances -/

theorem toNat_add_sub {k : Nat} (hk : k < 2 ^ n) : (a + .ofNat n k - a).toNat = k := by
  rw [BitVec.add_comm, BitVec.add_sub_cancel, BitVec.toNat_ofNat, Nat.mod_eq_of_lt hk]

/-- Which addresses are less than `m` behind `a + k`, and how far. -/
theorem toNat_sub_add (b a : BitVec n) {k m : Nat} (hkm : k + m ≤ 2 ^ n) :
    ((b - (a + .ofNat n k)).toNat < m ↔ k ≤ (b - a).toNat ∧ (b - a).toNat < k + m) ∧
      (k ≤ (b - a).toNat → (b - (a + .ofNat n k)).toNat = (b - a).toNat - k) := by
  rw [← BitVec.sub_sub]
  generalize b - a = d
  have hd := d.isLt
  by_cases hle : k ≤ d.toNat
  · have hk : (BitVec.ofNat n k).toNat = k := by
      rw [BitVec.toNat_ofNat]
      exact Nat.mod_eq_of_lt (by omega)
    have hsub : (d - .ofNat n k).toNat = d.toNat - k := by
      rw [BitVec.toNat_sub_of_le (BitVec.le_def.mpr (by omega)), hk]
    omega
  · by_cases hm : m = 0
    · omega
    · have hk : (BitVec.ofNat n k).toNat = k := by
        rw [BitVec.toNat_ofNat]
        exact Nat.mod_eq_of_lt (by omega)
      have hsub : (d - .ofNat n k).toNat = 2 ^ n - (k - d.toNat) := by
        rw [BitVec.toNat_sub_of_lt (BitVec.lt_def.mpr (by omega)), hk]
      omega

/-! ## What is written and read -/

theorem write_inside {v : Value} (h : (b - a).toNat < v.ty.bytes) :
    bytes.write order a v b = v.byteAt order (b - a).toNat := if_pos h

theorem write_outside {v : Value} (h : ¬(b - a).toNat < v.ty.bytes) :
    bytes.write order a v b = bytes b := if_neg h

/-- What a value's bytes are is what is read. -/
theorem read_eq_of_bytes {v : Value} (hty : v.ty ≠ .i1)
    (h : ∀ i < v.ty.bytes, bytes (a + .ofNat n i) = v.byteAt order i) :
    bytes.read order a v.ty = v.bits := by
  refine GuestState.read_eq_of_bytes hty fun i hi => ?_
  have hlt := GuestState.position_lt order hi
  rw [Nat.zero_add, h _ hlt, Value.byteAt, GuestState.position_position order hi]

/-- A byte of a number that was read, by its place in memory. -/
theorem byteAt_read (hty : ty ≠ .i1) {i : Nat} (hi : i < ty.bytes) :
    (⟨ty, bytes.read order a ty⟩ : Value).byteAt order i = bytes (a + .ofNat n i) := by
  refine (GuestState.extract_read hty (GuestState.position_lt order hi)).trans ?_
  simp only [Nat.zero_add]
  rw [GuestState.position_position order hi]

theorem writeAll_one {f : Nat → BitVec ty.bits} :
    bytes.writeAll order a ty f 1 = bytes.write order a ⟨ty, f 0⟩ := by
  rw [writeAll, writeAll, Nat.zero_mul, BitVec.add_zero]

/-- The bytes that values leave which stand one behind the other. -/
theorem writeAll_inside {f : Nat → BitVec ty.bits} {count i j : Nat}
    (hfit : count * ty.bytes ≤ 2 ^ n) (hi : i < count) (hj : j < ty.bytes) :
    bytes.writeAll order a ty f count (a + .ofNat n (i * ty.bytes + j)) =
      (⟨ty, f i⟩ : Value).byteAt order j := by
  induction count with
  | zero => exact absurd hi (Nat.not_lt_zero i)
  | succ count ih =>
      rw [Nat.succ_mul] at hfit
      have hle : i * ty.bytes ≤ count * ty.bytes := Nat.mul_le_mul_right _ (by omega)
      have hdistance : (a + .ofNat n (i * ty.bytes + j) - a).toNat = i * ty.bytes + j :=
        toNat_add_sub (by omega)
      obtain ⟨hwithin, hsub⟩ := toNat_sub_add (a + .ofNat n (i * ty.bytes + j)) a
        (k := count * ty.bytes) (m := ty.bytes) hfit
      rw [hdistance] at hwithin hsub
      obtain hlt | rfl := Nat.lt_succ_iff_lt_or_eq.mp hi
      · have hstep : (i + 1) * ty.bytes ≤ count * ty.bytes := Nat.mul_le_mul_right _ hlt
        rw [Nat.succ_mul] at hstep
        rw [writeAll, write_outside (v := ⟨ty, f count⟩) fun h => by
          have := (hwithin.mp h).1
          omega]
        exact ih (by omega) hlt
      · have hinside := hwithin.mpr ⟨by omega, by omega⟩
        rw [writeAll, write_inside (v := ⟨ty, f i⟩) hinside, hsub (by omega),
          Nat.add_sub_cancel_left]

/-- Off the values that are written, memory stays. -/
theorem writeAll_outside {f : Nat → BitVec ty.bits} {count : Nat}
    (hfit : count * ty.bytes ≤ 2 ^ n) (hb : ¬(b - a).toNat < count * ty.bytes) :
    bytes.writeAll order a ty f count b = bytes b := by
  induction count with
  | zero => rfl
  | succ count ih =>
      rw [Nat.succ_mul] at hfit hb
      have hwithin := (toNat_sub_add b a (k := count * ty.bytes) (m := ty.bytes) hfit).1
      rw [writeAll, write_outside (v := ⟨ty, f count⟩) fun h => hb (hwithin.mp h).2]
      exact ih (by omega) (by omega)

/-- Each value is read back from where it was written. -/
theorem read_writeAll (hty : ty ≠ .i1) {f : Nat → BitVec ty.bits} {count i : Nat}
    (hfit : count * ty.bytes ≤ 2 ^ n) (hi : i < count) :
    (bytes.writeAll order a ty f count).read order (a + .ofNat n (i * ty.bytes)) ty = f i := by
  refine read_eq_of_bytes (v := ⟨ty, f i⟩) hty fun j hj => ?_
  rw [BitVec.add_assoc, ← BitVec.ofNat_add]
  exact writeAll_inside hfit hi hj

/-! ## Elements of a vector -/

/-- A part of a part. -/
theorem extract_extract {m : Nat} (x : BitVec m) {p q k l : Nat} (h : q + l ≤ k) :
    (x.extractLsb' p k).extractLsb' q l = x.extractLsb' (p + q) l := by
  refine BitVec.eq_of_getLsbD_eq fun i hi => ?_
  simp only [BitVec.getLsbD_extractLsb', hi, decide_true, Bool.true_and,
    show q + i < k by omega, Nat.add_assoc]

/-- The bytes of a vector in the big-endian order are those of its elements. -/
theorem byteAt_elementAt {v : Word} (x : BitVec 128) {i j : Nat} (hi : i < 128 / v.ty.bits)
    (hj : j < v.ty.bytes) :
    (⟨v.ty, elementAt v.ty.bits x i⟩ : Value).byteAt .big j =
      (⟨.v128, x⟩ : Value).byteAt .big (i * v.ty.bytes + j) := by
  have hbits : v.ty.bits = 8 * v.ty.bytes := by cases v <;> rfl
  have hplace : v.ty.bits * (128 / v.ty.bits - 1 - i) + 8 * ByteOrder.big.position v.ty.bytes j =
      8 * ByteOrder.big.position Ty.v128.bytes (i * v.ty.bytes + j) := by
    have hbytes : Ty.v128.bytes = 16 := rfl
    simp only [ByteOrder.position, hbytes]
    cases v with
    | w32 =>
        have hword : Word.w32.ty.bits = 32 ∧ Word.w32.ty.bytes = 4 := ⟨rfl, rfl⟩
        simp only [hword] at hi hj ⊢
        omega
    | w64 =>
        have hdouble : Word.w64.ty.bits = 64 ∧ Word.w64.ty.bytes = 8 := ⟨rfl, rfl⟩
        simp only [hdouble] at hi hj ⊢
        omega
  have hwithin : 8 * ByteOrder.big.position v.ty.bytes j + 8 ≤ v.ty.bits := by
    have hlt := GuestState.position_lt .big hj
    omega
  exact (extract_extract x hwithin).trans (congrArg (x.extractLsb' · 8) hplace)

/-- A vector that is read in the big-endian order is read in its elements. -/
theorem read_eq_ofElements (v : Word) :
    bytes.read .big a .v128 =
      ofElements v.ty.bits fun i => bytes.read .big (a + .ofNat n (i * v.ty.bytes)) v.ty := by
  have hn : v.ty.bits ∣ 128 := by cases v <;> decide
  have hty : v.ty ≠ .i1 := by cases v <;> decide
  refine eq_ofElements hn fun i hi => (read_eq_of_bytes (v := ⟨v.ty, _⟩) hty fun j hj => ?_).symm
  have hj : j < v.ty.bytes := hj
  have hlt : i * v.ty.bytes + j < Ty.v128.bytes := by
    cases v with
    | w32 =>
        change i < 4 at hi
        change j < 4 at hj
        change i * 4 + j < 16
        omega
    | w64 =>
        change i < 2 at hi
        change j < 8 at hj
        change i * 8 + j < 16
        omega
  refine Eq.trans ?_ (byteAt_elementAt _ hi hj).symm
  rw [byteAt_read Ty.noConfusion hlt, BitVec.add_assoc, ← BitVec.ofNat_add]

end WordMemory

/-! ## Interpretations -/

namespace Interp

variable {M : Type}

/-- Memory has the bytes that `view` shows, one at every address of a word: they are what loads read
and stores write. -/
structure Wordwise (I : Interp M) (arch : Arch) (view : M → WordMemory arch.word.ty.bits) :
    Prop where
  load (memory : M) (order : ByteOrder) (ty : Ty) (a : BitVec arch.word.ty.bits) (hty : ty ≠ .i1) :
    I.load memory order ty ⟨arch.word.ty, a⟩ = (view memory).read order a ty
  store (memory : M) (order : ByteOrder) (a : BitVec arch.word.ty.bits) (v : Value)
    (hv : v.ty ≠ .i1) :
    view (I.store memory order ⟨arch.word.ty, a⟩ v) = (view memory).write order a v

/-- On a 64-bit processor, addresses of words are all there are. -/
theorem Bytewise.wordwise {I : Interp M} {view : M → ByteMemory} (h : I.Bytewise view) :
    I.Wordwise .ppc64 view where
  load memory order ty a hty := by
    rw [h.load memory order ty _ hty]
    exact congrArg (fun b => (view memory).read order b ty) (BitVec.setWidth_eq a)
  store memory order a v hv := by
    rw [h.store memory order _ v hv]
    exact congrArg (fun b => (view memory).write order b v) (BitVec.setWidth_eq a)

end Interp

end PowerLift
