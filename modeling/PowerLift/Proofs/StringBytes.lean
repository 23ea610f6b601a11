import PowerLift.Proofs.Filling

/-!
# Bytes of strings

A string fills the low words of a row of registers from their top bytes on. The registers are
numbered around the register file, and the bytes behind the end of the string are zero.
-/

namespace PowerLift.Multiple

/-! ## Words of bytes -/

section

variable {w : Nat} (x : BitVec w) (y : BitVec 8)

theorem extract_append_low : (x ++ y).extractLsb' 0 8 = y :=
  (BitVec.extractLsb'_append_eq_of_add_le (by omega)).trans BitVec.extractLsb'_eq_self

theorem extract_append_high (s : Nat) :
    (x ++ y).extractLsb' (8 + s) 8 = x.extractLsb' s 8 := by
  rw [BitVec.extractLsb'_append_eq_of_le (by omega), Nat.add_sub_cancel_left]

end

/-- Words are equal if their bytes are, counted from the top. -/
theorem eq_of_bytes {x y : BitVec 32}
    (h : ∀ r < 4, x.extractLsb' (24 - 8 * r) 8 = y.extractLsb' (24 - 8 * r) 8) : x = y := by
  refine BitVec.eq_of_getLsbD_eq fun i hi => ?_
  have hbyte := congrArg (·.getLsbD (i % 8)) (h (3 - i / 8) (by omega))
  simp only [BitVec.getLsbD_extractLsb', Nat.mod_lt i (Nat.zero_lt_succ 7), decide_true,
    Bool.true_and] at hbyte
  rwa [show 24 - 8 * (3 - i / 8) + i % 8 = i by omega] at hbyte

/-- A byte that has been moved to its place in a word. -/
theorem extract_shifted (b : BitVec 8) {r r' : Nat} (hr : r < 4) (hr' : r' < 4) :
    (b.setWidth 32 <<< (24 - 8 * r)).extractLsb' (24 - 8 * r') 8 = if r' = r then b else 0 := by
  refine BitVec.eq_of_getLsbD_eq fun i hi => ?_
  simp only [BitVec.getLsbD_extractLsb', BitVec.getLsbD_shiftLeft, BitVec.getLsbD_setWidth, hi,
    decide_true, Bool.true_and]
  rcases Nat.lt_trichotomy r' r with h | rfl | h
  · rw [if_neg (by omega), BitVec.getLsbD_of_ge b _ (by omega)]
    simp
  · rw [if_pos rfl, Nat.add_sub_cancel_left]
    simp [show 24 - 8 * r' + i < 32 by omega, show i < 32 by omega]
  · simp [show 24 - 8 * r' + i < 24 - 8 * r by omega, show r' ≠ r by omega]

/-- Four bytes of a string of `n` bytes, with zeros behind its end. -/
def stringWord (byte : Nat → BitVec 8) (n k : Nat) : BitVec 32 :=
  let filled i : BitVec 8 := if i < n then byte i else 0
  filled (4 * k) ++ filled (4 * k + 1) ++ filled (4 * k + 2) ++ filled (4 * k + 3)

variable {byte : Nat → BitVec 8} {n k r : Nat}

theorem extract_stringWord (hr : r < 4) :
    (stringWord byte n k).extractLsb' (24 - 8 * r) 8 =
      if 4 * k + r < n then byte (4 * k + r) else 0 := by
  unfold stringWord
  obtain rfl | rfl | rfl | rfl : r = 0 ∨ r = 1 ∨ r = 2 ∨ r = 3 := by omega
  · exact (extract_append_high _ _ 16).trans ((extract_append_high _ _ 8).trans
      ((extract_append_high _ _ 0).trans BitVec.extractLsb'_eq_self))
  · exact (extract_append_high _ _ 8).trans ((extract_append_high _ _ 0).trans
      (extract_append_low _ _))
  · exact (extract_append_high _ _ 0).trans (extract_append_low _ _)
  · exact extract_append_low _ _

theorem stringWord_start : stringWord byte (4 * k) k = 0 := by
  simp [stringWord]

theorem stringWord_succ (hr : r < 4) :
    stringWord byte (4 * k + r) k ||| ((byte (4 * k + r)).setWidth 32 <<< (24 - 8 * r)) =
      stringWord byte (4 * k + r + 1) k := by
  refine eq_of_bytes fun r' hr' => ?_
  rw [BitVec.extractLsb'_or, extract_stringWord hr', extract_stringWord hr',
    extract_shifted _ hr hr']
  rcases Nat.lt_trichotomy r' r with h | rfl | h
  · simp [h, show r' ≠ r by omega, show r' < r + 1 by omega, Nat.add_assoc]
  · simp
  · simp [show ¬r' < r by omega, show r' ≠ r by omega, show ¬r' < r + 1 by omega, Nat.add_assoc]

/-- A full word stays. -/
theorem stringWord_full (h : 4 * k + 4 ≤ n) :
    stringWord byte (n + 1) k = stringWord byte n k := by
  refine eq_of_bytes fun r hr => ?_
  rw [extract_stringWord hr, extract_stringWord hr, if_pos (by omega), if_pos (by omega)]

/-- A word grows in a register as it does by itself. -/
theorem stringWord_grown (arch : Arch) (byte : Nat → BitVec 8) (n : Nat) :
    (stringWord byte n (n / 4)).setWidth arch.word.ty.bits |||
        ((byte n).setWidth arch.word.ty.bits <<< (24 - 8 * (n % 4))) =
      (stringWord byte (n + 1) (n / 4)).setWidth arch.word.ty.bits := by
  have hr : n % 4 < 4 := Nat.mod_lt n (by decide)
  have hgrown : stringWord byte (4 * (n / 4) + n % 4) (n / 4) ||| _ = _ := stringWord_succ hr
  rw [Nat.div_add_mod] at hgrown
  rw [← hgrown, BitVec.setWidth_or]
  congr 1
  generalize n % 4 = r at hr
  refine BitVec.eq_of_getLsbD_eq fun i hi => ?_
  have hbits : arch.word.ty.bits = 32 ∨ arch.word.ty.bits = 64 := Arch.word_bits arch
  simp only [BitVec.getLsbD_setWidth, BitVec.getLsbD_shiftLeft, hi, decide_true, Bool.true_and]
  by_cases hlow : i < 32
  · simp [hlow, show i - (24 - 8 * r) < 32 by omega,
      show i - (24 - 8 * r) < arch.word.ty.bits by omega]
  · rw [BitVec.getLsbD_of_ge _ (i - (24 - 8 * r)) (by omega)]
    simp [hlow]

/-! ## Transfers of strings -/

section

variable (arch : Arch) (order : ByteOrder) (σ : GuestState)

/-- The register with the word `k` of a string. -/
def register (first k : Nat) : Nat := (first + k) % 32

/-- A byte of a string in registers. -/
def stringByte (first i : Nat) : BitVec 8 :=
  ((σ.operand arch order (register first (i / 4))).setWidth 32).extractLsb' (24 - 8 * (i % 4)) 8

/-- The address of a byte behind an effective address. -/
def address (ea : BitVec arch.word.ty.bits) (i : Nat) : BitVec 64 := (ea + .ofNat _ i).setWidth 64

end

variable {arch : Arch} {order : ByteOrder} {σ : GuestState} {first i : Nat}

theorem register_lt (first k : Nat) : register first k < 32 := Nat.mod_lt _ (by decide)

theorem register_ne {j : Nat} (hij : i < j) (hj : j < 32) :
    register first i ≠ register first j := by
  unfold register
  omega

theorem stringByte_of_operand
    (h : σ.operand arch order (register first (i / 4)) = (stringWord byte n (i / 4)).setWidth _) :
    stringByte arch order σ first i = if i < n then byte i else 0 := by
  have hnarrow : 32 ≤ arch.word.ty.bits := by cases arch <;> decide
  rw [stringByte, h, BitVec.setWidth_setWidth_of_le _ hnarrow, BitVec.setWidth_eq,
    extract_stringWord (Nat.mod_lt i (by decide)), Nat.div_add_mod]

end PowerLift.Multiple
