import Mathlib.Data.Nat.Bitwise
import PowerLift.Proofs.DecimalValue

/-!
# Packed digits and declets

Packed digits take four bits each, and three of them make a declet. Fifteen packed digits and five
declets are two spellings of one number, of which the declets have some more than one of.
-/

namespace PowerLift.Declet

/-! ## Groups of bits -/

theorem mul_or_eq {b i : Nat} (hb : b < 2 ^ i) (a : Nat) : a * 2 ^ i ||| b = a * 2 ^ i + b := by
  rw [Nat.mul_comm, Nat.two_pow_add_eq_or_of_lt hb]

/-- Groups of one width, the least significant first. -/
def gathered (width : Nat) (group : Nat → Nat) (n : Nat) : Nat :=
  (List.range n).foldl (fun acc k => acc ||| (group k <<< (width * k))) 0

section

variable {width : Nat} {group : Nat → Nat} (hgroup : ∀ k, group k < 2 ^ width)

include hgroup

theorem gathered_lt (n : Nat) : gathered width group n < 2 ^ (width * n) := by
  induction n with
  | zero => exact Nat.one_pos
  | succ n ih =>
    rw [gathered, List.range_succ, List.foldl_append]
    have hle : width * n ≤ width * (n + 1) := Nat.mul_le_mul_left _ (Nat.le_succ n)
    refine Nat.or_lt_two_pow (ih.trans_le (Nat.pow_le_pow_right (by decide) hle)) ?_
    rw [Nat.shiftLeft_eq, Nat.mul_succ, Nat.add_comm, Nat.pow_add]
    exact Nat.mul_lt_mul_of_pos_right (hgroup n) (Nat.two_pow_pos _)

theorem gathered_succ (n : Nat) :
    gathered width group (n + 1) = group n * 2 ^ (width * n) + gathered width group n := by
  rw [gathered, List.range_succ, List.foldl_append]
  change gathered width group n ||| group n <<< (width * n) = _
  rw [Nat.or_comm, Nat.shiftLeft_eq, mul_or_eq (gathered_lt hgroup n)]

/-- Each group is read back where it was put. -/
theorem gathered_group {n k : Nat} (hk : k < n) :
    gathered width group n / 2 ^ (width * k) % 2 ^ width = group k := by
  induction n with
  | zero => exact absurd hk (Nat.not_lt_zero k)
  | succ n ih =>
    rw [gathered_succ hgroup]
    obtain hlt | rfl := Nat.lt_succ_iff_lt_or_eq.mp hk
    · have hsplit : 2 ^ (width * n) = 2 ^ (width * k) * (2 ^ width * 2 ^ (width * (n - k - 1))) := by
        rw [← Nat.pow_add, ← Nat.pow_add]
        congr 1
        obtain ⟨d, rfl⟩ := Nat.exists_eq_add_of_lt hlt
        rw [show k + d + 1 - k - 1 = d by omega]
        ring
      rw [hsplit, Nat.mul_left_comm, Nat.add_comm, Nat.add_mul_div_left _ _ (Nat.two_pow_pos _),
        Nat.mul_left_comm, Nat.add_mul_mod_self_left]
      exact ih hlt
    · rw [Nat.mul_comm, Nat.mul_add_div (Nat.two_pow_pos _), Nat.div_eq_of_lt (gathered_lt hgroup k),
        Nat.add_zero, Nat.mod_eq_of_lt (hgroup k)]

end

/-! ## Digits of a word -/

/-- A packed digit, the least significant first. -/
def nibble (v : BitVec 64) (i : Nat) : Nat := v.toNat / 16 ^ i % 16

theorem eq_of_nibbles {v v' : BitVec 64} (h : ∀ i < 16, nibble v i = nibble v' i) : v = v' := by
  have hdigits (n : Nat) (hn : n ≤ 16) : v.toNat % 16 ^ n = v'.toNat % 16 ^ n := by
    induction n with
    | zero => rw [pow_zero, Nat.mod_one, Nat.mod_one]
    | succ n ih =>
      rw [Nat.pow_succ, Nat.mod_mul, Nat.mod_mul, ih (by omega), ← nibble, ← nibble, h n (by omega)]
  have hall : v.toNat % 2 ^ 64 = v'.toNat % 2 ^ 64 := hdigits 16 (Nat.le_refl 16)
  rw [Nat.mod_eq_of_lt v.isLt, Nat.mod_eq_of_lt v'.isLt] at hall
  exact BitVec.eq_of_toNat_eq hall

/-- The number in a declet of a word. -/
def number (v k : Nat) : Nat := toNat ((v >>> (10 * k)) % 1024)

theorem number_lt (v k : Nat) : number v k < 1000 := toNat_lt _

/-- Packed digits of a number below a thousand. -/
def packedNumber (n : Nat) : Nat := n / 100 * 256 + n / 10 % 10 * 16 + n % 10

theorem packedNumber_lt {n : Nat} (hn : n < 1000) : packedNumber n < 2 ^ 12 := by
  unfold packedNumber
  omega

theorem packedNumber_digit {n j : Nat} (hn : n < 1000) (hj : j < 3) :
    packedNumber n / 16 ^ j % 16 = n / 10 ^ j % 10 := by
  have hh : n / 100 < 10 := by omega
  have hm : n / 10 % 10 < 10 := Nat.mod_lt _ (by decide)
  have hl : n % 10 < 10 := Nat.mod_lt _ (by decide)
  unfold packedNumber
  obtain rfl | rfl | rfl : j = 0 ∨ j = 1 ∨ j = 2 := by omega
  all_goals
    simp only [Nat.reducePow, Nat.div_one]
    generalize n / 100 = h at hh ⊢
    generalize n / 10 % 10 = m at hm ⊢
    generalize n % 10 = l at hl ⊢
    omega

/-- The number of three packed digits, each of them modulo ten. -/
def unpackedNumber (v k : Nat) : Nat :=
  let digit (i : Nat) : Nat := (v >>> (12 * k + 4 * i)) % 16 % 10
  digit 2 * 100 + digit 1 * 10 + digit 0

theorem unpackedNumber_lt (v k : Nat) : unpackedNumber v k < 1000 := by
  unfold unpackedNumber
  dsimp only
  omega

theorem unpackedNumber_place (v k : Nat) {j : Nat} (hj : j < 3) :
    unpackedNumber v k / 10 ^ j % 10 = (v >>> (12 * k + 4 * j)) % 16 % 10 := by
  have hdigit (i : Nat) : (v >>> (12 * k + 4 * i)) % 16 % 10 < 10 := Nat.mod_lt _ (by decide)
  have h0 := hdigit 0
  have h1 := hdigit 1
  have h2 := hdigit 2
  unfold unpackedNumber
  dsimp only
  obtain rfl | rfl | rfl : j = 0 ∨ j = 1 ∨ j = 2 := by omega
  all_goals omega

theorem toPacked_toNat (v : BitVec 64) :
    (toPacked v).toNat = gathered 12 (fun k => packedNumber (number v.toNat k)) 5 := by
  refine Nat.mod_eq_of_lt (lt_of_lt_of_le (gathered_lt (fun k => ?_) 5) (by decide))
  exact packedNumber_lt (number_lt _ _)

theorem ofPacked_toNat (v : BitVec 64) :
    (ofPacked v).toNat = gathered 10 (fun k => ofNat (unpackedNumber v.toNat k)) 5 :=
  Nat.mod_eq_of_lt (lt_of_lt_of_le (gathered_lt (fun _ => ofNat_lt _) 5) (by decide))

theorem toPacked_lt (v : BitVec 64) : (toPacked v).toNat < 2 ^ 60 := by
  rw [toPacked_toNat]
  exact gathered_lt (fun _ => packedNumber_lt (number_lt _ _)) 5

theorem ofPacked_lt (v : BitVec 64) : (ofPacked v).toNat < 2 ^ 50 := by
  rw [ofPacked_toNat]
  exact gathered_lt (fun _ => ofNat_lt _) 5

/-- The packed digits of a word of declets are those of its numbers. -/
theorem nibble_toPacked (v : BitVec 64) {i : Nat} (hi : i < 15) :
    nibble (toPacked v) i = number v.toNat (i / 3) / 10 ^ (i % 3) % 10 := by
  have hnumber := number_lt v.toNat (i / 3)
  have hgroup := gathered_group (n := 5)
    (fun k => packedNumber_lt (number_lt v.toNat k)) (show i / 3 < 5 by omega)
  have hplace : 16 ^ i = 2 ^ (12 * (i / 3)) * 16 ^ (i % 3) := by
    rw [show 16 = 2 ^ 4 from rfl, ← Nat.pow_mul, ← Nat.pow_mul, ← Nat.pow_add]
    congr 1
    omega
  have hmod : i % 3 < 3 := Nat.mod_lt _ (by decide)
  rw [← packedNumber_digit hnumber hmod, ← hgroup, nibble, toPacked_toNat, hplace,
    ← Nat.div_div_eq_div_mul]
  -- A digit of a group is a digit of all that starts with the group.
  obtain h | h | h : i % 3 = 0 ∨ i % 3 = 1 ∨ i % 3 = 2 := by omega
  all_goals
    rw [h]
    omega

theorem nibble_toPacked_top (v : BitVec 64) : nibble (toPacked v) 15 = 0 := by
  have := toPacked_lt v
  unfold nibble
  omega

/-- The numbers of the declets of packed digits. -/
theorem number_ofPacked (v : BitVec 64) {k : Nat} (hk : k < 5) :
    number (ofPacked v).toNat k = unpackedNumber v.toNat k := by
  rw [number, ofPacked_toNat, Nat.shiftRight_eq_div_pow]
  exact (congrArg toNat (gathered_group (n := 5) (fun _ => ofNat_lt _) hk)).trans
    (toNat_ofNat (unpackedNumber_lt _ _))

theorem unpackedNumber_digit (v : BitVec 64) (i : Nat) :
    unpackedNumber v.toNat (i / 3) / 10 ^ (i % 3) % 10 = nibble v i % 10 := by
  rw [unpackedNumber_place _ _ (Nat.mod_lt _ (by decide)), nibble, Nat.shiftRight_eq_div_pow,
    show 16 ^ i = 2 ^ (4 * i) by rw [Nat.pow_mul], show 12 * (i / 3) + 4 * (i % 3) = 4 * i by omega]

/-! ## There and back -/

/-- Packed digits come back from their declets modulo ten. -/
theorem nibble_toPacked_ofPacked (v : BitVec 64) {i : Nat} (hi : i < 16) :
    nibble (toPacked (ofPacked v)) i = if i < 15 then nibble v i % 10 else 0 := by
  split_ifs with h
  · rw [nibble_toPacked _ h, number_ofPacked v (by omega), unpackedNumber_digit v i]
  · rw [show i = 15 by omega]
    exact nibble_toPacked_top _

theorem nibble_toPacked_le (v : BitVec 64) {i : Nat} (hi : i < 16) : nibble (toPacked v) i ≤ 9 := by
  obtain hlt | rfl : i < 15 ∨ i = 15 := by omega
  · rw [nibble_toPacked v hlt]
    exact Nat.le_of_lt_succ (Nat.mod_lt _ (by decide))
  · rw [nibble_toPacked_top]
    decide

theorem toPacked_ofPacked_toPacked (v : BitVec 64) :
    toPacked (ofPacked (toPacked v)) = toPacked v := by
  refine eq_of_nibbles fun i hi => ?_
  rw [nibble_toPacked_ofPacked _ hi]
  split_ifs with h
  · exact Nat.mod_eq_of_lt (Nat.lt_succ_of_le (nibble_toPacked_le v hi))
  · rw [show i = 15 by omega, nibble_toPacked_top]

/-- Declets count by their low 50 bits. -/
theorem number_mod (v : Nat) {k : Nat} (hk : k < 5) : number (v % 2 ^ 50) k = number v k := by
  refine congrArg toNat (Nat.eq_of_testBit_eq fun i => ?_)
  rw [show 1024 = 2 ^ 10 from rfl, Nat.testBit_mod_two_pow, Nat.testBit_mod_two_pow,
    Nat.testBit_shiftRight, Nat.testBit_shiftRight, Nat.testBit_mod_two_pow]
  by_cases hi : i < 10
  · simp [hi, show 10 * k + i < 50 by omega]
  · simp [hi]

theorem toPacked_congr {v v' : BitVec 64} (h : v.toNat % 2 ^ 50 = v'.toNat % 2 ^ 50) :
    toPacked v = toPacked v' := by
  refine eq_of_nibbles fun i hi => ?_
  obtain hlt | rfl : i < 15 ∨ i = 15 := by omega
  · have hk : i / 3 < 5 := by omega
    rw [nibble_toPacked v hlt, nibble_toPacked v' hlt, ← number_mod v.toNat hk,
      ← number_mod v'.toNat hk, h]
  · rw [nibble_toPacked_top, nibble_toPacked_top]

theorem unpackedNumber_toPacked (v : BitVec 64) {k : Nat} (hk : k < 5) :
    unpackedNumber (toPacked v).toNat k = number v.toNat k := by
  have hdigit (j : Nat) (hj : j < 3) :
      unpackedNumber (toPacked v).toNat k / 10 ^ j % 10 = number v.toNat k / 10 ^ j % 10 := by
    have hi : 3 * k + j < 15 := by omega
    have hplace := unpackedNumber_digit (toPacked v) (3 * k + j)
    rwa [nibble_toPacked v hi, Nat.mod_mod, show (3 * k + j) / 3 = k by omega,
      show (3 * k + j) % 3 = j by omega] at hplace
  have hlt := number_lt v.toNat k
  have hlt' := unpackedNumber_lt (toPacked v).toNat k
  have h0 := hdigit 0 (by decide)
  have h1 := hdigit 1 (by decide)
  have h2 := hdigit 2 (by decide)
  omega

end PowerLift.Declet
