import Mathlib.Data.List.Basic
import Mathlib.Tactic.IntervalCases
import PowerLift.Proofs.Execution
import PowerLift.State.Layout

/-!
# The condition register as a word

A condition field is kept in two bytes, of which one holds the summary overflow and the other the
rest. Whatever else the bytes hold, the fields make up a word of 32 bits, and to write bytes is to
write bits of that word.
-/

namespace PowerLift

/-! ## Words -/

namespace CrWord

/-- The word `x` with the bits of a mask taken from `v`. -/
def blend (mask x v : BitVec 32) : BitVec 32 := (x &&& ~~~mask) ||| (v &&& mask)

/-- Bit `b`, counted from the most significant. -/
def bit (x : BitVec 32) (b : Nat) : Bool := x.getMsbD b

/-- The four bits of field `f`, counted from the most significant. -/
def field (x : BitVec 32) (f : Nat) : BitVec 4 := x.extractLsb' (28 - 4 * f) 4

/-- The word with another bit `b`. -/
def withBit (x : BitVec 32) (b : Nat) (v : Bool) : BitVec 32 :=
  blend (1#32 <<< (31 - b)) x ((BitVec.ofBool v).setWidth 32 <<< (31 - b))

/-- The word with another field `f`. -/
def withField (x : BitVec 32) (f : Nat) (v : BitVec 4) : BitVec 32 :=
  blend (0xF#32 <<< (28 - 4 * f)) x (v.setWidth 32 <<< (28 - 4 * f))

/-- The word with field `f`, if it is chosen, taken from `v`. -/
def withChosen (chosen : Nat → Bool) (v x : BitVec 32) (f : Nat) : BitVec 32 :=
  if chosen f then withField x f (field v f) else x

/-- The word with the fields listed, where they are chosen, taken from `v`. -/
def withEach (chosen : Nat → Bool) (v : BitVec 32) (fs : List Nat) (x : BitVec 32) : BitVec 32 :=
  fs.foldl (withChosen chosen v) x

/-- The word with the chosen fields taken from `v`. -/
def withFields (x : BitVec 32) (chosen : Nat → Bool) (v : BitVec 32) : BitVec 32 :=
  withEach chosen v (List.range 8) x

/-- The word of which the fields are given, the first field on top. -/
def ofFields (field : Nat → BitVec 4) : (n : Nat) → BitVec (4 * n)
  | 0 => 0
  | n + 1 => ofFields field n ++ field n

variable {x v : BitVec 32} {f b k : Nat}

theorem getLsbD_blend (mask : BitVec 32) :
    (blend mask x v).getLsbD k = if mask.getLsbD k then v.getLsbD k else x.getLsbD k := by
  by_cases hk : k < 32
  · simp only [blend, BitVec.getLsbD_or, BitVec.getLsbD_and, BitVec.getLsbD_not, hk, decide_true,
      Bool.true_and]
    cases mask.getLsbD k <;> simp
  · simp [BitVec.getLsbD_of_ge _ _ (Nat.le_of_not_lt hk)]

theorem bit_eq (hb : b < 32) : bit x b = x.getLsbD (31 - b) := by
  simp [bit, BitVec.getMsbD_eq_getLsbD, hb]

theorem getLsbD_field (hk : k < 4) : (field x f).getLsbD k = x.getLsbD (28 - 4 * f + k) := by
  simp [field, hk]

theorem getLsbD_withBit (hb : b < 32) (v : Bool) (hk : k < 32) :
    (withBit x b v).getLsbD k = if k = 31 - b then v else x.getLsbD k := by
  have hmask : (1#32 <<< (31 - b)).getLsbD k = decide (k = 31 - b) := by
    rw [BitVec.getLsbD_shiftLeft, BitVec.getLsbD_one]
    grind
  rw [withBit, getLsbD_blend, hmask]
  by_cases heq : k = 31 - b
  · subst heq
    simp [hk]
  · simp [heq]

theorem getLsbD_withField (hf : f < 8) (v : BitVec 4) (hk : k < 32) :
    (withField x f v).getLsbD k = if k / 4 = 7 - f then v.getLsbD (k % 4) else x.getLsbD k := by
  have hnibble : ∀ j, (0xF#32).getLsbD j = decide (j < 4) := Nat.testBit_two_pow_sub_one 4
  have hmask : (0xF#32 <<< (28 - 4 * f)).getLsbD k = decide (k / 4 = 7 - f) := by
    rw [BitVec.getLsbD_shiftLeft, hnibble]
    grind
  rw [withField, getLsbD_blend, hmask]
  by_cases heq : k / 4 = 7 - f
  · have hshift : k - (28 - 4 * f) = k % 4 := by omega
    have hlow : ¬k < 28 - 4 * f := by omega
    simp only [heq, decide_true, if_true, BitVec.getLsbD_shiftLeft, hk, hlow, decide_false,
      Bool.not_false, Bool.true_and, hshift, BitVec.getLsbD_setWidth, Bool.and_true]
    have hlt : k % 4 < 32 := by omega
    simp [hlt]
  · simp [heq]

theorem getLsbD_withEach (chosen : Nat → Bool) {fs : List Nat} (hfs : ∀ f ∈ fs, f < 8)
    (hk : k < 32) : (withEach chosen v fs x).getLsbD k =
      if 7 - k / 4 ∈ fs ∧ chosen (7 - k / 4) then v.getLsbD k else x.getLsbD k := by
  induction fs generalizing x with
  | nil => simp [withEach]
  | cons f fs ih =>
      have hf : f < 8 := hfs f List.mem_cons_self
      have hstep : (withChosen chosen v x f).getLsbD k =
          if k / 4 = 7 - f ∧ chosen f then v.getLsbD k else x.getLsbD k := by
        unfold withChosen
        by_cases hchosen : chosen f
        · rw [if_pos hchosen, getLsbD_withField hf _ hk]
          by_cases heq : k / 4 = 7 - f
          · rw [if_pos heq, if_pos ⟨heq, hchosen⟩, getLsbD_field (by omega)]
            congr 1
            omega
          · rw [if_neg heq, if_neg fun h => heq h.1]
        · rw [if_neg hchosen, if_neg fun h => hchosen h.2]
      rw [withEach, List.foldl_cons]
      refine (ih fun g hg => hfs g (List.mem_cons_of_mem f hg)).trans ?_
      have hiff : k / 4 = 7 - f ↔ 7 - k / 4 = f := by omega
      simp only [hstep, List.mem_cons, hiff]
      grind

theorem withFields_congr {chosen chosen' : Nat → Bool} (h : ∀ f < 8, chosen f = chosen' f) :
    withFields x chosen v = withFields x chosen' v := by
  refine List.foldl_ext _ _ _ fun x f hf => ?_
  rw [withChosen, withChosen, h f (List.mem_range.mp hf)]

/-- All fields of a word make up the word. -/
theorem withFields_all : withFields x (fun _ => true) v = v := by
  refine BitVec.eq_of_getLsbD_eq fun k hk => ?_
  have hmem : 7 - k / 4 ∈ List.range 8 := List.mem_range.mpr (by omega)
  rw [withFields, getLsbD_withEach _ (fun f hf => List.mem_range.mp hf) hk, if_pos ⟨hmem, rfl⟩]

theorem getLsbD_ofFields (field : Nat → BitVec 4) {n : Nat} (hk : k < 4 * n) :
    (ofFields field n).getLsbD k = (field (n - 1 - k / 4)).getLsbD (k % 4) := by
  induction n generalizing k with
  | zero => omega
  | succ n ih =>
      rw [ofFields, BitVec.getLsbD_append]
      by_cases hlow : k < 4
      · rw [if_pos hlow, Nat.mod_eq_of_lt hlow, Nat.div_eq_of_lt hlow]
        rfl
      · rw [if_neg hlow, ih (by omega), show n + 1 - 1 - k / 4 = n - 1 - (k - 4) / 4 by omega,
          show k % 4 = (k - 4) % 4 by omega]

/-- The bits that count of the two bytes of a field. -/
theorem nibble_setWidth (hi lo : BitVec 8) :
    (hi.setWidth 32 &&& 0xE) ||| (lo.setWidth 32 &&& 1) =
      (((hi &&& 0xE) ||| (lo &&& 1)).setWidth 4).setWidth 32 := by
  refine BitVec.eq_of_getLsbD_eq fun k hk => ?_
  by_cases hlow : k < 4
  · interval_cases k <;> simp
  · have hclear : ∀ k < 32, ¬k < 4 →
        (0xE : BitVec 32).getLsbD k = false ∧ (1 : BitVec 32).getLsbD k = false := by decide
    obtain ⟨hupper, hlowest⟩ := hclear k hk hlow
    simp only [BitVec.getLsbD_or, BitVec.getLsbD_and, BitVec.getLsbD_setWidth, hupper, hlowest,
      hlow, decide_false, Bool.and_false, Bool.false_and, Bool.or_false]

/-- Four bits that are written to two bytes. -/
theorem nibble_bytes (v : BitVec 32) :
    (((v &&& 0xE).setWidth 8 &&& 0xE) ||| ((v &&& 1).setWidth 8 &&& 1)).setWidth 4 =
      v.setWidth 4 := by
  refine BitVec.eq_of_getLsbD_eq fun k hk => ?_
  interval_cases k <;> simp

theorem setWidth_shiftRight (f : Nat) : ((v >>> (28 - 4 * f)) &&& 0xF).setWidth 4 = field v f := by
  have hmask : ∀ k < 4, (0xF : BitVec 32).getLsbD k = true := by decide
  refine BitVec.eq_of_getLsbD_eq fun k hk => ?_
  simp only [getLsbD_field hk, BitVec.getLsbD_setWidth, BitVec.getLsbD_and, hmask k hk,
    BitVec.getLsbD_ushiftRight, Bool.and_true, hk, decide_true, Bool.true_and]

/-- A field that is masked in its place. -/
theorem and_nibble (hf : f < 8) (x : BitVec 32) : x &&& ((0xF <<< (28 - 4 * f) : Nat) : BitVec 32) =
    (field x f).setWidth 32 <<< (28 - 4 * f) := by
  refine BitVec.eq_of_getLsbD_eq fun k hk => ?_
  have hnibble : ∀ j, Nat.testBit 0xF j = decide (j < 4) := Nat.testBit_two_pow_sub_one 4
  have hmask : ((0xF <<< (28 - 4 * f) : Nat) : BitVec 32).getLsbD k = decide (k / 4 = 7 - f) := by
    rw [BitVec.natCast_eq_ofNat, BitVec.getLsbD_ofNat, Nat.testBit_shiftLeft, hnibble]
    grind
  rw [BitVec.getLsbD_and, hmask, BitVec.getLsbD_shiftLeft, BitVec.getLsbD_setWidth]
  by_cases heq : k / 4 = 7 - f
  · have hlow : ¬k < 28 - 4 * f := by omega
    have hlt : k - (28 - 4 * f) < 4 := by omega
    rw [getLsbD_field hlt, show 28 - 4 * f + (k - (28 - 4 * f)) = k by omega]
    simp [heq, hk, hlow]
    omega
  · have hout : k < 28 - 4 * f ∨ 4 ≤ k - (28 - 4 * f) := by omega
    rcases hout with hout | hout
    · simp [heq, hout]
    · simp [heq, BitVec.getLsbD_of_ge _ _ hout]

/-- The lowest bit of a word, for a literal as code has it. -/
theorem and_one (x : BitVec 32) : x &&& 1 = (BitVec.ofBool (x.getLsbD 0)).setWidth 32 :=
  BitVec.and_one_eq_setWidth_ofBool_getLsbD

/-- A byte with another bit `n`, the lowest of a word. -/
def merged (byte : BitVec 8) (n : Nat) (v : BitVec 32) : BitVec 8 :=
  ((byte.setWidth 32 &&& ~~~((1 <<< n : Nat) : BitVec 32)) ||| (v &&& 1) <<< n).setWidth 8

theorem getLsbD_merged (byte : BitVec 8) {n : Nat} (hn : n < 8) (v : BitVec 32) (k : Nat) :
    (merged byte n v).getLsbD k = if k = n then v.getLsbD 0 else byte.getLsbD k := by
  by_cases hk : k < 8
  · have hmask : ((1 <<< n : Nat) : BitVec 32).getLsbD k = decide (k = n) := by
      rw [BitVec.natCast_eq_ofNat, BitVec.getLsbD_ofNat, Nat.testBit_shiftLeft]
      grind [Nat.testBit_one_eq_true_iff_self_eq_zero]
    have hbit : ((v &&& 1) <<< n).getLsbD k = (decide (k = n) && v.getLsbD 0) := by
      rw [and_one, BitVec.getLsbD_shiftLeft]
      grind [BitVec.getLsbD_setWidth, BitVec.getLsbD_ofBool]
    have h32 : k < 32 := by omega
    simp only [merged, BitVec.getLsbD_setWidth, BitVec.getLsbD_or, BitVec.getLsbD_and,
      BitVec.getLsbD_not, hmask, hbit, hk, h32, decide_true, Bool.true_and]
    by_cases heq : k = n <;> simp [heq]
  · have hne : k ≠ n := by omega
    simp [hne, BitVec.getLsbD_of_ge _ _ (Nat.le_of_not_lt hk)]

/-- Fields that are shifted to their places. -/
def sumFields (field : Nat → BitVec 4) (fs : List Nat) (x : BitVec 32) : BitVec 32 :=
  fs.foldl (fun x f => x ||| (field f).setWidth 32 <<< (28 - 4 * f)) x

theorem sumFields_cons (field : Nat → BitVec 4) (f : Nat) (fs : List Nat) :
    sumFields field (f :: fs) x =
      sumFields field fs (x ||| (field f).setWidth 32 <<< (28 - 4 * f)) := rfl

theorem getLsbD_sumFields (field : Nat → BitVec 4) {fs : List Nat} (hfs : ∀ f ∈ fs, f < 8)
    (hk : k < 32) : (sumFields field fs x).getLsbD k =
      (x.getLsbD k || (decide (7 - k / 4 ∈ fs) && (field (7 - k / 4)).getLsbD (k % 4))) := by
  induction fs generalizing x with
  | nil => simp [sumFields]
  | cons f fs ih =>
      have hf : f < 8 := hfs f List.mem_cons_self
      have hterm : ((field f).setWidth 32 <<< (28 - 4 * f)).getLsbD k =
          (decide (7 - k / 4 = f) && (field f).getLsbD (k % 4)) := by
        by_cases heq : 7 - k / 4 = f
        · have hlow : ¬k < 28 - 4 * f := by omega
          have hmod : k - (28 - 4 * f) = k % 4 := by omega
          simp [heq, hk, hlow, hmod]
        · have hout : k < 28 - 4 * f ∨ 4 ≤ k - (28 - 4 * f) := by omega
          rcases hout with hout | hout
          · simp [heq, hout]
          · simp [heq, BitVec.getLsbD_of_ge _ _ hout]
      rw [sumFields_cons, ih fun g hg => hfs g (List.mem_cons_of_mem f hg), BitVec.getLsbD_or,
        hterm, Bool.or_assoc]
      congr 1
      by_cases heq : 7 - k / 4 = f <;> simp [heq]

end CrWord

/-! ## Bytes -/

open CrWord (bit field withBit withField withFields withEach ofFields)

namespace GuestState

/-- A condition field: the bits of its two bytes that count. -/
def crField (arch : Arch) (σ : GuestState) (f : Nat) : BitVec 4 :=
  let hi := σ (Layout.crBase arch + 2 * f)
  let lo := σ (Layout.crBase arch + 2 * f + 1)
  ((hi &&& 0xE) ||| (lo &&& 1)).setWidth 4

/-- The word that the condition bytes hold. -/
def cr (arch : Arch) (σ : GuestState) : BitVec 32 := ofFields (σ.crField arch) 8

/-- The state with other bytes for a condition field. -/
def withCrBytes (arch : Arch) (σ : GuestState) (f : Nat) (hi lo : BitVec 8) : GuestState := fun o =>
  if o = Layout.crBase arch + 2 * f then hi
  else if o = Layout.crBase arch + 2 * f + 1 then lo
  else σ o

variable {arch : Arch} {σ σ' : GuestState} {f b k : Nat}

theorem getLsbD_cr (hk : k < 32) :
    (σ.cr arch).getLsbD k = (σ.crField arch (7 - k / 4)).getLsbD (k % 4) :=
  CrWord.getLsbD_ofFields _ (n := 8) hk

/-- The fields at their places make up the register. -/
theorem sumFields_eq_cr : CrWord.sumFields (σ.crField arch) (List.range 8) 0#32 = σ.cr arch := by
  refine BitVec.eq_of_getLsbD_eq fun k hk => ?_
  have hmem : 7 - k / 4 < 8 := by omega
  rw [CrWord.getLsbD_sumFields _ (fun f hf => List.mem_range.mp hf) hk, getLsbD_cr hk]
  simp [hmem]

theorem field_cr (hf : f < 8) : field (σ.cr arch) f = σ.crField arch f := by
  refine BitVec.eq_of_getLsbD_eq fun k hk => ?_
  rw [CrWord.getLsbD_field hk, getLsbD_cr (by omega)]
  congr 2 <;> omega

/-- A bit of a field is a bit of one of its bytes. -/
theorem getLsbD_crField (hk : k < 4) : (σ.crField arch f).getLsbD k =
    if k = 0 then (σ (Layout.crBase arch + 2 * f + 1)).getLsbD 0
    else (σ (Layout.crBase arch + 2 * f)).getLsbD k := by
  interval_cases k <;> simp [crField]

/-- One field is changed and the others are kept. -/
theorem cr_eq_withField (hf : f < 8) {v : BitVec 4} (hnew : σ'.crField arch f = v)
    (hold : ∀ g, g ≠ f → σ'.crField arch g = σ.crField arch g) :
    σ'.cr arch = withField (σ.cr arch) f v := by
  refine BitVec.eq_of_getLsbD_eq fun k hk => ?_
  rw [CrWord.getLsbD_withField hf _ hk, getLsbD_cr hk, getLsbD_cr hk]
  by_cases heq : k / 4 = 7 - f
  · rw [if_pos heq, ← hnew, show 7 - k / 4 = f by omega]
  · rw [if_neg heq, hold (7 - k / 4) (by omega)]

/-- Where a condition bit is kept. -/
def crByte (arch : Arch) (b : Nat) : Nat :=
  if 3 - b % 4 = 0 then Layout.crBase arch + 2 * (b / 4) + 1 else Layout.crBase arch + 2 * (b / 4)

theorem bit_cr (hb : b < 32) :
    bit (σ.cr arch) b = (σ (crByte arch b)).getLsbD (3 - b % 4) := by
  rw [CrWord.bit_eq hb, getLsbD_cr (by omega), getLsbD_crField (by omega),
    show 7 - (31 - b) / 4 = b / 4 by omega, show (31 - b) % 4 = 3 - b % 4 by omega, crByte]
  split
  next hzero => rw [hzero]
  next => rfl

/-- A byte is changed in one bit that counts. -/
theorem cr_eq_withBit (hb : b < 32) {x : BitVec 8} {v : Bool} (hbit : x.getLsbD (3 - b % 4) = v)
    (hkeep : 3 - b % 4 ≠ 0 → ∀ k, k ≠ 3 - b % 4 → x.getLsbD k = (σ (crByte arch b)).getLsbD k)
    (hσ : ∀ o, σ' o = if o = crByte arch b then x else σ o) :
    σ'.cr arch = withBit (σ.cr arch) b v := by
  refine BitVec.eq_of_getLsbD_eq fun k hk => ?_
  rw [CrWord.getLsbD_withBit hb _ hk, getLsbD_cr hk, getLsbD_cr hk, getLsbD_crField (by omega),
    getLsbD_crField (by omega), hσ, hσ]
  unfold crByte at hkeep ⊢
  by_cases hlow : k % 4 = 0 <;> by_cases hzero : 3 - b % 4 = 0 <;>
    simp only [hlow, hzero, if_true, if_false]
  · -- The summary overflow has a byte of its own.
    by_cases hfield : 7 - k / 4 = b / 4
    · rw [if_pos (by omega), if_pos (by omega), ← hbit, hzero]
    · rw [if_neg (by omega), if_neg (by omega)]
  · rw [if_neg (by omega), if_neg (by omega)]
  · rw [if_neg (by omega), if_neg (by omega)]
  · by_cases hfield : 7 - k / 4 = b / 4
    · rw [if_pos (by omega), hfield]
      by_cases heq : k % 4 = 3 - b % 4
      · rw [if_pos (by omega), heq, hbit]
      · rw [if_neg (by omega), hkeep hzero _ heq, if_neg hzero]
    · rw [if_neg (by omega), if_neg (by omega)]

theorem crField_withCrBytes (f : Nat) (hi lo : BitVec 8) (g : Nat) :
    (σ.withCrBytes arch f hi lo).crField arch g =
      if g = f then ((hi &&& 0xE) ||| (lo &&& 1)).setWidth 4 else σ.crField arch g := by
  unfold crField withCrBytes
  by_cases heq : g = f
  · simp [heq]
  · have hhi : Layout.crBase arch + 2 * g ≠ Layout.crBase arch + 2 * f := by omega
    have hlo : Layout.crBase arch + 2 * g + 1 ≠ Layout.crBase arch + 2 * f + 1 := by omega
    have hcross : Layout.crBase arch + 2 * g ≠ Layout.crBase arch + 2 * f + 1 := by omega
    have hcross' : Layout.crBase arch + 2 * g + 1 ≠ Layout.crBase arch + 2 * f := by omega
    simp only [heq, hhi, hlo, hcross, hcross', if_false]

end GuestState

end PowerLift
