import Mathlib.Data.Nat.Bitwise
import Mathlib.Tactic.LinearCombination
import Mathlib.Tactic.Positivity
import PowerLift.Insn.Word

/-!
# Fields of instruction words

A field is read back as it was put, and putting one leaves all others alone. Each named field is
one field or several that are joined. So a word that is put together again from the named fields
of its form is the same word.
-/

namespace PowerLift.Insn

/-- The place of a field within a word. -/
structure Span where
  start : Nat
  width : Nat
  pos : 0 < width := by decide
  fits : start + width ≤ 32 := by decide

namespace Span

variable (p q : Span)

/-- The bits of a field, counted from the most significant one of the word. -/
def Covers (i : Nat) : Prop := p.start ≤ i ∧ i < p.start + p.width

instance (i : Nat) : Decidable (p.Covers i) := inferInstanceAs (Decidable (_ ∧ _))

/-- Fields without a bit in common. -/
def Disjoint : Prop := ∀ i, ¬(p.Covers i ∧ q.Covers i)

end Span

variable {w w₀ : Insn} {p q : Span} {ps : List Span} {v : BitVec 32}

/-! ## One field -/

/-- A bit of the word, counted from the most significant one. -/
def bitAt (w : Insn) (i : Nat) : Bool := w.raw.getMsbD i

theorem eq_of_bitAt (h : ∀ i < 32, w.bitAt i = w₀.bitAt i) : w = w₀ := by
  cases w
  cases w₀
  exact congrArg Insn.mk (BitVec.eq_of_getMsbD_eq h)

theorem bitAt_eq {i : Nat} (hi : i < 32) : w.bitAt i = w.raw.getLsbD (31 - i) := by
  simp [bitAt, BitVec.getMsbD_eq_getLsbD, hi]

/-- What a field holds. -/
def get (w : Insn) (p : Span) : BitVec 32 :=
  (w.raw.extractLsb' (32 - (p.start + p.width)) p.width).setWidth 32

/-- The word with other contents of a field. -/
def set (w : Insn) (p : Span) (v : BitVec 32) : Insn :=
  ⟨(w.raw &&& ~~~((BitVec.allOnes p.width).setWidth 32 <<< (32 - (p.start + p.width)))) |||
    ((v &&& (BitVec.allOnes p.width).setWidth 32) <<< (32 - (p.start + p.width)))⟩

theorem checkField_eq (p : Span) : checkField p.start p.width = .ok () := by
  have hpos : p.width ≠ 0 := Nat.pos_iff_ne_zero.mp p.pos
  have hfits := p.fits
  have hsize : ¬UInt32.size ≤ p.start + p.width := by
    have : UInt32.size = 4294967296 := rfl
    omega
  rw [checkField, if_neg hpos, if_neg hsize, if_neg (by omega)]

theorem field_eq (w : Insn) (p : Span) : w.field p.start p.width = .ok (w.get p) := by
  rw [field, checkField_eq]
  rfl

theorem withField_eq (w : Insn) (p : Span) (v : BitVec 32) :
    w.withField p.start p.width v = .ok (w.set p v) := by
  rw [withField, checkField_eq]
  rfl

theorem toNat_get (w : Insn) (p : Span) :
    (w.get p).toNat = w.bits (32 - (p.start + p.width)) p.width := by
  have hfits := p.fits
  rw [get, BitVec.toNat_setWidth, bits]
  refine Nat.mod_eq_of_lt ((BitVec.isLt _).trans_le ?_)
  exact Nat.pow_le_pow_right (by decide) (by omega)

theorem toNat_get_lt (w : Insn) (p : Span) : (w.get p).toNat < 2 ^ p.width := by
  rw [toNat_get]
  exact BitVec.isLt _

theorem getLsbD_get (w : Insn) (p : Span) (j : Nat) :
    (w.get p).getLsbD j = (decide (j < p.width) && w.bitAt (p.start + p.width - 1 - j)) := by
  have hfits := p.fits
  by_cases hj : j < p.width
  · have hindex : 31 - (p.start + p.width - 1 - j) = 32 - (p.start + p.width) + j := by omega
    rw [bitAt_eq (by omega), hindex]
    simp [get, hj]
    omega
  · simp [get, hj]

theorem bitAt_set (w : Insn) (p : Span) (v : BitVec 32) {i : Nat} (hi : i < 32) :
    (w.set p v).bitAt i =
      if p.Covers i then v.getLsbD (p.start + p.width - 1 - i) else w.bitAt i := by
  have hfits := p.fits
  have hlt : 31 - i < 32 := by omega
  rw [bitAt_eq hi, bitAt_eq hi]
  -- From the least significant bit, the field begins at its shift.
  by_cases hcovers : p.Covers i
  · have hcovers' : p.start ≤ i ∧ i < p.start + p.width := hcovers
    have hshift : ¬31 - i < 32 - (p.start + p.width) := by omega
    have hindex : 31 - i - (32 - (p.start + p.width)) = p.start + p.width - 1 - i := by omega
    have hwithin : p.start + p.width - 1 - i < p.width := by omega
    have hword : p.start + p.width - 1 - i < 32 := by omega
    rw [if_pos hcovers]
    simp [set, hlt, hshift, hindex, hwithin, hword]
  · have hcovers' : ¬(p.start ≤ i ∧ i < p.start + p.width) := hcovers
    rw [if_neg hcovers]
    by_cases hshift : 31 - i < 32 - (p.start + p.width)
    · simp [set, hlt, hshift]
    · have hbeyond : ¬31 - i - (32 - (p.start + p.width)) < p.width := by omega
      simp [set, hlt, hshift, hbeyond]

/-! ## The laws of one field -/

/-- What is put is got back, cut to the width of the field. -/
theorem toNat_get_set (w : Insn) (p : Span) (v : BitVec 32) :
    ((w.set p v).get p).toNat = v.toNat % 2 ^ p.width := by
  have hfits := p.fits
  refine Nat.eq_of_testBit_eq fun j => ?_
  rw [BitVec.testBit_toNat, getLsbD_get, Nat.testBit_mod_two_pow, BitVec.testBit_toNat]
  by_cases hj : j < p.width
  · have hcovers : p.Covers (p.start + p.width - 1 - j) := ⟨by omega, by omega⟩
    rw [bitAt_set w p v (by omega), if_pos hcovers]
    congr 2
    omega
  · simp [hj]

/-- Contents that look the same within the field are the same to it. -/
theorem bitAt_set_of_mod {x : BitVec 32} (hx : x.toNat % 2 ^ p.width = (w.get p).toNat) {i : Nat}
    (hi : i < 32) : (w₀.set p x).bitAt i = if p.Covers i then w.bitAt i else w₀.bitAt i := by
  rw [bitAt_set w₀ p x hi]
  split
  next hcovers =>
    obtain ⟨hstart, hend⟩ := hcovers
    have hj : p.start + p.width - 1 - i < p.width := by omega
    calc x.getLsbD (p.start + p.width - 1 - i)
        = (x.toNat % 2 ^ p.width).testBit (p.start + p.width - 1 - i) := by
          rw [Nat.testBit_mod_two_pow, BitVec.testBit_toNat, decide_eq_true hj, Bool.true_and]
      _ = (w.get p).getLsbD (p.start + p.width - 1 - i) := by rw [hx, BitVec.testBit_toNat]
      _ = w.bitAt (p.start + p.width - 1 - (p.start + p.width - 1 - i)) := by
          rw [getLsbD_get, decide_eq_true hj, Bool.true_and]
      _ = w.bitAt i := by
          congr 1
          omega
  next => rfl

theorem set_get (w : Insn) (p : Span) : w.set p (w.get p) = w := by
  refine eq_of_bitAt fun i hi => ?_
  rw [bitAt_set_of_mod (Nat.mod_eq_of_lt (toNat_get_lt w p)) hi, ite_self]

theorem set_set (w : Insn) (p : Span) (v v' : BitVec 32) : (w.set p v).set p v' = w.set p v' := by
  refine eq_of_bitAt fun i hi => ?_
  rw [bitAt_set _ p v' hi, bitAt_set w p v' hi]
  split
  next => rfl
  next hcovers => rw [bitAt_set w p v hi, if_neg hcovers]

theorem get_set_of_disjoint (h : p.Disjoint q) (w : Insn) (v : BitVec 32) :
    (w.set p v).get q = w.get q := by
  have hfits := q.fits
  refine BitVec.eq_of_getLsbD_eq fun j _ => ?_
  rw [getLsbD_get, getLsbD_get]
  by_cases hj : j < q.width
  · have hq : q.Covers (q.start + q.width - 1 - j) := ⟨by omega, by omega⟩
    have hp : ¬p.Covers (q.start + q.width - 1 - j) := fun hp => h _ ⟨hp, hq⟩
    rw [bitAt_set w p v (by omega), if_neg hp]
  · simp [hj]

/-! ## Joined fields -/

/-- The width of fields that are joined. -/
def breadth (ps : List Span) : Nat := (ps.map Span.width).sum

/-- The number that fields hold together, the most significant one first. -/
def joined (w : Insn) : List Span → Except Fault Nat
  | [] => .ok 0
  | p :: ps => do
      let high ← w.field p.start p.width
      let low ← w.joined ps
      return high.toNat * 2 ^ breadth ps + low

/-- The word with a number put into joined fields. -/
def spread (v : Int) : List Span → Insn → Except Fault Insn
  | [], w => .ok w
  | p :: ps, w => do
      let w ← w.withField p.start p.width (.ofInt 32 (v / 2 ^ breadth ps))
      spread v ps w

/-- What joined fields hold. -/
def together (w : Insn) : List Span → Nat
  | [] => 0
  | p :: ps => (w.get p).toNat * 2 ^ breadth ps + w.together ps

theorem joined_eq (w : Insn) (ps : List Span) : w.joined ps = .ok (w.together ps) := by
  induction ps with
  | nil => rfl
  | cons p ps ih =>
      rw [joined, field_eq, ih]
      rfl

theorem together_lt (w : Insn) (ps : List Span) : w.together ps < 2 ^ breadth ps := by
  induction ps with
  | nil => exact Nat.one_pos
  | cons p ps ih =>
      have hp := toNat_get_lt w p
      calc w.together (p :: ps) < (w.get p).toNat * 2 ^ breadth ps + 2 ^ breadth ps :=
            Nat.add_lt_add_left ih _
        _ = ((w.get p).toNat + 1) * 2 ^ breadth ps := by rw [Nat.add_mul, Nat.one_mul]
        _ ≤ 2 ^ p.width * 2 ^ breadth ps := Nat.mul_le_mul_right _ hp
        _ = 2 ^ breadth (p :: ps) := by rw [← Nat.pow_add]; rfl

/-- The bits of several fields. -/
def Among (ps : List Span) (i : Nat) : Prop := ∃ p ∈ ps, p.Covers i

instance (ps : List Span) (i : Nat) : Decidable (Among ps i) :=
  inferInstanceAs (Decidable (∃ p ∈ ps, p.Covers i))

theorem among_cons {i : Nat} : Among (p :: ps) i ↔ p.Covers i ∨ Among ps i := by
  simp [Among]

/-- The parts of a number of two joined fields. -/
theorem split_mod {v : Int} {n k f g : Nat} (hg : g < 2 ^ k)
    (hv : v % 2 ^ (n + k) = (f * 2 ^ k + g : Nat)) (hf : f < 2 ^ n) :
    v / 2 ^ k % 2 ^ n = f ∧ v % 2 ^ k = g := by
  have hparts : v / 2 ^ k = 2 ^ n * (v / 2 ^ (n + k)) + f ∧ v % 2 ^ k = g := by
    refine (Int.ediv_emod_unique (by positivity)).mpr ⟨?_, by omega, by exact_mod_cast hg⟩
    have hv' := Int.mul_ediv_add_emod v (2 ^ (n + k))
    rw [hv] at hv'
    push_cast at hv'
    linear_combination hv'
  refine ⟨?_, hparts.2⟩
  rw [hparts.1, Int.mul_add_emod_self_left]
  exact Int.emod_eq_of_lt (by omega) (by exact_mod_cast hf)

/-- Putting what another word holds makes the words agree on the fields. -/
theorem spread_together {v : Int} (hv : v % 2 ^ breadth ps = w.together ps) :
    ∃ w₁, spread v ps w₀ = .ok w₁ ∧
      ∀ i < 32, w₁.bitAt i = if Among ps i then w.bitAt i else w₀.bitAt i := by
  induction ps generalizing w₀ with
  | nil => exact ⟨w₀, rfl, fun i _ => by simp [Among]⟩
  | cons p ps ih =>
      have hpow : breadth (p :: ps) = p.width + breadth ps := rfl
      rw [hpow] at hv
      obtain ⟨hhigh, hlow⟩ := split_mod (together_lt w ps) hv (toNat_get_lt w p)
      have hput : (BitVec.ofInt 32 (v / 2 ^ breadth ps)).toNat % 2 ^ p.width = (w.get p).toNat := by
        have hdvd : (2 : Int) ^ p.width ∣ 2 ^ 32 := pow_dvd_pow 2 (by have := p.fits; omega)
        refine Int.ofNat_inj.mp ?_
        rw [BitVec.toNat_ofInt, ← hhigh, Int.natCast_emod,
          Int.toNat_of_nonneg (Int.emod_nonneg _ (by decide))]
        exact Int.emod_emod_of_dvd _ hdvd
      obtain ⟨w₁, hspread, hbits⟩ := @ih (w₀.set p (.ofInt 32 (v / 2 ^ breadth ps))) hlow
      refine ⟨w₁, by rw [spread, withField_eq]; exact hspread, fun i hi => ?_⟩
      rw [hbits i hi, bitAt_set_of_mod hput hi]
      simp only [among_cons]
      by_cases hp : p.Covers i <;> by_cases hps : Among ps i <;> simp [hp, hps]

/-! ## Named fields -/

/-- The fields that have names. -/
inductive NamedField where
  | opcode | xo10 | xo9 | xo8 | xo5 | xo4 | xo3 | xo2 | vxXo | vaXo | vcXo | vcRecord
  | rd | rs | ra | rb | rcField
  | record | oe | lk | aa | lBit
  | simm16 | uimm16 | ds | dq | li24 | bd14 | bo | bi | trapOn | crfd | crfs | sh5 | mb5 | me5
  | sh6 | mb6 | spr | tbr | crm | fm | nb
  | dcm | rmc | rBit
  | xt | xs | xa | xb | xc | xxDm | xxUim
  deriving DecidableEq, Repr

/-- The halves of ten bits, put in the other order. -/
theorem spr_eq (w : Insn) : w.spr = w.bits 16 5 ||| w.bits 11 5 <<< 5 := by
  have hlow : w.bits 11 10 % 32 = w.bits 11 5 := by
    rw [bits, bits, BitVec.extractLsb'_toNat, BitVec.extractLsb'_toNat]
    exact Nat.mod_mod_of_dvd _ (by decide)
  have hhigh : w.bits 11 10 >>> 5 = w.bits 16 5 := by
    rw [bits, bits, BitVec.extractLsb'_toNat, BitVec.extractLsb'_toNat]
    simp only [Nat.shiftRight_eq_div_pow]
    omega
  rw [spr, hlow, hhigh, Nat.or_comm]

/-- A displacement of whole words. -/
theorem setWidth_displacement (w : Insn) :
    (w.raw &&& 0xFFFC).setWidth 16 = w.raw.extractLsb' 2 14 ++ 0#2 := by
  have hmask : ∀ k < 16, (0xFFFC : BitVec 32).getLsbD k = decide (2 ≤ k) := by decide
  refine BitVec.eq_of_getLsbD_eq fun k hk => ?_
  rw [BitVec.getLsbD_setWidth, BitVec.getLsbD_and, hmask k hk, BitVec.getLsbD_append,
    BitVec.getLsbD_extractLsb']
  by_cases hlow : k < 2
  · simp [hlow, Nat.not_le.mpr hlow]
  · simp only [hk, hlow, Nat.not_lt.mp hlow, Nat.add_sub_cancel' (Nat.not_lt.mp hlow),
      show k - 2 < 14 by omega, decide_true, Bool.true_and, Bool.and_true,
      if_false]

namespace NamedField

/-- The value of a field; a single bit is zero or one. -/
def read : NamedField → Insn → Int
  | opcode, w => w.opcode
  | xo10, w => w.xo10
  | xo9, w => w.xo9
  | xo8, w => w.xo8
  | xo5, w => w.xo5
  | xo4, w => w.xo4
  | xo3, w => w.xo3
  | xo2, w => w.xo2
  | vxXo, w => w.vxXo
  | vaXo, w => w.vaXo
  | vcXo, w => w.vcXo
  | vcRecord, w => w.vcRecord.toNat
  | rd, w => w.rd
  | rs, w => w.rs
  | ra, w => w.ra
  | rb, w => w.rb
  | rcField, w => w.rcField
  | record, w => w.record.toNat
  | oe, w => w.oe.toNat
  | lk, w => w.lk.toNat
  | aa, w => w.aa.toNat
  | lBit, w => w.lBit.toNat
  | simm16, w => w.simm16
  | uimm16, w => w.uimm16
  | ds, w => w.ds
  | dq, w => w.dq
  | li24, w => w.li24
  | bd14, w => w.bd14
  | bo, w => w.bo
  | bi, w => w.bi
  | trapOn, w => w.trapOn
  | crfd, w => w.crfd
  | crfs, w => w.crfs
  | sh5, w => w.sh5
  | mb5, w => w.mb5
  | me5, w => w.me5
  | sh6, w => w.sh6
  | mb6, w => w.mb6
  | spr, w => w.spr
  | tbr, w => w.tbr
  | crm, w => w.crm
  | fm, w => w.fm
  | nb, w => w.nb
  | dcm, w => w.dcm
  | rmc, w => w.rmc
  | rBit, w => w.rBit.toNat
  | xt, w => w.xt
  | xs, w => w.xs
  | xa, w => w.xa
  | xb, w => w.xb
  | xc, w => w.xc
  | xxDm, w => w.xxDm
  | xxUim, w => w.xxUim

/-- The places that a field is joined from, the most significant one first. -/
def parts : NamedField → List Span
  | opcode => [.mk 0 6]
  | xo10 => [.mk 21 10]
  | xo9 => [.mk 22 9]
  | xo8 => [.mk 23 8]
  | xo5 => [.mk 26 5]
  | xo4 => [.mk 27 4]
  | xo3 => [.mk 27 3]
  | xo2 => [.mk 30 2]
  | vxXo => [.mk 21 11]
  | vaXo => [.mk 26 6]
  | vcXo => [.mk 22 10]
  | vcRecord | oe => [.mk 21 1]
  | rd | rs | bo | trapOn => [.mk 6 5]
  | ra | bi => [.mk 11 5]
  | rb | sh5 | nb => [.mk 16 5]
  | rcField | mb5 => [.mk 21 5]
  | record | lk => [.mk 31 1]
  | aa => [.mk 30 1]
  | lBit => [.mk 10 1]
  | simm16 | uimm16 => [.mk 16 16]
  | ds | bd14 => [.mk 16 14]
  | dq => [.mk 16 12]
  | li24 => [.mk 6 24]
  | crfd => [.mk 6 3]
  | crfs => [.mk 11 3]
  | me5 => [.mk 26 5]
  | sh6 => [.mk 30 1, .mk 16 5]
  | mb6 => [.mk 26 1, .mk 21 5]
  -- The two halves are swapped.
  | spr | tbr => [.mk 16 5, .mk 11 5]
  | crm => [.mk 12 8]
  | fm => [.mk 7 8]
  | dcm => [.mk 16 6]
  | rmc => [.mk 21 2]
  | rBit => [.mk 15 1]
  | xt | xs => [.mk 31 1, .mk 6 5]
  | xa => [.mk 29 1, .mk 11 5]
  | xb => [.mk 30 1, .mk 16 5]
  | xc => [.mk 28 1, .mk 21 5]
  | xxDm => [.mk 22 2]
  | xxUim => [.mk 14 2]

/-- Whether the most significant bit is a sign. -/
def isSigned : NamedField → Bool
  | simm16 | ds => true
  | _ => false

/-- How many zeros stand behind the bits of a field. -/
def zeros : NamedField → Nat
  | ds => 2
  | _ => 0

/-- The value of a field by its places. -/
def describe (a : NamedField) (w : Insn) : Except Fault Int := do
  let n ← w.joined a.parts
  let v : Int := if a.isSigned then Int.bmod n (2 ^ breadth a.parts) else n
  return v * 2 ^ a.zeros

/-- The word with a field put by its places. -/
def put (a : NamedField) (v : Int) (w : Insn) : Except Fault Insn :=
  spread (v / 2 ^ a.zeros) a.parts w

variable {a : NamedField}

theorem describe_eq (a : NamedField) (w : Insn) : a.describe w = .ok
    ((if a.isSigned then Int.bmod (w.together a.parts) (2 ^ breadth a.parts)
      else w.together a.parts) * 2 ^ a.zeros) := by
  rw [describe, joined_eq]
  rfl

/-- A field that is a number in one place. -/
theorem describe_number (hparts : a.parts = [p]) (hsigned : a.isSigned = false)
    (hzeros : a.zeros = 0) (hread : a.read w = w.bits (32 - (p.start + p.width)) p.width) :
    a.describe w = .ok (a.read w) := by
  rw [describe_eq, hparts, hsigned, hzeros, hread, ← toNat_get]
  simp [together, breadth]

theorem toNat_flag (w : Insn) (shift : Nat) : (w.flag shift).toNat = w.bits shift 1 := by
  rw [flag, bits, BitVec.extractLsb'_toNat, ← BitVec.testBit_toNat, Nat.toNat_testBit,
    Nat.shiftRight_eq_div_pow, Nat.pow_one]

/-- A field that is a number in two places. -/
theorem describe_pair (hparts : a.parts = [p, q]) (hsigned : a.isSigned = false)
    (hzeros : a.zeros = 0)
    (hread : a.read w = (w.bits (32 - (q.start + q.width)) q.width |||
      (w.bits (32 - (p.start + p.width)) p.width <<< q.width) : Nat)) :
    a.describe w = .ok (a.read w) := by
  have hlow := toNat_get_lt w q
  have hor := Nat.shiftLeft_add_eq_or_of_lt hlow (w.get p).toNat
  rw [describe_eq, hparts, hsigned, hzeros, hread, ← toNat_get, ← toNat_get, Nat.or_comm, ← hor,
    Nat.shiftLeft_eq]
  simp [together, breadth]

/-- A field that is a signed number in one place. -/
theorem describe_signed (hparts : a.parts = [p]) (hsigned : a.isSigned = true)
    (hread : a.read w =
      (w.raw.extractLsb' (32 - (p.start + p.width)) p.width).toInt * 2 ^ a.zeros) :
    a.describe w = .ok (a.read w) := by
  rw [describe_eq, hparts, hsigned, hread, BitVec.toInt_eq_toNat_bmod]
  simp [together, breadth, toNat_get, bits]

theorem describe_read (a : NamedField) (w : Insn) : a.describe w = .ok (a.read w) := by
  cases a with
  | opcode | xo10 | xo9 | xo8 | xo5 | xo4 | xo3 | xo2 | vxXo | vaXo | vcXo | rd | rs | ra | rb
  | rcField | uimm16 | dq | li24 | bd14 | bo | bi | trapOn | crfd | crfs | sh5 | mb5 | me5 | crm
  | fm | nb | dcm | rmc | xxDm | xxUim => exact describe_number rfl rfl rfl rfl
  | vcRecord | record | oe | lk | aa | lBit | rBit =>
      exact describe_number rfl rfl rfl (congrArg Int.ofNat (toNat_flag w _))
  | sh6 | mb6 | xt | xs | xa | xb | xc => exact describe_pair rfl rfl rfl rfl
  | spr | tbr => exact describe_pair rfl rfl rfl (congrArg Int.ofNat (spr_eq w))
  | simm16 =>
      refine describe_signed rfl rfl ?_
      rw [read, Insn.simm16, BitVec.setWidth_eq_extractLsb' (by decide)]
      exact (Int.mul_one _).symm
  | ds =>
      refine describe_signed rfl rfl ?_
      rw [read, Insn.ds, setWidth_displacement, BitVec.toInt_append_zero]
      exact Int.mul_comm _ _

/-- The bits of a field, from its value. -/
theorem read_mod (a : NamedField) (w : Insn) :
    a.read w / 2 ^ a.zeros % 2 ^ breadth a.parts = w.together a.parts := by
  have hread : a.read w = (if a.isSigned then Int.bmod (w.together a.parts) (2 ^ breadth a.parts)
      else w.together a.parts) * 2 ^ a.zeros :=
    Except.ok.inj ((describe_read a w).symm.trans (describe_eq a w))
  have hlt : (w.together a.parts : Int) < 2 ^ breadth a.parts := by
    exact_mod_cast together_lt w a.parts
  have hmod : (w.together a.parts : Int) % 2 ^ breadth a.parts = w.together a.parts :=
    Int.emod_eq_of_lt (Int.natCast_nonneg _) hlt
  rw [hread, Int.mul_ediv_cancel _ (by positivity)]
  split
  next =>
    have hcast : ((2 ^ breadth a.parts : Nat) : Int) = 2 ^ breadth a.parts := by norm_cast
    rw [← hcast, Int.bmod_emod, hcast, hmod]
  next => exact hmod

/-- Putting a field that another word has makes the words agree on it. -/
theorem put_read (a : NamedField) (w w₀ : Insn) : ∃ w₁, a.put (a.read w) w₀ = .ok w₁ ∧
    ∀ i < 32, w₁.bitAt i = if Among a.parts i then w.bitAt i else w₀.bitAt i :=
  spread_together (read_mod a w)

end NamedField

/-! ## Forms -/

/-- The word with several fields put, one after another. -/
def encode (fields : List NamedField) (value : NamedField → Int) (w : Insn) : Except Fault Insn :=
  fields.foldlM (fun w a => a.put (value a) w) w

/-- Whether one of several fields has a bit. -/
def Named (fields : List NamedField) (i : Nat) : Prop := ∃ a ∈ fields, Among a.parts i

instance (fields : List NamedField) (i : Nat) : Decidable (Named fields i) :=
  inferInstanceAs (Decidable (∃ a ∈ fields, Among a.parts i))

/-- Putting fields that another word has makes the words agree on all of them. -/
theorem encode_read (fields : List NamedField) (w w₀ : Insn) :
    ∃ w₁, encode fields (·.read w) w₀ = .ok w₁ ∧
      ∀ i < 32, w₁.bitAt i = if Named fields i then w.bitAt i else w₀.bitAt i := by
  induction fields generalizing w₀ with
  | nil => exact ⟨w₀, rfl, fun i _ => by simp [Named]⟩
  | cons a fields ih =>
      obtain ⟨w', hput, hbits'⟩ := a.put_read w w₀
      obtain ⟨w₁, hencode, hbits⟩ := ih w'
      refine ⟨w₁, ?_, fun i hi => ?_⟩
      · rw [encode, List.foldlM_cons, hput]
        exact hencode
      · have hcons : Named (a :: fields) i ↔ Among a.parts i ∨ Named fields i := by simp [Named]
        rw [hbits i hi, hbits' i hi]
        simp only [hcons]
        by_cases ha : Among a.parts i <;> by_cases hfields : Named fields i <;> simp [ha, hfields]

/-- The ways to lay out a word. -/
inductive Form where
  | i | b | d | ds | dq | x | xo | xl | xs
  | xfx
  /-- As `xfx`, with a mask of condition fields. -/
  | xfxMask
  | xfl | m | md | mds | a | vx | va | vc | xx1 | xx2 | xx3 | xx4 | z22 | z23
  deriving DecidableEq, Repr

namespace Form

/-- The named fields of a form. Where an extended opcode has no name of its own, one that is wider
is read, and the registers whose bits it shares come out the same. -/
def fields : Form → List NamedField
  | i => [.opcode, .li24, .aa, .lk]
  | b => [.opcode, .bo, .bi, .bd14, .aa, .lk]
  | d => [.opcode, .rd, .ra, .simm16]
  | ds => [.opcode, .rd, .ra, .ds, .xo2]
  | dq => [.opcode, .rd, .ra, .dq]
  | x => [.opcode, .rd, .ra, .rb, .xo10, .record]
  | xo => [.opcode, .rd, .ra, .rb, .oe, .xo9, .record]
  | xl => [.opcode, .bo, .bi, .rb, .xo10, .lk]
  | xs => [.opcode, .rs, .ra, .sh6, .xo10, .record]
  | xfx => [.opcode, .rd, .spr, .xo10, .record]
  | xfxMask => [.opcode, .rd, .crm, .xo10, .record]
  | xfl => [.opcode, .fm, .rb, .xo10, .record]
  | m => [.opcode, .rs, .ra, .sh5, .mb5, .me5, .record]
  | md => [.opcode, .rs, .ra, .sh6, .mb6, .xo3, .record]
  | mds => [.opcode, .rs, .ra, .rb, .mb6, .xo4, .record]
  | a => [.opcode, .rd, .ra, .rb, .rcField, .xo5, .record]
  | vx => [.opcode, .rd, .ra, .rb, .vxXo]
  | va => [.opcode, .rd, .ra, .rb, .rcField, .vaXo]
  | vc => [.opcode, .rd, .ra, .rb, .vcRecord, .vcXo]
  | xx1 => [.opcode, .xt, .ra, .rb, .xo10]
  | xx2 => [.opcode, .xt, .ra, .xb, .xo10]
  | xx3 => [.opcode, .xt, .xa, .xb, .xo10]
  | xx4 => [.opcode, .xt, .xa, .xb, .xc, .xo5]
  | z22 => [.opcode, .rd, .ra, .dcm, .xo9, .record]
  | z23 => [.opcode, .rd, .ra, .rb, .rmc, .xo8, .record]

/-- The bits of a form that belong to no named field. -/
def unnamed : Form → List Nat
  | dq => [28, 29, 30, 31]
  | xfxMask => [11, 20]
  | xfl => [6, 15]
  | _ => []

theorem named_or_unnamed (form : Form) :
    ∀ i < 32, Named form.fields i ∨ i ∈ form.unnamed := by
  cases form <;> decide

end Form

/-- A word put together again from the fields of its form is the same. -/
theorem encode_form (form : Form) {w w₀ : Insn} (h : ∀ i ∈ form.unnamed, w₀.bitAt i = w.bitAt i) :
    encode form.fields (·.read w) w₀ = .ok w := by
  obtain ⟨w₁, hencode, hbits⟩ := encode_read form.fields w w₀
  obtain rfl : w₁ = w := by
    refine eq_of_bitAt fun i hi => ?_
    rw [hbits i hi]
    split
    next => rfl
    next hnot => exact h i ((form.named_or_unnamed i hi).resolve_left hnot)
  exact hencode

/-- A field is read from its bits as they stand in the word, reading and putting undo each other,
and putting touches no other field. Each named field is what the fields at its places hold, and so
the named fields of a form make up its words. -/
theorem fields_lawful :
    (∀ (w : Insn) (p : Span), ∃ f, w.field p.start p.width = .ok f ∧
      (∀ j, f.getLsbD j = (decide (j < p.width) && w.bitAt (p.start + p.width - 1 - j))) ∧
      w.withField p.start p.width f = .ok w) ∧
    (∀ (w : Insn) (p : Span) (v : BitVec 32), ∃ w', w.withField p.start p.width v = .ok w' ∧
      (∃ f, w'.field p.start p.width = .ok f ∧ f.toNat = v.toNat % 2 ^ p.width) ∧
      (∀ v', w'.withField p.start p.width v' = w.withField p.start p.width v') ∧
      ∀ q, p.Disjoint q → w'.field q.start q.width = w.field q.start q.width) ∧
    (∀ (a : NamedField) (w : Insn), a.describe w = .ok (a.read w)) ∧
    (∀ (fields : List NamedField) (w w₀ : Insn), ∃ w₁, encode fields (·.read w) w₀ = .ok w₁ ∧
      ∀ i < 32, w₁.bitAt i = if Named fields i then w.bitAt i else w₀.bitAt i) ∧
    ∀ (form : Form) (w w₀ : Insn), (∀ i ∈ form.unnamed, w₀.bitAt i = w.bitAt i) →
      encode form.fields (·.read w) w₀ = .ok w := by
  refine ⟨fun w p => ⟨w.get p, field_eq w p, getLsbD_get w p, ?_⟩, fun w p v => ?_,
    NamedField.describe_read, encode_read, fun form w w₀ h => encode_form form h⟩
  · rw [withField_eq, set_get]
  · refine ⟨w.set p v, withField_eq w p v, ⟨_, field_eq _ p, toNat_get_set w p v⟩, fun v' => ?_,
      fun q hq => ?_⟩
    · rw [withField_eq, withField_eq, set_set]
    · rw [field_eq, field_eq, get_set_of_disjoint hq]

end PowerLift.Insn
