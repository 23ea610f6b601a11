import PowerLift.Family.Comparison
import PowerLift.Proofs.BitGroups
import PowerLift.Proofs.Comparisons
import PowerLift.Proofs.Shifts

/-!
# Steps that look at bits

Some instructions look at the bits of a register one by one. Their code works on all groups of bits
at once, or keeps away from operands that an operator gives no result for.
-/

namespace PowerLift

open Point (Knows Before Next)
open PowerLift.Expr (un bin)

variable {M : Type} {I : Interp M} {env : Env} {c : Point M}

/-! ## Operators that count -/

/-- The operators that count bits or join words. -/
def Op.isCounting : Op → Bool
  | .clz _ | .ctz _ | .popCount _ | .cast .cat32to64 => true
  | _ => false

namespace Interp

/-- Besides, the set bits of a number are counted, and the zeros at either end of a number that is
not zero. Two words are joined. -/
structure Counting (I : Interp M) : Prop extends I.Scalar where
  clz (v : Word) (x : BitVec v.ty.bits) (hx : x ≠ 0) : I.op (.clz v) [⟨v.ty, x⟩] = x.clz
  ctz (v : Word) (x : BitVec v.ty.bits) (hx : x ≠ 0) : I.op (.ctz v) [⟨v.ty, x⟩] = x.ctz
  popCount (v : Word) (x : BitVec v.ty.bits) : I.op (.popCount v) [⟨v.ty, x⟩] = x.cpop
  cat32to64 (x y : BitVec 32) : I.op (.cast .cat32to64) [⟨.i32, x⟩, ⟨.i32, y⟩] = x ++ y

/-- The operators on integers with counts of bits. The zeros of zero are not counted. -/
def countingOp : (op : Op) → List Value → BitVec op.signature.ret.bits
  | .clz v => unary v.ty fun x => if x = 0 then 0 else x.clz
  | .ctz v => unary v.ty fun x => if x = 0 then 0 else x.ctz
  | .popCount v => unary v.ty (·.cpop)
  | .cast .cat32to64 => binary .i32 .i32 fun x y => x ++ y
  | op => scalarOp op

/-- The interpretation with memory in bytes, the arithmetic of integers and counts of bits. -/
def counting (order : ByteOrder) : Interp Reserved := { bytewise order with op := countingOp }

/-- Another interpretation that agrees up to counts has the operators on integers too. -/
theorem Scalar.congr {N : Type} {I : Interp M} {J : Interp N} (hJ : J.Scalar)
    (h : ∀ op, op.isCounting = false → I.op op = J.op op) : I.Scalar where
  toIntegral := hJ.toIntegral.congr fun op hop => by
    refine h op ?_
    cases op with
    | cast c => cases c <;> first | rfl | cases hop
    | clz v | ctz v | popCount v => cases hop
    | _ => rfl
  not1 b := (congrFun (h _ rfl) _).trans (hJ.not1 b)
  extend c hc ty harg x := by
    have hop : (Op.cast c).isCounting = false := by cases c <;> first | rfl | cases hc
    exact (congrFun (h _ hop) _).trans (hJ.extend c hc ty harg x)
  reverse16 x := (congrFun (h _ rfl) _).trans (hJ.reverse16 x)
  reverse v x := (congrFun (h _ rfl) _).trans (hJ.reverse v x)

theorem counting_counting (order : ByteOrder) : (counting order).Counting where
  toScalar := (scalar_scalar order).congr fun op hop => by
    cases op with
    | cast c => cases c <;> first | rfl | cases hop
    | clz v | ctz v | popCount v => cases hop
    | _ => rfl
  clz v x hx := (unary_mk (fun x : BitVec v.ty.bits => if x = 0 then 0 else x.clz) x).trans
    (if_neg hx)
  ctz v x hx := (unary_mk (fun x : BitVec v.ty.bits => if x = 0 then 0 else x.ctz) x).trans
    (if_neg hx)
  popCount v x := unary_mk (fun x : BitVec v.ty.bits => x.cpop) x
  cat32to64 x y := binary_mk (fun (x : BitVec Ty.i32.bits) (y : BitVec Ty.i32.bits) => x ++ y) x y

end Interp

namespace Logic

section

variable {e s : Expr} {S : GuestState → Prop}

/-! ## Counts -/

theorem countZeros_knows (hI : I.Counting) {v : Word} {x : BitVec v.ty.bits}
    (he : c.Knows I S e ⟨v.ty, x⟩) (leading : Bool) :
    c.Knows I S (countZeros v leading e) ⟨v.ty, zeroCount leading x⟩ := by
  have hzero : c.Knows I S (bin (.cmpEQ v.width) e (FlagRule.lit v 0)) ⟨.i1, .ofBool (x == 0)⟩ :=
    he.equal (Point.knows_zero v) hI.toIntegral
  have hbits := Point.knows_lit (c := c) (I := I) (S := S) v (.ofNat 64 v.bits)
  unfold countZeros
  refine hzero.ite hbits.check ?_ (fun hx => hbits.congr ?_) fun hx => ?_
  · cases leading <;> exact Stage.check_un (by cases v <;> rfl) he.check
  · obtain rfl : x = 0 := eq_of_beq hx
    rw [zeroCount_zero]
    cases v <;> rfl
  · have hne : x ≠ 0 := by simpa using hx
    cases leading with
    | true => exact he.un (by cases v <;> rfl) (hI.clz v x hne)
    | false => exact he.un (by cases v <;> rfl) (hI.ctz v x hne)

/-- A shift by less than the width of a word. -/
theorem shr_knows (hI : I.Bitwise) {x : BitVec env.arch.word.ty.bits}
    (he : c.Knows I S e ⟨env.arch.word.ty, x⟩) (k : BitVec 8) (hk : k.toNat < 32) :
    c.Knows I S (bin (.shr env.arch.word.width) e (.u8 k)) ⟨env.arch.word.ty, x >>> k.toNat⟩ := by
  refine he.shr hI (.const (.u8 k)) (hk.trans_le ?_)
  cases env.arch <;> decide

theorem popCountBytes_reaches (hI : I.Modular) {x : BitVec env.arch.word.ty.bits}
    (hs : ∀ {S}, c.Knows I S s ⟨env.arch.word.ty, x⟩) :
    Reaches env I c (popCountBytes s) fun e c' => c'.state = c.state ∧ ∃ y,
      (∀ {S}, c'.Knows I S e ⟨env.arch.word.ty, y⟩) ∧ Lanewise 8 BitVec.cpop x y := by
  have hwidth : env.arch.word.ty.bits ≤ 64 := by cases env.arch <;> decide
  have hB := hI.toBitwise
  unfold popCountBytes
  refine .give rfl (.bind (S := fun _ => True) (hs.sub ((shr_knows hB hs 1 (by decide)).and
    (Point.knows_imm 0x5555555555555555) hB) hI) trivial fun pairs c₁ _ hquiet₁ hpairs => ?_)
  refine .bind (S := fun _ => True) ((hpairs.and (Point.knows_imm 0x3333333333333333) hB).add
    ((shr_knows hB hpairs 2 (by decide)).and (Point.knows_imm 0x3333333333333333) hB) hI) trivial
      fun nibbles c₂ _ hquiet₂ hnibbles => ?_
  refine .pure ⟨hquiet₂.state_eq.trans hquiet₁.state_eq, _, (hnibbles.add
    (shr_knows hB hnibbles 4 (by decide)) hI).and (Point.knows_imm 0x0F0F0F0F0F0F0F0F) hB, ?_⟩
  have hones : HoldsLower 1 (0x5555555555555555 : BitVec 64) := by decide
  have hpairs : HoldsLower 2 (0x3333333333333333 : BitVec 64) := by decide
  have hnibbles : HoldsLower 4 (0x0F0F0F0F0F0F0F0F : BitVec 64) := by decide
  exact lanewise_countBytes (hones.setWidth hwidth) (hpairs.setWidth hwidth)
    (hnibbles.setWidth hwidth) x

/-- A number is folded onto its lower part. -/
theorem fold_reaches {β : Type} {f : Expr → Lift β} {Q : β → Point M → Prop} (hI : I.Bitwise)
    {x : BitVec env.arch.word.ty.bits} (he : ∀ {S}, c.Knows I S e ⟨env.arch.word.ty, x⟩)
    (k : BitVec 8) (hk : k.toNat < 32 ∨ env.arch = .ppc64 ∧ k.toNat < 64)
    (hf : ∀ t c' [Next I c c'], c'.state = c.state →
      (∀ {S}, c'.Knows I S t ⟨env.arch.word.ty, x ^^^ x >>> k.toNat⟩) → Reaches env I c' (f t) Q) :
    Reaches env I c (Lift.bind (bin (.xor env.arch.word.width) e
      (bin (.shr env.arch.word.width) e (.u8 k))) >>= f) Q := by
  have hlt : k.toNat < env.arch.word.bits := by
    obtain hk | ⟨harch, hk⟩ := hk
    · refine hk.trans_le ?_
      cases env.arch <;> decide
    · rw [harch]
      exact hk
  refine .bind (S := fun _ => True) (he.xor (he.shr hI (.const (.u8 k)) hlt) hI) trivial ?_
  intro t c' _ hquiet ht
  exact hf t c' hquiet.state_eq ht

theorem parityWords_reaches (hI : I.Bitwise) {x : BitVec env.arch.word.ty.bits}
    (hs : ∀ {S}, c.Knows I S s ⟨env.arch.word.ty, x⟩) :
    Reaches env I c (parity s true) fun e c' => c'.state = c.state ∧ ∃ y,
      (∀ {S}, c'.Knows I S e ⟨env.arch.word.ty, y⟩) ∧
        Lanewise 32 (fun z => truthWord 32 (oddBytes z)) x y := by
  have hwidth : env.arch.word.ty.bits ≤ 64 := by cases env.arch <;> decide
  unfold parity
  refine .give rfl (.bind (S := fun _ => True) (hs.and (Point.knows_imm 0x0101010101010101) hI)
    trivial fun a c₁ _ hquiet₁ ha => .give rfl ?_)
  refine fold_reaches hI ha 16 (.inl (by decide)) fun b c₂ _ hstate₂ hb => ?_
  refine fold_reaches hI hb 8 (.inl (by decide)) fun d c₃ _ hstate₃ hd => ?_
  refine .pure ⟨hstate₃.trans (hstate₂.trans hquiet₁.state_eq), _,
    hd.and (Point.knows_imm 0x0000000100000001) hI, ?_⟩
  have hlow : HoldsLowest 8 (0x0101010101010101 : BitVec 64) := by decide
  have hkeep : HoldsLowest 32 (0x0000000100000001 : BitVec 64) := by decide
  exact lanewise_parityWords (hlow.setWidth hwidth) (hkeep.setWidth hwidth) x

theorem parityDoublewords_reaches (hI : I.Bitwise) (harch : env.arch = .ppc64)
    {x : BitVec env.arch.word.ty.bits} (hs : ∀ {S}, c.Knows I S s ⟨env.arch.word.ty, x⟩) :
    Reaches env I c (parity s false) fun e c' => c'.state = c.state ∧ ∃ y,
      (∀ {S}, c'.Knows I S e ⟨env.arch.word.ty, y⟩) ∧
        Lanewise 64 (fun z => truthWord 64 (oddBytes z)) x y := by
  have hwidth : env.arch.word.ty.bits ≤ 64 := by cases env.arch <;> decide
  unfold parity
  refine .give rfl (.bind (S := fun _ => True) (hs.and (Point.knows_imm 0x0101010101010101) hI)
    trivial fun a c₁ _ hquiet₁ ha => ?_)
  rw [if_pos (by rw [harch]; rfl)]
  refine fold_reaches hI ha 32 (.inr ⟨harch, by decide⟩) fun b c₂ _ hstate₂ hb => ?_
  refine fold_reaches hI hb 16 (.inl (by decide)) fun d c₃ _ hstate₃ hd => ?_
  refine fold_reaches hI hd 8 (.inl (by decide)) fun e c₄ _ hstate₄ he => ?_
  refine .pure ⟨hstate₄.trans (hstate₃.trans (hstate₂.trans hquiet₁.state_eq)), _,
    he.and (Point.knows_imm 1) hI, ?_⟩
  have hlow : HoldsLowest 8 (0x0101010101010101 : BitVec 64) := by decide
  have hkeep : HoldsLowest 64 (1 : BitVec 64) := by decide
  exact lanewise_parityDoublewords (hlow.setWidth hwidth) (hkeep.setWidth hwidth) x

/-! ## Gathered bits -/

/-- One bit of a number, the most significant first. -/
theorem truthWord_getMsbD (b : BitVec 64) {j : Nat} (hj : j < 64) :
    b >>> (63 - j) &&& 1 = truthWord 64 (b.getMsbD j) := by
  apply BitVec.eq_of_getLsbD_eq
  intro t ht
  rw [BitVec.getLsbD_and, BitVec.getLsbD_ushiftRight, truthWord, BitVec.getLsbD_setWidth,
    BitVec.getLsbD_ofBool, BitVec.getMsbD_eq_getLsbD]
  by_cases hzero : t = 0
  · simp [hzero, hj]
  · simp [hzero]

/-- The bit that a byte chooses. Beyond the last bit, the amount of the shift means nothing. -/
theorem chosen_knows (hI : I.Counting) {index b : Expr} {x y : BitVec 64}
    (hindex : c.Knows I S index ⟨.i64, y⟩) (hb : c.Knows I S b ⟨.i64, x⟩) :
    c.Knows I S (.ite (bin (.cmpLT .w64 .unsigned) index (.u64 64))
      (bin .and64 (bin .shr64 b (un (.cast .low64to8) (bin .sub64 (.u64 63) index))) (.u64 1))
      (.u64 0)) ⟨.i64, truthWord 64 (x.getMsbD y.toNat)⟩ := by
  have hless : c.Knows I S (bin (.cmpLT .w64 .unsigned) index (.u64 64))
      ⟨.i1, .ofBool (decide (y.toNat < 64))⟩ := by
    refine (hindex.bin (.const (.u64 64)) rfl (hI.cmpLT .w64 .unsigned y 64)).congr ?_
    refine congrArg (fun p => Value.mk .i1 (.ofBool p)) ?_
    rw [decide_eq_decide]
    exact Int.ofNat_lt
  have hamount : c.Knows I S (un (.cast .low64to8) (bin .sub64 (.u64 63) index))
      ⟨.i8, (63 - y).setWidth 8⟩ :=
    (Knows.const (.u64 63)).sub (w := .w64) hindex hI.toModular |>.lowByte hI.toBitwise
  refine hless.ite ?_ rfl (fun hy => ?_) fun hy => ?_
  · exact Stage.check_bin rfl (Stage.check_bin rfl hb.check hamount.check) rfl
  · have hlt : y.toNat < 64 := of_decide_eq_true hy
    have hk : ((63 - y).setWidth 8).toNat = 63 - y.toNat := by
      have hle : y ≤ 63 := BitVec.le_def.mpr (Nat.le_of_lt_succ hlt)
      rw [BitVec.toNat_setWidth, BitVec.toNat_sub_of_le hle]
      change (63 - y.toNat) % 256 = _
      omega
    have hwithin : ((63 - y).setWidth 8).toNat < Word.w64.bits := by
      rw [hk]
      change _ < 64
      omega
    have hshifted := hb.shr (w := .w64) hI.toBitwise hamount hwithin
    refine (hshifted.and (w := .w64) (.const (.u64 1)) hI.toBitwise).congr ?_
    rw [hk]
    exact congrArg (Value.mk .i64) (truthWord_getMsbD x hlt)
  · have hge : 64 ≤ y.toNat := Nat.le_of_not_lt (of_decide_eq_false hy)
    rw [BitVec.getMsbD_of_ge x _ hge]
    exact .const (.u64 0)

end

/-- The bits that bytes `i` and up of `s` choose in `b`. -/
def Gathered (s b : BitVec 64) (i : Nat) (x : BitVec 64) : Prop :=
  ∀ t, x.getLsbD t = (decide (i ≤ t ∧ t < 8) && b.getMsbD (s.extractLsb' (8 * t) 8).toNat)

theorem Gathered.next {s b x : BitVec 64} {i : Nat} (hi : i < 8) (h : Gathered s b (i + 1) x) :
    Gathered s b i (x ||| truthWord 64 (b.getMsbD (s.extractLsb' (8 * i) 8).toNat) <<< i) := by
  intro t
  rw [BitVec.getLsbD_or, h t, BitVec.getLsbD_shiftLeft, truthWord, BitVec.getLsbD_setWidth,
    BitVec.getLsbD_ofBool]
  obtain hlt | rfl | hgt := Nat.lt_trichotomy t i
  · simp [hlt, show ¬i ≤ t by omega, show ¬i + 1 ≤ t by omega]
  · simp [hi, show t < 64 by omega]
  · simp [show ¬t < i by omega, show ¬t - i = 0 by omega, show i ≤ t by omega,
      show i + 1 ≤ t by omega]

theorem and_byte (x : BitVec 64) (k : Nat) :
    x >>> k &&& 0xFF = (x.extractLsb' k 8).setWidth 64 := by
  apply BitVec.eq_of_toNat_eq
  rw [BitVec.toNat_and, BitVec.toNat_ushiftRight, BitVec.toNat_setWidth_of_le (by decide),
    BitVec.extractLsb'_toNat]
  exact Nat.and_two_pow_sub_one_eq_mod _ 8

/-- Eight bits are gathered, the first byte choosing the most significant one. -/
theorem permuteBits_reaches (hI : I.Counting) {s b : Expr} {x y : BitVec 64}
    (hs : ∀ {S}, c.Knows I S s ⟨.i64, x⟩) (hb : ∀ {S}, c.Knows I S b ⟨.i64, y⟩) :
    Reaches env I c (permuteBits s b) fun e c' => c'.state = c.state ∧ ∃ z,
      (∀ {S}, c'.Knows I S e ⟨.i64, z⟩) ∧ Gathered x y 0 z := by
  have hB := hI.toBitwise
  unfold permuteBits
  refine .foldlM (P := fun i e c' => c'.state = c.state ∧ ∃ z,
    (∀ {S}, c'.Knows I S e ⟨.i64, z⟩) ∧ Gathered x y (8 - i) z) ?_ ?_
  · rintro i hi e c' _ ⟨hstate, z, he, hz⟩
    have hplace : (BitVec.ofNat 8 (56 - 8 * i)).toNat = 8 * (7 - i) := by
      rw [BitVec.toNat_ofNat]
      omega
    have hbitPlace : (BitVec.ofNat 8 (7 - i)).toNat = 7 - i := by
      rw [BitVec.toNat_ofNat]
      omega
    have hindex : c'.Knows I (fun _ => True) (bin .and64
        (bin .shr64 s (.u8 (.ofNat 8 (56 - 8 * i)))) (.u64 0xFF))
        ⟨.i64, (x.extractLsb' (8 * (7 - i)) 8).setWidth 64⟩ := by
      have hs' : c'.Knows I (fun _ => True) s ⟨.i64, x⟩ := hs.up
      have hshifted := hs'.shr (w := .w64) hB (.const (.u8 (.ofNat 8 (56 - 8 * i))))
        (by rw [hplace]; change _ < 64; omega)
      refine (hshifted.and (w := .w64) (.const (.u64 0xFF)) hB).congr ?_
      rw [hplace]
      exact congrArg (Value.mk .i64) (and_byte x _)
    refine .bind hindex trivial fun index c'' _ hquiet ht => ?_
    have hbit : ∀ {S}, c''.Knows I S _ _ := fun {S} => chosen_knows (S := S) hI ht hb.up
    rw [BitVec.toNat_setWidth_of_le (by decide)] at hbit
    have hmoved : ∀ {S}, c''.Knows I S _ _ := fun {S} => Knows.shl (w := .w64) (S := S) hbit hB
      (.const (.u8 (.ofNat 8 (7 - i)))) (by rw [hbitPlace]; change _ < 64; omega)
    rw [hbitPlace] at hmoved
    refine .pure ⟨hquiet.state_eq.trans hstate, _, fun {S} => he.up.or (w := .w64) hmoved hB, ?_⟩
    have hnext : 8 - i = 7 - i + 1 := by omega
    have hlast : 8 - (i + 1) = 7 - i := by omega
    rw [hnext] at hz
    rw [hlast]
    exact hz.next (by omega)
  · refine ⟨rfl, (0 : BitVec 64), .const (.u64 0), fun t => ?_⟩
    simp [show ¬(8 ≤ t ∧ t < 8) by omega]


end Logic

namespace Comparison

/-! ## Equal bytes -/

/-- The lowest `i` bytes of `z` say where `x` and `y` agree; the others are zero. -/
def Agreed {n : Nat} (x y : BitVec n) (i : Nat) (z : BitVec n) : Prop :=
  ∀ t < n, z.getLsbD t = (decide (t < 8 * i) &&
    decide (x.extractLsb' (8 * (t / 8)) 8 = y.extractLsb' (8 * (t / 8)) 8))

/-- One byte of ones. -/
def byteOnes (i : Nat) : BitVec 64 := .ofNat 64 (0xFF <<< (8 * i))

theorem getLsbD_byteOnes {n i t : Nat} (hn : n ≤ 64) (ht : t < n) :
    ((byteOnes i).setWidth n).getLsbD t = decide (8 * i ≤ t ∧ t < 8 * (i + 1)) := by
  have hones : Nat.testBit 0xFF (t - 8 * i) = decide (t - 8 * i < 8) :=
    Nat.testBit_two_pow_sub_one 8 _
  rw [byteOnes, BitVec.getLsbD_setWidth, BitVec.getLsbD_ofNat, Nat.testBit_shiftLeft, hones,
    decide_eq_true ht, decide_eq_true (show t < 64 by omega), Bool.true_and, Bool.true_and,
    ← Bool.decide_and, decide_eq_decide]
  omega

theorem Agreed.next {n i : Nat} {x y z : BitVec n} (hn : n ≤ 64) (h : Agreed x y i z) :
    Agreed x y (i + 1) (z ||| if x.extractLsb' (8 * i) 8 = y.extractLsb' (8 * i) 8 then
      (byteOnes i).setWidth n else 0) := by
  intro t ht
  rw [BitVec.getLsbD_or, h t ht]
  by_cases hhere : t / 8 = i
  · subst hhere
    split
    next hequal =>
        have hwithin : 8 * (t / 8) ≤ t ∧ t < 8 * (t / 8 + 1) := by omega
        rw [getLsbD_byteOnes hn ht, decide_eq_true hwithin, Bool.or_true, decide_eq_true hwithin.2,
          decide_eq_true hequal, Bool.and_true]
    next hother => simp [hother]
  · have hother : (if x.extractLsb' (8 * i) 8 = y.extractLsb' (8 * i) 8 then
        (byteOnes i).setWidth n else 0).getLsbD t = false := by
      split
      · rw [getLsbD_byteOnes hn ht]
        simp only [decide_eq_false_iff_not]
        omega
      · simp
    rw [hother, Bool.or_false]
    congr 1
    rw [decide_eq_decide]
    omega

/-- All bytes are compared. -/
theorem Agreed.bytes {n i k : Nat} {x y z : BitVec n} (h : Agreed x y k z) (hk : n ≤ 8 * k)
    (hi : 8 * (i + 1) ≤ n) : z.extractLsb' (8 * i) 8 =
      if x.extractLsb' (8 * i) 8 = y.extractLsb' (8 * i) 8 then 0xFF else 0 := by
  apply BitVec.eq_of_getLsbD_eq
  intro t ht
  rw [BitVec.getLsbD_extractLsb', h _ (by omega), decide_eq_true ht, Bool.true_and,
    decide_eq_true (show 8 * i + t < 8 * k by omega), Bool.true_and,
    show (8 * i + t) / 8 = i by omega]
  split
  next hequal =>
    have hones : (0xFF : BitVec 8).getLsbD t = decide (t < 8) := Nat.testBit_two_pow_sub_one 8 _
    rw [hones, decide_eq_true hequal, decide_eq_true ht]
  next hother => simp [hother]

/-- A byte of a register. -/
def byteOf (env : Env) (e : Expr) (i : Nat) : Expr :=
  un (.cast env.arch.word.lowByte) (bin (.shr env.arch.word.width) e (.u8 (.ofNat 8 (8 * i))))

/-- The byte of ones where two bytes agree. -/
def lane (env : Env) (s b : Expr) (i : Nat) : Expr :=
  .ite (bin (.cmpEQ .w8) (byteOf env s i) (byteOf env b i)) (env.imm (byteOnes i)) (env.imm 0)

section

variable {s b : Expr} {S : GuestState → Prop} {x y : BitVec env.arch.word.ty.bits}

theorem byteOf_knows (hI : I.Bitwise) {e : Expr} (he : c.Knows I S e ⟨env.arch.word.ty, x⟩)
    {i : Nat} (hi : 8 * i < env.arch.word.ty.bits) :
    c.Knows I S (byteOf env e i) ⟨.i8, x.extractLsb' (8 * i) 8⟩ := by
  have hwidth : env.arch.word.ty.bits ≤ 64 := by cases env.arch <;> decide
  have hbits : env.arch.word.ty.bits = env.arch.word.bits := env.arch.word.ty_bits
  have hplace : (BitVec.ofNat 8 (8 * i)).toNat = 8 * i := by
    rw [BitVec.toNat_ofNat]
    omega
  have hshifted := he.shr hI (.const (.u8 (.ofNat 8 (8 * i)))) (by omega)
  refine (hshifted.lowByte hI).congr ?_
  rw [hplace, BitVec.setWidth_ushiftRight_eq_extractLsb]

theorem lane_knows (hI : I.Integral) (hs : c.Knows I S s ⟨env.arch.word.ty, x⟩)
    (hb : c.Knows I S b ⟨env.arch.word.ty, y⟩) {i : Nat} (hi : 8 * i < env.arch.word.ty.bits) :
    c.Knows I S (lane env s b i) ⟨env.arch.word.ty, if x.extractLsb' (8 * i) 8 =
      y.extractLsb' (8 * i) 8 then (byteOnes i).setWidth _ else 0⟩ := by
  have hequal : c.Knows I S (bin (.cmpEQ .w8) (byteOf env s i) (byteOf env b i))
      ⟨.i1, .ofBool (decide (x.extractLsb' (8 * i) 8 = y.extractLsb' (8 * i) 8))⟩ :=
    (byteOf_knows hI.toBitwise hs hi).bin (byteOf_knows hI.toBitwise hb hi) rfl (hI.cmpEQ .w8 _ _)
  have hliteral (v : BitVec 64) : c.Knows I S (env.imm v) ⟨env.arch.word.ty, v.setWidth _⟩ :=
    Point.knows_imm v
  refine hequal.ite (hliteral _).check (hliteral 0).check (fun h => ?_) fun h => ?_
  · rw [if_pos (of_decide_eq_true h)]
    exact hliteral _
  · rw [if_neg (of_decide_eq_false h)]
    exact (hliteral 0).congr (congrArg (Value.mk _) (BitVec.setWidth_zero _ _))

/-- The bytes that are compared first. -/
theorem lanes_knows (hI : I.Integral) (hs : c.Knows I S s ⟨env.arch.word.ty, x⟩)
    (hb : c.Knows I S b ⟨env.arch.word.ty, y⟩) {k : Nat} (hk : 8 * k ≤ env.arch.word.ty.bits) :
    ∃ z, c.Knows I S ((List.range k).foldl (fun acc i => bin (.or env.arch.word.width) acc
      (lane env s b i)) (env.imm 0)) ⟨env.arch.word.ty, z⟩ ∧ Agreed x y k z := by
  have hwidth : env.arch.word.ty.bits ≤ 64 := by cases env.arch <;> decide
  induction k with
  | zero => exact ⟨_, Point.knows_imm 0, fun t _ => by simp⟩
  | succ k ih =>
      obtain ⟨z, hz, hagreed⟩ := ih (by omega)
      rw [List.range_succ, List.foldl_append, List.foldl_cons, List.foldl_nil]
      exact ⟨_, hz.or (lane_knows hI hs hb (by omega)) hI.toBitwise, hagreed.next hwidth⟩

end

end Comparison

end PowerLift
