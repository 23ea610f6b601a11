import PowerLift.Proofs.Rearrangement
import PowerLift.Proofs.VectorSteps

/-!
# Pixels

A pixel has one bit and three colours, of five bits each in a half word and of a byte each in a
word. Wide pixels repeat the first bit and leave the upper bits of colours clear; narrow ones take
the upper bits of colours and the last bit of the first byte.
-/

namespace PowerLift

open Lift (exec)
open Point (Has Knows Step Since)
open PowerLift.Expr (un bin)

variable {M : Type} {I : Interp M} {env : Env} {w : Insn} {c : Point M}

/-! ## Pixels as numbers -/

/-- A pixel of four bytes as one of one and three times five bits. -/
def narrowPixel (x : BitVec 32) : BitVec 16 :=
  x.extractLsb' 24 1 ++ x.extractLsb' 19 5 ++ x.extractLsb' 11 5 ++ x.extractLsb' 3 5

/-- A pixel of one and three times five bits as one of four bytes. -/
def widePixel (x : BitVec 16) : BitVec 32 :=
  (x.extractLsb' 15 1).signExtend 8 ++ (x.extractLsb' 10 5).setWidth 8 ++
    (x.extractLsb' 5 5).setWidth 8 ++ (x.extractLsb' 0 5).setWidth 8

theorem narrowPixel_eq (x : BitVec 32) :
    x >>> 9 &&& 0xFC00 ||| (x >>> 6 &&& 0x03E0 ||| x >>> 3 &&& 0x001F) =
      (narrowPixel x).setWidth 32 := by
  -- Each mask is a range of bits.
  have hfirst : ∀ j < 32, (0xFC00 : BitVec 32).getLsbD j = decide (10 ≤ j ∧ j < 16) := by decide
  have hsecond : ∀ j < 32, (0x03E0 : BitVec 32).getLsbD j = decide (5 ≤ j ∧ j < 10) := by decide
  have hthird : ∀ j < 32, (0x001F : BitVec 32).getLsbD j = decide (j < 5) := by decide
  refine BitVec.eq_of_getLsbD_eq fun j hj => ?_
  simp only [narrowPixel, BitVec.getLsbD_append, BitVec.getLsbD_extractLsb',
    BitVec.getLsbD_setWidth, BitVec.getLsbD_or, BitVec.getLsbD_and, BitVec.getLsbD_ushiftRight]
  grind

/-- Only the low half of a word matters for the pixel in it. -/
theorem widePixel_eq (x : BitVec 32) :
    ((x <<< 16).sshiftRight 31 &&& 0xFF) <<< 24 ||| (x >>> 10 &&& 0x1F) <<< 16 |||
        ((x >>> 5 &&& 0x1F) <<< 8 ||| x &&& 0x1F) = widePixel (x.setWidth 16) := by
  have hbyte : ∀ j < 32, (0xFF : BitVec 32).getLsbD j = decide (j < 8) := by decide
  have hcolour : ∀ j < 32, (0x1F : BitVec 32).getLsbD j = decide (j < 5) := by decide
  refine BitVec.eq_of_getLsbD_eq fun j hj => ?_
  simp only [widePixel, BitVec.getLsbD_append, BitVec.getLsbD_extractLsb', BitVec.getLsbD_setWidth,
    BitVec.getLsbD_signExtend, BitVec.getLsbD_sshiftRight, BitVec.msb_eq_getLsbD_last,
    BitVec.getLsbD_or, BitVec.getLsbD_and, BitVec.getLsbD_ushiftRight, BitVec.getLsbD_shiftLeft]
  grind

/-! ## Vectors of pixels -/

/-- The wide pixels of two vectors as narrow ones. -/
def packedPixels (x y : BitVec 128) : BitVec 128 :=
  ofElements 16 fun i => narrowPixel (joined 32 x y i)

/-- The narrow pixels of a half of a vector as wide ones. -/
def unpackedPixels (high : Bool) (x : BitVec 128) : BitVec 128 :=
  ofElements 32 fun i => widePixel (elementAt 16 x (i + if high then 0 else 4))

/-- Half words two by two. -/
theorem ofElements_append (f : Nat → BitVec 16) :
    (ofElements 32 fun i => f (2 * i) ++ f (2 * i + 1)) = ofElements 16 f := by
  refine eq_ofElements (by decide) fun k hk => ?_
  obtain ⟨i, hi⟩ : ∃ i, k = 2 * i ∨ k = 2 * i + 1 := ⟨k / 2, by omega⟩
  have hword : i < 128 / Narrow.w32.bits := by
    change i < 4
    omega
  have hpair : elementAt 32 (ofElements 32 fun i => f (2 * i) ++ f (2 * i + 1)) i =
      f (2 * i) ++ f (2 * i + 1) := elementAt_ofElements (by decide) hword
  rcases hi with rfl | rfl
  · refine (elementAt_even .w16 hword).trans ?_
    exact (congrArg (BitVec.extractLsb' 16 16) hpair).trans BitVec.extractLsb'_append_eq_left
  · refine (elementAt_odd .w16 hword).trans ?_
    exact (congrArg (BitVec.setWidth 16) hpair).trans BitVec.setWidth_append_eq_right

/-- A vector that is put together from words. -/
theorem append_words (p q r s : BitVec 32) :
    (p ++ q ++ (r ++ s) : BitVec 128) = ofElements 32 fun | 0 => p | 1 => q | 2 => r | _ => s := by
  refine eq_ofElements (by decide) fun i hi => BitVec.eq_of_getLsbD_eq fun j hj => ?_
  rw [elementAt, getLsbD_laneAt, decide_eq_true hj, Bool.true_and]
  simp only [BitVec.getLsbD_append]
  obtain rfl | rfl | rfl | rfl : i = 0 ∨ i = 1 ∨ i = 2 ∨ i = 3 := by omega
  · rw [if_neg (by omega), if_neg (by omega)]
    exact congrArg p.getLsbD (by omega)
  · rw [if_neg (by omega), if_pos (by omega)]
    exact congrArg q.getLsbD (by omega)
  · rw [if_pos (by omega), if_neg (by omega)]
    exact congrArg r.getLsbD (by omega)
  · rw [if_pos (by omega), if_pos (by omega)]
    exact congrArg s.getLsbD (by omega)

/-! ## Steps -/

section

variable {S : GuestState → Prop} {φ : Prop} {Q : Continuation → Flow M → Prop} {e : Expr}

theorem Point.Knows.firstWord (hI : I.Vectors) {x : BitVec 128} {i : Nat}
    (he : c.Knows I S e ⟨.i64, elementAt 64 x i⟩) (hi : i < 2) :
    c.Knows I S (.un (.cast .high64to32) e) ⟨.i32, elementAt 32 x (2 * i)⟩ :=
  (he.un rfl (hI.high64to32 _)).congr
    (congrArg (Value.mk .i32) (elementAt_even .w32 hi).symm)

theorem Point.Knows.secondWord (hI : I.Vectors) {x : BitVec 128} {i : Nat}
    (he : c.Knows I S e ⟨.i64, elementAt 64 x i⟩) (hi : i < 2) :
    c.Knows I S (.un (.cast .low64to32) e) ⟨.i32, elementAt 32 x (2 * i + 1)⟩ :=
  (he.un rfl (hI.cast .low64to32 rfl .i64 rfl _)).congr
    (congrArg (Value.mk .i32) (elementAt_odd .w32 hi).symm)

theorem Point.Knows.shrinkPixel (hI : I.Vectors) {x : BitVec 32} (he : c.Knows I S e ⟨.i32, x⟩) :
    c.Knows I S (VectorInteger.shrinkPixel e) ⟨.i32, (narrowPixel x).setWidth 32⟩ := by
  have hpart {k : BitVec 8} {mask : BitVec 32} (hk : k.toNat < 32) :
      c.Knows I S (.bin .and32 (.bin .shr32 e (.u8 k)) (.u32 mask))
        ⟨.i32, x >>> k.toNat &&& mask⟩ :=
    (he.bin (.const (.u8 k)) rfl (hI.shr .w32 x k hk)).bin (.const (.u32 mask)) rfl
      (hI.and .w32 _ _)
  refine ((hpart (by decide)).bin ((hpart (by decide)).bin (hpart (by decide)) rfl
    (hI.or .w32 _ _)) rfl (hI.or .w32 _ _)).congr ?_
  exact congrArg (Value.mk .i32) (narrowPixel_eq x)

/-- Two pixels side by side. -/
theorem Point.Knows.pixelPair (hI : I.Vectors) {a b : Expr} {x y : BitVec 32}
    (ha : c.Knows I S a ⟨.i32, x⟩) (hb : c.Knows I S b ⟨.i32, y⟩) :
    c.Knows I S (.bin .or32 (.bin .shl32 (VectorInteger.shrinkPixel a) (.u8 16))
      (VectorInteger.shrinkPixel b)) ⟨.i32, narrowPixel x ++ narrowPixel y⟩ := by
  have hpair (p q : BitVec 16) : p.setWidth 32 <<< 16 ||| q.setWidth 32 = p ++ q := by
    refine BitVec.eq_of_getLsbD_eq fun j hj => ?_
    rw [BitVec.getLsbD_or, BitVec.getLsbD_shiftLeft, BitVec.getLsbD_setWidth,
      BitVec.getLsbD_setWidth, BitVec.getLsbD_append]
    by_cases h : j < 16
    · simp [h, hj]
    · simp [h, hj, BitVec.getLsbD_of_ge q j (by omega), show j - 16 < 32 by omega]
  refine (((ha.shrinkPixel hI).bin (.const (.u8 16)) rfl (hI.shl .w32 _ _ (by decide))).bin
    (hb.shrinkPixel hI) rfl (hI.or .w32 _ _)).congr ?_
  exact congrArg (Value.mk .i32) (hpair _ _)

theorem Point.Knows.ofWords (hI : I.Vectors) {a b d e : Expr} {p q r s : BitVec 32}
    (ha : c.Knows I S a ⟨.i32, p⟩) (hb : c.Knows I S b ⟨.i32, q⟩) (hd : c.Knows I S d ⟨.i32, r⟩)
    (he : c.Knows I S e ⟨.i32, s⟩) : c.Knows I S (.ofWords a b d e) ⟨.v128,
      ofElements 32 fun | 0 => p | 1 => q | 2 => r | _ => s⟩ :=
  ((ha.bin hb rfl (hI.cat32to64 p q)).bin (hd.bin he rfl (hI.cat32to64 r s)) rfl
    (hI.cat64toV _ _)).congr (congrArg (Value.mk .v128) (append_words p q r s))

namespace Comes

theorem splitWords (hI : I.Vectors) {x : BitVec 128} {f : List Expr → Lift Unit}
    (he : c.Has I e ⟨.v128, x⟩)
    (hf : ∀ p q r t c' [Since c c'], c'.state = c.state → c'.memory = c.memory →
      (∀ {S}, c'.Knows I S p ⟨.i32, elementAt 32 x 0⟩) →
      (∀ {S}, c'.Knows I S q ⟨.i32, elementAt 32 x 1⟩) →
      (∀ {S}, c'.Knows I S r ⟨.i32, elementAt 32 x 2⟩) →
      (∀ {S}, c'.Knows I S t ⟨.i32, elementAt 32 x 3⟩) → Comes env I c' (f [p, q, r, t]) φ Q) :
    Comes env I c (Lift.splitWords e >>= f) φ Q := by
  unfold Lift.splitWords
  simp only [bind_assoc, List.mapM_cons, List.mapM_nil, pure_bind]
  refine .splitHalves hI he fun a b c₁ _ hstate₁ hmemory₁ ha hb => ?_
  refine .bind (ha.firstWord hI (by decide)).always fun p c₂ _ hstate₂ hmemory₂ hp => ?_
  refine .bind (ha.since.secondWord hI (by decide)).always fun q c₃ _ hstate₃ hmemory₃ hq => ?_
  have : Since c₁ c₃ := Since.trans c₂
  refine .bind (hb.since.firstWord hI (by decide)).always fun r c₄ _ hstate₄ hmemory₄ hr => ?_
  have : Since c₁ c₄ := Since.trans c₃
  refine .bind (hb.since.secondWord hI (by decide)).always fun t c₅ _ hstate₅ hmemory₅ ht => ?_
  have : Since c₃ c₅ := Since.trans c₄
  have : Since c₂ c₅ := Since.trans c₃
  have : Since c₁ c₅ := Since.trans c₂
  have : Since c c₅ := Since.trans c₁
  refine hf p q r t c₅ ?_ ?_ hp.since hq.since hr.since ht
  · rw [hstate₅, hstate₄, hstate₃, hstate₂, hstate₁]
  · rw [hmemory₅, hmemory₄, hmemory₃, hmemory₂, hmemory₁]

theorem packPixels (hI : I.Vectors) {a b : Expr} {x y : BitVec 128} {f : Expr → Lift Unit}
    (ha : c.Has I a ⟨.v128, x⟩) (hb : ∀ c' [Since c c'], c'.state = c.state →
      c'.Has I b ⟨.v128, y⟩)
    (hf : ∀ e c' [Since c c'], c'.state = c.state → c'.memory = c.memory →
      (∀ {S}, c'.Knows I S e ⟨.v128, packedPixels x y⟩) → Comes env I c' (f e) φ Q) :
    Comes env I c (VectorInteger.packPixels a b >>= f) φ Q := by
  unfold VectorInteger.packPixels
  simp only [bind_assoc]
  refine .splitWords hI ha fun p q r t c₁ _ hstate₁ hmemory₁ hp hq hr ht => ?_
  refine .splitWords hI (hb c₁ hstate₁) fun p' q' r' t' c₂ _ hstate₂ hmemory₂ hp' hq' hr' ht' => ?_
  have : Since c c₂ := Since.trans c₁
  refine hf _ c₂ (hstate₂.trans hstate₁) (hmemory₂.trans hmemory₁) fun {S} => ?_
  refine ((hp.since.pixelPair hI hq.since).ofWords hI (hr.since.pixelPair hI ht.since)
    (hp'.pixelPair hI hq') (hr'.pixelPair hI ht')).congr (congrArg (Value.mk .v128) ?_)
  refine Eq.trans (ofElements_congr (by decide) fun i hi => ?_)
    (ofElements_append fun i => narrowPixel (joined 32 x y i))
  obtain rfl | rfl | rfl | rfl : i = 0 ∨ i = 1 ∨ i = 2 ∨ i = 3 := by omega
  all_goals rfl

theorem expandPixel (hI : I.Vectors) {x : BitVec 32} {f : Expr → Lift Unit}
    (he : c.Has I e ⟨.i32, x⟩)
    (hf : ∀ r c' [Since c c'], c'.state = c.state → c'.memory = c.memory →
      (∀ {S}, c'.Knows I S r ⟨.i32, widePixel (x.setWidth 16)⟩) → Comes env I c' (f r) φ Q) :
    Comes env I c (VectorInteger.expandPixel e >>= f) φ Q := by
  unfold VectorInteger.expandPixel
  simp only [bind_assoc, pure_bind]
  refine .bind he fun t c₁ _ hstate₁ hmemory₁ ht => hf _ c₁ hstate₁ hmemory₁ fun {S} => ?_
  have hmasked {d : Expr} {y mask : BitVec 32} (hd : c₁.Knows I S d ⟨.i32, y⟩) :
      c₁.Knows I S (bin .and32 d (.u32 mask)) ⟨.i32, y &&& mask⟩ :=
    hd.bin (.const (.u32 mask)) rfl (hI.and .w32 _ _)
  have hup {d : Expr} {y : BitVec 32} {k : BitVec 8} (hk : k.toNat < 32)
      (hd : c₁.Knows I S d ⟨.i32, y⟩) :
      c₁.Knows I S (bin .shl32 d (.u8 k)) ⟨.i32, y <<< k.toNat⟩ :=
    hd.bin (.const (.u8 k)) rfl (hI.shl .w32 _ _ hk)
  have hdown {k : BitVec 8} (hk : k.toNat < 32) :
      c₁.Knows I S (bin .shr32 t (.u8 k)) ⟨.i32, x >>> k.toNat⟩ :=
    ht.bin (.const (.u8 k)) rfl (hI.shr .w32 _ _ hk)
  have hsign : c₁.Knows I S (bin .sar32 (bin .shl32 t (.u8 16)) (.u8 31))
      ⟨.i32, (x <<< 16).sshiftRight 31⟩ :=
    (hup (k := 16) (by decide) ht).bin (.const (.u8 31)) rfl (hI.sar .w32 _ _ (by decide))
  refine (((hup (by decide) (hmasked hsign)).bin (hup (by decide) (hmasked (hdown (by decide)))) rfl
    (hI.or .w32 _ _)).bin ((hup (by decide) (hmasked (hdown (by decide)))).bin (hmasked ht) rfl
      (hI.or .w32 _ _)) rfl (hI.or .w32 _ _)).congr ?_
  exact congrArg (Value.mk .i32) (widePixel_eq x)

/-- The pixels of a word of `x`. -/
theorem expandPair (hI : I.Vectors) {x : BitVec 128} {i : Nat} (hi : i < 4)
    {f : Expr × Expr → Lift Unit} (he : ∀ {S}, c.Knows I S e ⟨.i32, elementAt 32 x i⟩)
    (hf : ∀ p q c' [Since c c'], c'.state = c.state → c'.memory = c.memory →
      (∀ {S}, c'.Knows I S p ⟨.i32, widePixel (elementAt 16 x (2 * i))⟩) →
      (∀ {S}, c'.Knows I S q ⟨.i32, widePixel (elementAt 16 x (2 * i + 1))⟩) →
      Comes env I c' (f (p, q)) φ Q) :
    Comes env I c (VectorInteger.expandPair e >>= f) φ Q := by
  have hfirst : (elementAt 32 x i >>> 16).setWidth 16 = elementAt 16 x (2 * i) :=
    (elementAt_even .w16 hi).symm
  have hmask (y : BitVec 32) : (y &&& 0xFFFF).setWidth 16 = y.setWidth 16 := by
    rw [BitVec.setWidth_and]
    exact BitVec.and_allOnes
  have hsecond : (elementAt 32 x i &&& 0xFFFF).setWidth 16 = elementAt 16 x (2 * i + 1) :=
    (hmask _).trans (elementAt_odd .w16 hi).symm
  unfold VectorInteger.expandPair
  simp only [bind_assoc, pure_bind]
  refine .expandPixel hI (he.bin (.const (.u8 16)) rfl (hI.shr .w32 _ _ (by decide))).always
    fun p c₁ _ hstate₁ hmemory₁ hp => ?_
  refine .expandPixel hI (he.since.bin (.const (.u32 0xFFFF)) rfl (hI.and .w32 _ _)).always
    fun q c₂ _ hstate₂ hmemory₂ hq => ?_
  have : Since c c₂ := Since.trans c₁
  refine hf p q c₂ (hstate₂.trans hstate₁) (hmemory₂.trans hmemory₁)
    (hp.since.congr (congrArg (fun b => Value.mk .i32 (widePixel b)) hfirst))
    (hq.congr (congrArg (fun b => Value.mk .i32 (widePixel b)) hsecond))

theorem unpackPixels (hI : I.Vectors) {x : BitVec 128} {high : Bool} {f : Expr → Lift Unit}
    (he : c.Has I e ⟨.v128, x⟩)
    (hf : ∀ r c' [Since c c'], c'.state = c.state → c'.memory = c.memory →
      (∀ {S}, c'.Knows I S r ⟨.v128, unpackedPixels high x⟩) → Comes env I c' (f r) φ Q) :
    Comes env I c (VectorInteger.unpackPixels e high >>= f) φ Q := by
  let half := if high then 0 else 1
  have hhalf : half < 2 := by cases high <;> decide
  unfold VectorInteger.unpackPixels
  simp only [bind_assoc, pure_bind]
  have hcut : c.Has I (un (.cast (if high then .highVto64 else .lowVto64)) e)
      ⟨.i64, elementAt 64 x half⟩ := by
    cases high with
    | true => exact he.un rfl (hI.highVto64 x)
    | false => exact he.un rfl ((hI.lowVto64 x).trans (elementAt_second x).symm)
  refine .bind hcut fun d c₁ _ hstate₁ hmemory₁ hd => ?_
  refine .bind (hd.firstWord hI hhalf).always fun hi c₂ _ hstate₂ hmemory₂ hhi => ?_
  refine .bind (hd.since.secondWord hI hhalf).always fun lo c₃ _ hstate₃ hmemory₃ hlo => ?_
  refine .expandPair hI (by omega) hhi.since fun p q c₄ _ hstate₄ hmemory₄ hp hq => ?_
  refine .expandPair hI (by omega) hlo.since fun r t c₅ _ hstate₅ hmemory₅ hr ht => ?_
  have : Since c₃ c₅ := Since.trans c₄
  have : Since c₂ c₅ := Since.trans c₃
  have : Since c₁ c₅ := Since.trans c₂
  have : Since c c₅ := Since.trans c₁
  refine hf _ c₅ ?_ ?_ fun {S} => ?_
  · rw [hstate₅, hstate₄, hstate₃, hstate₂, hstate₁]
  · rw [hmemory₅, hmemory₄, hmemory₃, hmemory₂, hmemory₁]
  · refine (hp.since.ofWords hI hq.since hr ht).congr (congrArg (Value.mk .v128) ?_)
    refine ofElements_congr (by decide) fun i hi => ?_
    obtain rfl | rfl | rfl | rfl : i = 0 ∨ i = 1 ∨ i = 2 ∨ i = 3 := by omega
    all_goals cases high <;> rfl

end Comes

end

end PowerLift
