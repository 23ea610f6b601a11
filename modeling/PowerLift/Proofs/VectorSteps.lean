import PowerLift.Proofs.SpecialMoves
import PowerLift.Proofs.VectorElement
import PowerLift.Proofs.VectorOperators

/-!
# Steps of vector instructions

Vector registers are read and written as a whole. A vector is taken apart into halves, a constant is
repeated in every lane, and the saturation bit is set where a vector has a bit set.
-/

namespace PowerLift

open Layout (specialOffset)
open Lift (exec)
open PowerLift.Expr (un bin)
open Point (Has Knows Step Since)

variable {M : Type} {I : Interp M} {env : Env} {w : Insn} {c : Point M}

/-! ## Registers -/

/-- A read of a vector-scalar register. -/
def Expr.vsr (arch : Arch) (i : Nat) : Expr := .get (Layout.vsrBase arch + i * 16) .v128

namespace GuestState

variable {arch : Arch} {order : ByteOrder} {σ : GuestState} {i : Nat}

/-- The value of a vector-scalar register. -/
def vsr (arch : Arch) (order : ByteOrder) (σ : GuestState) (i : Nat) : BitVec 128 :=
  σ.read order (Layout.vsrBase arch + i * 16) .v128

/-- The state with a new value in a vector-scalar register. -/
def withVsr (arch : Arch) (order : ByteOrder) (σ : GuestState) (i : Nat) (x : BitVec 128) :
    GuestState :=
  σ.write order (Layout.vsrBase arch + i * 16) ⟨.v128, x⟩

/-- Vector-scalar registers and special slots do not overlap. -/
theorem vsr_apart (arch : Arch) (hi : i < 64) (s : SpecialSlot) :
    Layout.vsrBase arch + i * 16 + Ty.v128.bytes ≤ specialOffset arch s := by
  have hlow : Layout.specialBase arch ≤ specialOffset arch s :=
    (Layout.special_between arch s).low_le
  have hbase := Layout.specialBase_eq arch
  have hbytes : Ty.v128.bytes = 16 := by decide
  omega

theorem held_withVsr (hi : i < 64) (s : SpecialSlot) (x : BitVec 128) :
    (σ.withVsr arch order i x).held arch order s = σ.held arch order s :=
  read_write_disjoint (.inl (vsr_apart arch hi s))

theorem vsr_holding (hi : i < 64) (s : SpecialSlot) (x : BitVec (s.ty arch).bits) :
    (σ.holding arch order s x).vsr arch order i = σ.vsr arch order i :=
  read_write_disjoint (.inr (vsr_apart arch hi s))

theorem vsr_withVsr (x : BitVec 128) : (σ.withVsr arch order i x).vsr arch order i = x :=
  read_write (v := ⟨.v128, x⟩) Ty.noConfusion

end GuestState

theorem exec_getVsr (hlayout : env.layout = env.arch) {p : Progress} {i : Nat} (hi : i < 64) :
    exec env p (Lift.getVsr i) = (.ok (.vsr env.arch i), p) := by
  have hplace : Layout.locate env.layout (.vsr i) =
      .ok ⟨Layout.vsrBase env.layout + i * 16, .v128⟩ := by
    simp [Layout.locate, Layout.offset, hi, Except.map, Slot.ty]
  rw [← hlayout]
  exact Lift.exec_getSlot hplace

theorem Lift.putVr_eq {i : Nat} (hi : i < 32) (e : Expr) :
    Lift.putVr i e = Lift.putVsr (i + 32) e := by
  unfold Lift.putVr Layout.vr
  simp only [hi, if_true]
  rfl

theorem Point.knows_vsr (i : Nat) :
    c.Knows I (· = c.state) (.vsr env.arch i) ⟨.v128, c.state.vsr env.arch I.order i⟩ :=
  ⟨rfl, fun _ _ hm => hm ▸ rfl⟩

namespace Comes

variable {φ : Prop} {Q : Continuation → Flow M → Prop} {f : Unit → Lift Unit} {e : Expr}
  {x : BitVec 128} {i : Nat}

theorem putVsr (hlayout : env.layout = env.arch) (hi : i < 64) (he : c.Has I e ⟨.v128, x⟩)
    (hf : ∀ c' [Step c c'], c'.state = c.state.withVsr env.arch I.order i x →
      c'.memory = c.memory → Comes env I c' (f ()) φ Q) :
    Comes env I c (Lift.putVsr i e >>= f) φ Q := by
  have hplace : Layout.locate env.layout (.vsr i) =
      .ok ⟨Layout.vsrBase env.arch + i * 16, .v128⟩ := by
    simp [Layout.locate, Layout.offset, hi, Except.map, Slot.ty, hlayout]
  exact .put hplace he rfl hf

theorem putVr (hlayout : env.layout = env.arch) (hi : i < 32) (he : c.Has I e ⟨.v128, x⟩)
    (hf : ∀ c' [Step c c'], c'.state = c.state.withVsr env.arch I.order (i + 32) x →
      c'.memory = c.memory → Comes env I c' (f ()) φ Q) :
    Comes env I c (Lift.putVr i e >>= f) φ Q := by
  rw [Lift.putVr_eq hi]
  exact putVsr hlayout (by omega) he hf

/-- A vector register is read into a temporary. -/
theorem bindVr (hlayout : env.layout = env.arch) (hi : i < 32) {f : Expr → Lift Unit}
    (hf : ∀ t c' [Step c c'], c'.state = c.state → c'.memory = c.memory →
      (∀ {S}, c'.Knows I S t ⟨.v128, c.state.vsr env.arch I.order (i + 32)⟩) →
      Comes env I c' (f t) φ Q) :
    Comes env I c (Lift.getVr i >>= fun v => Lift.bind v >>= f) φ Q :=
  .give (exec_getVr hlayout hi) (.bind ((Point.knows_vsr (i + 32)).has rfl) hf)

end Comes

/-! ## Values -/

section

variable {S : GuestState → Prop} {a b : Expr} {x y : BitVec 128}

/-- An operator on two vectors. -/
theorem Point.Knows.two (hI : I.Vectors) (op : VectorOp)
    {f : BitVec 128 → BitVec 128 → BitVec 128} (hf : op.meaning? = some f)
    (ha : c.Knows I S a ⟨.v128, x⟩) (hb : c.Knows I S b ⟨.v128, y⟩) :
    c.Knows I S (.bin op a b) ⟨.v128, f x y⟩ := by
  have hsignature : (Op.vector op).signature = .same .v128 := VectorOp.signature_of_meaning? hf
  have hvalue : c.Knows I S (.bin op a b) ⟨(Op.vector op).signature.ret, _⟩ :=
    ha.bin hb (by rw [hsignature]) rfl
  exact hvalue.congr (hI.two op f hf x y)

theorem Point.Knows.complement (hI : I.Vectors) (ha : c.Knows I S a ⟨.v128, x⟩) :
    c.Knows I S (.un (.vector .not) a) ⟨.v128, ~~~x⟩ := ha.un rfl (hI.complement x)

end

/-- A number repeated in a double word, twice. -/
theorem VectorInteger.repeated_append {n : Nat} (hn : n ∣ 64) (v : BitVec 64) :
    (repeated n v ++ repeated n v : BitVec 128) = ofLanes n fun _ => v.setWidth n := by
  have hdvd : n ∣ 128 := hn.trans (by decide)
  have hpart {k : Nat} (hk : k < 64) : (repeated n v).getLsbD k = (v.setWidth n).getLsbD (k % n) :=
    getLsbD_foldl_parts (fun _ => v.setWidth n) hn hk
  refine BitVec.eq_of_getLsbD_eq fun k hk => ?_
  rw [getLsbD_ofLanes hdvd hk, BitVec.getLsbD_append]
  by_cases h : k < 64
  · rw [if_pos h, hpart h]
  · obtain ⟨m, hm⟩ := hn
    rw [if_neg h, hpart (by omega)]
    congr 1
    have hsplit : k = k - 64 + n * m := by omega
    conv_rhs => rw [hsplit, Nat.add_mul_mod_self_left]

theorem Point.knows_splat (hI : I.Vectors) {S : GuestState → Prop} (width : Width) (v : BitVec 64) :
    c.Knows I S (VectorInteger.splat width v)
      ⟨.v128, ofLanes width.bits fun _ => v.setWidth width.bits⟩ := by
  have hn : width.bits ∣ 64 := by cases width <;> decide
  have hpart : c.Knows I S (.u64 (VectorInteger.repeated width.bits v)) ⟨.i64, _⟩ := .const (.u64 _)
  exact (hpart.bin hpart rfl (hI.cat64toV _ _)).congr
    (congrArg (Value.mk .v128) (VectorInteger.repeated_append hn v))

/-- How many bits the number of an element takes. -/
def Narrow.indexBits : Narrow → Nat
  | .w8 => 4
  | .w16 => 3
  | .w32 => 2

/-! ## Halves -/

theorem elementAt_second (x : BitVec 128) : elementAt 64 x 1 = x.setWidth 64 :=
  BitVec.eq_of_getLsbD_eq fun k hk => by
    rw [elementAt, getLsbD_laneAt, BitVec.getLsbD_setWidth, Nat.mul_zero, Nat.zero_add]

theorem halves_ne_zero (x : BitVec 128) :
    (elementAt 64 x 0 ||| elementAt 64 x 1 != 0) = (x != 0) := by
  rw [Bool.eq_iff_iff, bne_iff_ne, bne_iff_ne, ne_zero_iff_elementAt (show 64 ∣ 128 by decide)]
  have hhalves : (∃ i < 128 / 64, elementAt 64 x i ≠ 0) ↔
      elementAt 64 x 0 ≠ 0 ∨ elementAt 64 x 1 ≠ 0 := by
    constructor
    · rintro ⟨i, hi, hne⟩
      obtain rfl | rfl : i = 0 ∨ i = 1 := by omega
      · exact .inl hne
      · exact .inr hne
    · rintro (h | h)
      · exact ⟨0, by decide, h⟩
      · exact ⟨1, by decide, h⟩
  rw [hhalves]
  refine (not_congr BitVec.or_eq_zero_iff).trans ?_
  tauto

namespace Comes

variable {φ : Prop} {Q : Continuation → Flow M → Prop} {e : Expr} {x : BitVec 128}

theorem splitHalves (hI : I.Vectors) {f : Expr × Expr → Lift Unit} (he : c.Has I e ⟨.v128, x⟩)
    (hf : ∀ a b c' [Since c c'], c'.state = c.state → c'.memory = c.memory →
      (∀ {S}, c'.Knows I S a ⟨.i64, elementAt 64 x 0⟩) →
      (∀ {S}, c'.Knows I S b ⟨.i64, elementAt 64 x 1⟩) → Comes env I c' (f (a, b)) φ Q) :
    Comes env I c (Lift.splitHalves e >>= f) φ Q := by
  unfold Lift.splitHalves
  simp only [bind_assoc, pure_bind]
  refine .bind he fun t c₁ _ hstate₁ hmemory₁ ht => ?_
  refine .bind (ht.un rfl (hI.highVto64 x)).always fun a c₂ _ hstate₂ hmemory₂ ha => ?_
  refine .bind (ht.since.un rfl (hI.lowVto64 x)).always fun b c₃ _ hstate₃ hmemory₃ hb => ?_
  have : Since c₁ c₃ := Since.trans c₂
  have : Since c c₃ := Since.trans c₁
  exact hf a b c₃ (hstate₃.trans (hstate₂.trans hstate₁))
    (hmemory₃.trans (hmemory₂.trans hmemory₁)) ha.since
    (hb.congr (congrArg (Value.mk .i64) (elementAt_second x).symm))

theorem anySet (hI : I.Vectors) {f : Expr → Lift Unit} (he : c.Has I e ⟨.v128, x⟩)
    (hf : ∀ t c' [Since c c'], c'.state = c.state → c'.memory = c.memory →
      (∀ {S}, c'.Knows I S t ⟨.i1, .ofBool (x != 0)⟩) → Comes env I c' (f t) φ Q) :
    Comes env I c (VectorInteger.anySet e >>= f) φ Q := by
  unfold VectorInteger.anySet
  simp only [bind_assoc, pure_bind]
  refine .splitHalves hI he fun a b c₁ _ hstate₁ hmemory₁ ha hb => ?_
  refine hf _ c₁ hstate₁ hmemory₁ ?_
  refine ((ha.bin hb rfl (hI.or .w64 _ _)).bin (.const (.u64 0)) rfl (hI.cmpNE .w64 _ _)).congr ?_
  exact congrArg (fun b => Value.mk .i1 (.ofBool b)) (halves_ne_zero x)

/-- The saturation bit is set where a flag holds. -/
theorem saturateIf (hI : I.Vectors) (hlayout : env.layout = env.arch) {b : Bool}
    {f : Unit → Lift Unit} (he : c.Has I e ⟨.i1, .ofBool b⟩)
    (hf : ∀ c' [Step c c'], c'.state = c.state.holding env.arch I.order .vscr
      (let old := c.state.held env.arch I.order .vscr
      if b then old ||| 1 else old) → c'.memory = c.memory → Comes env I c' (f ()) φ Q) :
    Comes env I c (VectorInteger.saturateIf e >>= f) φ Q := by
  unfold VectorInteger.saturateIf
  simp only [bind_assoc]
  refine .give (exec_getSpecialSlot .vscr) ?_
  rw [hlayout]
  let old : BitVec 32 := c.state.held env.arch I.order .vscr
  have hold : c.Has I (.get (specialOffset env.arch .vscr) .i32) (.i32 old) :=
    (Point.knows_slot env.arch .vscr).has rfl
  have hbit := (he.un rfl (hI.cast .zext1to32 rfl .i1 rfl _)).bin (Knows.const (.u32 1)).always rfl
    (hI.and .w32 _ _)
  refine .putHeld hlayout (s := .vscr) (hold.bin hbit rfl (hI.or .w32 _ _)) ?_ hf
  refine congrArg (Value.mk .i32) ?_
  cases b with
  | false => exact BitVec.or_zero
  | true =>
      have hbit : (BitVec.ofBool true).setWidth 32 &&& 1 = 1 := by decide
      exact congrArg (old ||| ·) hbit

end Comes

end PowerLift
