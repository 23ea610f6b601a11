import PowerLift.Family.Logic
import PowerLift.Proofs.Flags
import PowerLift.Proofs.IntegerResult
import PowerLift.Proofs.Operations
import PowerLift.Proofs.Points

/-!
# Steps of integer instructions

Rules for the steps of which integer instructions are made: operands are read and held, a value is
brought to the width of a word, and the result and the flags are written.
-/

namespace PowerLift

open Layout (specialOffset)
open Lift (exec)
open Point (Knows Next Quiet)
open PowerLift.Expr (un bin)

variable {M : Type} {I : Interp M} {env : Env} {c : Point M} {S : GuestState → Prop}
  {a b e : Expr} {σ : GuestState}

/-! ## Literals, registers and widths -/

theorem Word.ty_bits (w : Word) : w.ty.bits = w.bits := by cases w <;> rfl

theorem Env.imm_eq_lit (env : Env) (v : BitVec 64) : env.imm v = FlagRule.lit env.arch.word v := by
  cases env with
  | mk arch => cases arch <;> rfl

/-- The low bit of a byte. -/
theorem low_bit (x : BitVec 8) : x &&& 1 = flagByte (x.getLsbD 0) := by
  revert x
  decide

namespace Point

theorem knows_lit (w : Word) (v : BitVec 64) :
    c.Knows I S (FlagRule.lit w v) ⟨w.ty, v.setWidth _⟩ := by
  cases w with
  | w32 => exact .const (.u32 _)
  | w64 => exact (Knows.const (.u64 v)).congr (congrArg (Value.mk .i64) (BitVec.setWidth_eq v).symm)

theorem knows_imm (v : BitVec 64) :
    c.Knows I S (env.imm v) ⟨env.arch.word.ty, v.setWidth _⟩ := by
  rw [Env.imm_eq_lit]
  exact knows_lit _ v

theorem knows_gpr (arch : Arch) (i : Nat) :
    c.Knows I (· = σ) (.gpr arch i) ⟨arch.word.ty, σ.operand arch I.order i⟩ where
  check := by cases arch <;> rfl
  eval m _ hm := by
    rw [← hm]
    cases arch <;> rfl

/-- A flag byte, of which the low bit counts. -/
theorem knows_flag (hI : I.Bitwise) (arch : Arch) (slot : SpecialSlot) :
    c.Knows I (· = σ) (bin .and8 (.get (specialOffset arch slot) .i8) (.u8 1))
      ⟨.i8, flagByte ((σ (specialOffset arch slot)).getLsbD 0)⟩ := by
  have hread : c.Knows I (· = σ) (.get (specialOffset arch slot) .i8)
      (.i8 (σ (specialOffset arch slot))) :=
    ⟨rfl, fun m _ hm => hm ▸ congrArg (Value.mk .i8) GuestState.read_i8⟩
  refine (hread.bin (.const (.u8 1)) rfl (hI.and .w8 _ _)).congr ?_
  exact congrArg (Value.mk .i8) (low_bit _)

/-- The low word of a value. -/
theorem Knows.low32 (hI : I.Bitwise) {x : BitVec env.arch.word.ty.bits}
    (he : c.Knows I S e ⟨env.arch.word.ty, x⟩) :
    c.Knows I S (env.low32 e) ⟨.i32, x.setWidth 32⟩ := by
  revert x he
  cases env with
  | mk arch =>
      cases arch with
      | ppc32 =>
          intro x he
          exact he.congr (congrArg (Value.mk .i32) (BitVec.setWidth_eq x).symm)
      | ppc64 =>
          intro x he
          exact he.un rfl (hI.cast .low64to32 rfl .i64 rfl x)

/-- The low word of a register. -/
theorem knows_word (hI : I.Bitwise) (env : Env) (i : Nat) :
    c.Knows I (· = σ) (env.low32 (.gpr env.arch i))
      ⟨.i32, (σ.operand env.arch I.order i).setWidth 32⟩ :=
  (knows_gpr env.arch i).low32 hI

end Point

/-- The value of a general register, register zero reading as zero. -/
def GuestState.base (arch : Arch) (order : ByteOrder) (σ : GuestState) (i : Nat) :
    BitVec arch.word.ty.bits :=
  if i = 0 then 0 else σ.operand arch order i

theorem getBase_knows (hlayout : env.layout = env.arch) {i : Nat} (hi : i < 32) (c : Point M) :
    ∃ e, exec env c.progress (Lift.eaOr0 i) = (.ok e, c.progress) ∧
      c.Knows I (· = c.state) e ⟨env.arch.word.ty, c.state.base env.arch I.order i⟩ := by
  unfold Lift.eaOr0 GuestState.base
  by_cases hzero : i = 0
  · rw [if_pos hzero, if_pos hzero]
    exact ⟨_, rfl, (Point.knows_imm 0).congr (by cases env.arch <;> rfl)⟩
  · rw [if_neg hzero, if_neg hzero]
    exact ⟨_, exec_getGpr hlayout hi, Point.knows_gpr env.arch i⟩

/-! ## Types -/

/-- The type of an expression that passes the check. -/
theorem Expr.typeOf_of_check {types : Nat → Except Fault Ty} {τ : Ty} {e : Expr}
    (h : e.check types = .ok τ) : e.typeOf types = .ok τ := by
  induction e using Expr.typeOf.induct with
  | case1 | case2 | case3 => exact h
  | case4 op args =>
      rw [check] at h
      split at h
      · cases h
      · obtain ⟨_, _, h⟩ := bind_eq_ok.mp h
        exact h
  | case5 order ty addr =>
      rw [check] at h
      obtain ⟨_, _, h⟩ := bind_eq_ok.mp h
      split at h
      · exact h
      · cases h
  | case6 e yes no ih =>
      rw [check] at h
      obtain ⟨_, _, h⟩ := bind_eq_ok.mp h
      split at h
      · cases h
      · obtain ⟨_, hyes, h⟩ := bind_eq_ok.mp h
        obtain ⟨_, _, h⟩ := bind_eq_ok.mp h
        split at h
        · cases h
          exact ih hyes
        · cases h
  | case7 helper ret args =>
      rw [check] at h
      obtain ⟨_, _, h⟩ := bind_eq_ok.mp h
      exact h

theorem exec_typeOf {τ : Ty} (he : c.stage.check e = .ok τ) :
    exec env c.progress (Lift.typeOf e) = (.ok τ, c.progress) := by
  have htype : e.typeOf c.progress.stage.tempTy = .ok τ :=
    Expr.typeOf_of_check (Stage.check_eq_ok.mp he).2
  rw [Lift.typeOf, Lift.exec_bind, Lift.exec_get]
  change exec env c.progress (Lift.ofExcept (e.typeOf c.progress.stage.tempTy)) = _
  rw [htype]
  rfl

/-- A value of 32 bits at the width of a word, extended with zeros or with its sign. -/
def extended (arch : Arch) (signed : Bool) (x : BitVec 32) : BitVec arch.word.ty.bits :=
  if signed then x.signExtend _ else x.setWidth _

/-- The conversion that widens a word. -/
def widened (arch : Arch) (signed : Bool) (e : Expr) : Expr :=
  match arch with
  | .ppc32 => e
  | .ppc64 => un (.cast (if signed then .sext32to64 else .zext32to64)) e

theorem exec_widened {x : BitVec 32} (he : c.Knows I S e ⟨.i32, x⟩) (signed : Bool) :
    exec env c.progress (Lift.widen e signed) =
      (.ok (widened env.arch signed e), c.progress) := by
  have hword : exec env c.progress Lift.wordTy = (.ok env.arch.wordTy, c.progress) := rfl
  unfold Lift.widen
  rw [Lift.exec_bind, exec_typeOf he.check]
  simp only
  rw [Lift.exec_bind, hword]
  cases env.arch <;> cases signed <;> rfl

theorem Point.Knows.widened (hI : I.Integral) {x : BitVec 32} (he : c.Knows I S e ⟨.i32, x⟩)
    (arch : Arch) (signed : Bool) :
    c.Knows I S (widened arch signed e) ⟨arch.word.ty, extended arch signed x⟩ := by
  cases arch with
  | ppc32 =>
      refine he.congr (congrArg (Value.mk .i32) ?_)
      cases signed with
      | true => exact (BitVec.signExtend_eq x).symm
      | false => exact (BitVec.setWidth_eq x).symm
  | ppc64 =>
      cases signed with
      | true => exact he.un rfl (hI.sext32to64 x)
      | false => exact he.un rfl (hI.cast .zext32to64 rfl .i32 rfl x)

/-- The conversion of a byte to a word. -/
def Arch.byteCast : Arch → Cast
  | .ppc32 => .zext8to32
  | .ppc64 => .zext8to64

theorem exec_widenByte {x : BitVec 8} (he : c.Knows I S e ⟨.i8, x⟩) :
    exec env c.progress (Lift.widen e false) =
      (.ok (un (.cast env.arch.byteCast) e), c.progress) := by
  have hword : exec env c.progress Lift.wordTy = (.ok env.arch.wordTy, c.progress) := rfl
  unfold Lift.widen
  rw [Lift.exec_bind, exec_typeOf he.check]
  simp only
  rw [Lift.exec_bind, hword]
  cases env.arch <;> rfl

theorem Point.Knows.byteCast (hI : I.Bitwise) {x : BitVec 8} (he : c.Knows I S e ⟨.i8, x⟩)
    (arch : Arch) :
    c.Knows I S (.un (.cast arch.byteCast) e) ⟨arch.word.ty, x.setWidth _⟩ := by
  cases arch with
  | ppc32 => exact he.un rfl (hI.cast .zext8to32 rfl .i8 rfl x)
  | ppc64 => exact he.un rfl (hI.cast .zext8to64 rfl .i8 rfl x)

/-- The order of a result and zero, as a byte. -/
def orderByte (arch : Arch) (e : Expr) : Expr :=
  match arch with
  | .ppc32 => un (.cast .low32to8) (bin (.cmpORD .w32 .signed) e (.u32 0))
  | .ppc64 => un (.cast .low64to8) (bin (.cmpORD .w64 .signed) e (.u64 0))

theorem Point.Knows.orderByte (hI : I.Integral) {arch : Arch} {x : BitVec arch.word.ty.bits}
    (he : c.Knows I S e ⟨arch.word.ty, x⟩) :
    c.Knows I S (orderByte arch e) (.i8 (Interp.orderCode (x.toInt < 0) (0 < x.toInt))) := by
  have hbyte (n : Nat) (hn : n = 32 ∨ n = 64) (less greater : Bool) :
      (Interp.orderCode less greater : BitVec n).setWidth 8 = Interp.orderCode less greater := by
    rcases hn with rfl | rfl <;> cases less <;> cases greater <;> rfl
  cases arch with
  | ppc32 =>
      have horder := he.bin (.const (.u32 0)) rfl (hI.cmpORD .w32 .signed x 0)
      exact (horder.un rfl (hI.cast .low32to8 rfl .i32 rfl _)).congr
        (congrArg (Value.mk .i8) (hbyte 32 (.inl rfl) _ _))
  | ppc64 =>
      have horder := he.bin (.const (.u64 0)) rfl (hI.cmpORD .w64 .signed x 0)
      exact (horder.un rfl (hI.cast .low64to8 rfl .i64 rfl _)).congr
        (congrArg (Value.mk .i8) (hbyte 64 (.inr rfl) _ _))

theorem exec_recordResult {x : BitVec env.arch.word.ty.bits}
    (he : c.Knows I S e ⟨env.arch.word.ty, x⟩) :
    exec env c.progress (Lift.recordResult e) =
      exec env c.progress (Lift.setCrOrdering 0 (orderByte env.arch e)) := by
  unfold Lift.recordResult
  rw [Lift.exec_bind, exec_typeOf he.check]
  simp only
  cases env.arch <;> rfl

/-! ## Conditions -/

/-- A condition is staged, and known. -/
def FlagRule.Holds (I : Interp M) (c : Point M) (S : GuestState → Prop) (cond : Except Fault Expr)
    (p : Bool) : Prop :=
  ∃ e, cond = .ok e ∧ c.Knows I S e ⟨.i1, .ofBool p⟩

theorem FlagRule.Holds.up {c' : Point M} [Point.Before I c c'] {cond : Except Fault Expr} {p : Bool}
    (h : Holds I c S cond p) : Holds I c' S cond p := by
  obtain ⟨e, hok, he⟩ := h
  exact ⟨e, hok, he.up⟩

namespace Reaches

variable {β : Type} {Q : β → Point M → Prop}

/-! ## Operands -/

/-- A general register is read and held. -/
theorem hold (hlayout : env.layout = env.arch) {i : Nat} (hi : i < 32) {f : Expr → Lift β}
    (hf : ∀ t c' [Next I c c'], Quiet c c' →
      (∀ {S}, c'.Knows I S t ⟨env.arch.word.ty, c.state.operand env.arch I.order i⟩) →
        Reaches env I c' (f t) Q) :
    Reaches env I c (Lift.getGpr i >>= fun e => Lift.bind e >>= f) Q := by
  refine .give (exec_getGpr hlayout hi) (.bind (Point.knows_gpr env.arch i) rfl ?_)
  intro t c' _ hquiet ht
  exact hf t c' hquiet ht

/-! ## Results and flags -/

theorem putGpr (hlayout : env.layout = env.arch) {i : Nat} (hi : i < 32)
    {x : BitVec env.arch.word.ty.bits} (he : c.Knows I S e ⟨env.arch.word.ty, x⟩)
    (hS : S c.state) {f : Unit → Lift β}
    (hf : ∀ c' [Next I c c'], c'.state = c.state.withOperand env.arch I.order i x →
      Reaches env I c' (f ()) Q) :
    Reaches env I c (Lift.putGpr i e >>= f) Q := by
  have hty : env.arch.word.ty = env.layout.wordTy := by
    rw [hlayout, Arch.wordTy_eq]
    rfl
  have hplace : Layout.locate env.layout (.gpr i) =
      .ok ⟨i * env.layout.wordBytes, env.layout.wordTy⟩ :=
    Layout.gpr_eq env.layout hi
  refine .put hplace he hS hty ?_
  intro c' _ hstate
  refine hf c' ?_
  rw [hstate, hlayout]
  rfl

/-- A flag byte. -/
theorem putFlag (hI : I.Bitwise) {slot : SpecialSlot} (hslot : slot.ty env.layout = .i8)
    {b : Bool} (he : c.Knows I S e ⟨.i8, flagByte b⟩) (hS : S c.state) {f : Unit → Lift β}
    (hf : ∀ c' [Next I c c'],
      c'.state = Function.update c.state (Layout.specialOffset env.layout slot) (flagByte b) →
      Reaches env I c' (f ()) Q) :
    Reaches env I c (Lift.putMasked slot 1 e >>= f) Q := by
  have hmasked : c.Knows I S (bin .and8 e (.u8 1)) ⟨.i8, flagByte b⟩ :=
    (he.bin (.const (.u8 1)) rfl (hI.and .w8 _ _)).congr (by cases b <;> rfl)
  have hplace : Layout.locate env.layout (.special slot) =
      .ok ⟨Layout.specialOffset env.layout slot, slot.ty env.layout⟩ := rfl
  refine .put hplace hmasked hS hslot.symm ?_
  intro c' _ hstate
  exact hf c' (hstate.trans (GuestState.write_flag _ _))

theorem setCarry (hI : I.Bitwise) (hlayout : env.layout = env.arch) {rule : FlagRule}
    {res l r carryIn : Expr} {v : Value} {b : Bool} (hres : c.Knows I S res v)
    (hcond : FlagRule.Holds I c S (rule.carry v.ty res l r carryIn) b) (hS : S c.state)
    {f : Unit → Lift β}
    (hf : ∀ c' [Next I c c'], c'.state = c.state.withCarry env.arch b →
      Reaches env I c' (f ()) Q) :
    Reaches env I c (Lift.setCarry rule res l r carryIn >>= f) Q := by
  obtain ⟨cond, hok, hb⟩ := hcond
  unfold Lift.setCarry
  simp only [bind_assoc]
  refine .give (exec_typeOf hres.check) ?_
  rw [hok]
  refine .give rfl (.putFlag hI rfl (hb.un rfl (hI.cast .zext1to8 rfl .i1 rfl _)) hS ?_)
  intro c' _ hstate
  rw [hlayout] at hstate
  exact hf c' hstate

theorem setOverflow (hI : I.Bitwise) (hlayout : env.layout = env.arch) {rule : FlagRule}
    {res l r : Expr} {v : Value} {b : Bool} (hres : c.Knows I S res v)
    (hcond : FlagRule.Holds I c S (rule.overflow v.ty res l r) b) (hS : S c.state)
    {f : Unit → Lift β}
    (hf : ∀ c' [Next I c c'], c'.state = c.state.withOverflow env.arch b →
      Reaches env I c' (f ()) Q) :
    Reaches env I c (Lift.setOverflow rule res l r >>= f) Q := by
  obtain ⟨cond, hok, hb⟩ := hcond
  unfold Lift.setOverflow
  simp only [bind_assoc]
  refine .give (exec_typeOf hres.check) ?_
  rw [hok]
  refine .give rfl (.bind (hb.un rfl (hI.cast .zext1to8 rfl .i1 rfl _)) hS ?_)
  intro ov c₁ _ hquiet hov
  refine .putFlag (S := fun _ => True) hI rfl hov trivial ?_
  intro c₂ _ hstate
  -- The summary overflow was not written yet.
  have hso : c₂.state (specialOffset env.layout .xerSo) =
      c.state (specialOffset env.layout .xerSo) := by
    rw [hstate, hquiet.state_eq, Function.update_of_ne (GuestState.special_ne (by decide))]
  refine .give rfl (.putFlag (S := (· = c₂.state)) (b := c.state.summaryOverflow env.layout || b) hI
    rfl ?_ rfl ?_)
  · have hknown : Knows I c₂ (· = c₂.state) _ _ := Point.knows_flag hI env.layout .xerSo
    refine (hknown.bin hov.up rfl (hI.or .w8 _ _)).congr ?_
    rw [hso, ← GuestState.summaryOverflow]
    cases c.state.summaryOverflow env.layout <;> cases b <;> rfl
  · intro c₃ _ hstate'
    refine @hf c₃ ⟨Point.Before.leads⟩ ?_
    rw [hstate', hstate, hquiet.state_eq, hlayout]
    rfl

/-- An order with zero, with the summary overflow. -/
theorem setCrOrdering (hI : I.Bitwise) (hlayout : env.layout = env.arch) {x : BitVec 8}
    (he : c.Knows I S e (.i8 x)) (hS : S c.state) {f : Unit → Lift β}
    (hf : ∀ c' [Next I c c'],
      c'.state = c.state.withCrBytes env.arch 0 x
        (c.state (specialOffset env.arch .xerSo) &&& 1) → Reaches env I c' (f ()) Q) :
    Reaches env I c (Lift.setCrOrdering 0 e >>= f) Q := by
  unfold Lift.setCrOrdering
  rw [bind_assoc]
  refine .put (Layout.cr321_eq env.layout (by decide)) he hS rfl ?_
  intro c₁ _ hstate
  -- The summary overflow is not among the bytes that were written.
  have hso : c₁.state (specialOffset env.layout .xerSo) =
      c.state (specialOffset env.layout .xerSo) := by
    rw [hstate]
    refine (GuestState.write_i8 _ _).trans (if_neg ?_)
    have hbelow := GuestState.special_below env.layout .xerSo
    simp only
    omega
  have hread : Knows I c₁ (· = c₁.state) (bin .and8 (.get (specialOffset env.layout .xerSo) .i8)
      (.u8 1)) (.i8 (c.state (specialOffset env.layout .xerSo) &&& 1)) := by
    rw [← hso, low_bit]
    exact Point.knows_flag hI env.layout .xerSo
  rw [bind_assoc]
  refine .give rfl (.put (Layout.cr0_eq env.layout (by decide)) hread rfl rfl ?_)
  intro c₂ _ hstate'
  refine @hf c₂ ⟨Point.Before.leads⟩ ?_
  rw [hstate', hstate, ← hlayout]
  exact GuestState.write_field env.layout c.state I.order 0 x _

/-- A result is compared with zero. -/
theorem recordResult (hI : I.Integral) (hlayout : env.layout = env.arch)
    {x : BitVec env.arch.word.ty.bits} (he : c.Knows I S e ⟨env.arch.word.ty, x⟩) (hS : S c.state)
    {f : Unit → Lift β}
    (hf : ∀ c' [Next I c c'], c'.state = c.state.compared env.arch x →
      Reaches env I c' (f ()) Q) :
    Reaches env I c (Lift.recordResult e >>= f) Q := by
  have hreaches := setCrOrdering hI.toBitwise hlayout (he.orderByte hI) hS hf
  unfold Reaches at hreaches ⊢
  rwa [Lift.exec_bind, exec_recordResult he, ← Lift.exec_bind]

end Reaches

end PowerLift
