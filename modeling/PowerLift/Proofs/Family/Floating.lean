import PowerLift.Family.DecimalFloat
import PowerLift.Proofs.Flags

/-!
# Floating-point instructions

Binary floating point, its status register, and decimal floating point.
-/

namespace PowerLift

open Lift
open Stage (Next Before)

variable {P : Placement} {s : Stage} {pending : List Nat} {w : Insn}

namespace FloatingPoint

variable {a a' e e' : Expr}

/-- The end of a transfer that may write its address back. -/
theorem updated_emits {s₁ : Stage} [Before s s₁] {update : Bool} (ha : Paired P s₁ a a' P.gprTy) :
    Runs P s₁ pending (if update = true then putGpr w.ra a else pure ())
      (if update = true then putGpr w.ra a' else pure ()) (Kept P s pending fun _ _ _ => True) :=
  .ite (fun _ => (putGpr_emits w.ra_lt ha).last) fun _ => .done trivial

theorem emit_emits {x : Transfer} (ha : Paired P s a a' P.gprTy) :
    Emits P s pending (emit w x a) (emit w x a') := by
  unfold emit
  refine .bind (bind_computes ha) fun _ _ _ _ ha => .ite (fun _ => ?_) fun _ => ?_
  · cases x.datum with
    | single =>
        refine .read rounding_reads fun _ _ hrm => .read (getFpr_reads w.rd_lt) fun _ _ h => .ret ?_
        refine .seq (store_lift_emits ha (.bin rfl hrm h) (by decide)) fun _ _ => ?_
        exact updated_emits ha.up
    | double =>
        refine .read (getFpr_reads w.rd_lt) fun _ _ h => ?_
        exact .seq (store_lift_emits ha h (by decide)) fun _ _ => updated_emits ha.up
    | word signed =>
        refine .read (getFprBits_reads w.rd_lt) fun _ _ h => .ret ?_
        exact .seq (store_lift_emits ha (.un rfl h) (by decide)) fun _ _ => updated_emits ha.up
  · cases x.datum with
    | single =>
        refine .read (load_reads ha) fun _ _ h => ?_
        exact .seq (putFpr_emits w.rd_lt (.un rfl h)) fun _ _ => updated_emits ha.up
    | double =>
        refine .read (load_reads ha) fun _ _ h => ?_
        exact .seq (putFpr_emits w.rd_lt h) fun _ _ => updated_emits ha.up
    | word signed =>
        refine .read (load_reads ha) fun _ _ h => ?_
        refine .seq (putFprBits_emits w.rd_lt ?_) fun _ _ => updated_emits ha.up
        cases signed <;> exact .un rfl h

theorem immediate_emits : Emits P s pending (immediate w) (immediate w) := by
  unfold immediate
  split
  · refine .give listed_gives (.guard invalidIf_guards fun _ => .ite (fun _ => ?_) fun _ => ?_)
    · exact .read (eaDisp_reads w.ra_lt) fun _ _ ha => emit_emits ha
    · exact .read (eaOr0Disp_reads w.ra_lt) fun _ _ ha => emit_emits ha
  · exact refuse_runs

theorem pair_emits {isStore indexed : Bool} :
    Emits P s pending (pair w isStore indexed) (pair w isStore indexed) := by
  unfold pair
  refine .guard invalidIf_guards fun heven => ?_
  have hpair := Insn.pair_lt w.rd_lt heven
  extract_lets name transfer
  have htransfer : ∀ {a a' : Expr}, Paired P s a a' P.gprTy →
      Emits P s pending (transfer a) (transfer a') := by
    intro a a' ha
    refine .bind (bind_computes ha) fun _ _ _ _ ha => ?_
    refine hold_runs (addrPlus_reads ha) fun _ _ _ _ hb => .ite (fun _ => ?_) fun _ => ?_
    · refine .read (getFpr_reads w.rd_lt) fun _ _ hhi => ?_
      refine .read (getFpr_reads hpair) fun _ _ hlo => ?_
      refine .seq (store_lift_emits ha.up hhi (by decide)) fun _ _ => ?_
      exact (store_lift_emits hb.up hlo.up (by decide)).last
    · refine .read (load_reads ha.up) fun _ _ hhi => .read (load_reads hb) fun _ _ hlo => ?_
      refine .seq (putFpr_emits w.rd_lt hhi) fun _ _ => ?_
      exact (putFpr_emits hpair hlo.up).last
  refine .ite (fun _ => .give listed_gives ?_) fun _ => .give listed_gives ?_
  · exact .read (eaOr0Idx_reads w.ra_lt w.rb_lt) fun _ _ ha => htransfer ha
  · exact .read (eaOr0Disp_reads w.ra_lt) fun _ _ ha => htransfer ha

theorem indexed_emits : Emits P s pending (indexed w) (indexed w) := by
  unfold indexed
  refine .guard reservedClear_guards fun _ => ?_
  split
  case h_1 | h_2 => exact pair_emits
  case h_3 =>
    split
    · refine .give listed_gives (.guard invalidIf_guards fun _ => .ite (fun _ => ?_) fun _ => ?_)
      · exact .read (eaIdx_reads w.ra_lt w.rb_lt) fun _ _ ha => emit_emits ha
      · exact .read (eaOr0Idx_reads w.ra_lt w.rb_lt) fun _ _ ha => emit_emits ha
    · exact refuse_runs

/-! ## Arithmetic -/

theorem finish_emits (he : Paired P s e e' .f64) :
    Emits P s pending (finish w e) (finish w e') := by
  unfold finish
  refine .seq (putFpr_emits w.rd_lt he) fun _ _ => ?_
  exact .ite (fun _ => recordFloat_emits.last) fun _ => .done trivial

theorem arithmetic_emits : Emits P s pending (arithmetic w) (arithmetic w) := by
  unfold arithmetic
  dsimp only
  refine hold_runs rounding_reads fun rm rm' s₁ _ hrm => ?_
  have hfinish : ∀ {s₂ : Stage} [Before s s₂] {e e' : Expr}, Paired P s₂ e e' .f64 →
      Runs P s₂ pending (finish w e) (finish w e') (Kept P s pending fun _ _ _ => True) :=
    fun he => (finish_emits he).last
  -- Some single-precision forms round the result of a double-precision operation.
  have hrounded : ∀ {c : Prop} [Decidable c] {e e' : Expr}, Paired P s₁ e e' .f64 →
      Paired P s₁ (if c then .bin (.float .roundToSingle) rm e else e)
        (if c then .bin (.float .roundToSingle) rm' e' else e') .f64 := by
    intro c _ e e' he
    split
    · exact .bin rfl hrm he
    · exact he
  split
  case h_1 | h_2 | h_3 =>
    refine .read (Q := fun e e' => Paired P s₁ e e' .f64) ?_ fun _ _ h => hfinish h
    refine .guard reservedZero_guards fun _ => .give listed_gives ?_
    refine .read (getFpr_reads w.ra_lt) fun _ _ ha => .read (getFpr_reads w.rb_lt) fun _ _ hb => ?_
    refine .pure (.tri ?_ hrm ha hb)
    split <;> rfl
  case h_4 =>
    refine .guard reservedZero_guards fun _ => .give listed_gives ?_
    refine .read (getFpr_reads w.rb_lt) fun _ _ hb => .ret (hfinish (hrounded ?_))
    exact .bin rfl hrm hb
  case h_5 =>
    refine .ite (fun _ => refuse_bind) fun _ => .give listed_gives ?_
    refine .read (getFpr_reads w.ra_lt) fun _ _ ha => ?_
    refine .bind (bind_computes (.bin rfl ha .f64)) fun _ _ _ _ hcc => ?_
    refine .read (getFpr_reads w.rcField_lt) fun _ _ hc => ?_
    refine .read (getFpr_reads w.rb_lt) fun _ _ hb => .ret (hfinish ?_)
    exact .ite (.bin rfl (.bin rfl hcc .u32) (.bin rfl hcc .u32)) hc hb
  case h_6 | h_8 =>
    refine .guard reservedZero_guards fun _ => .give listed_gives ?_
    exact .read (getFpr_reads w.rb_lt) fun _ _ hb => .ret (hfinish (hrounded (.un rfl hb)))
  case h_7 =>
    refine .guard reservedZero_guards fun _ => .give listed_gives ?_
    refine .read (getFpr_reads w.ra_lt) fun _ _ ha => ?_
    refine .read (getFpr_reads w.rcField_lt) fun _ _ hc => .ret (hfinish (.tri ?_ hrm ha hc))
    split <;> rfl
  case h_9 | h_10 =>
    refine .read (Q := fun e e' => Paired P s₁ e e' .f64) ?_ fun _ _ h => hfinish h
    refine .give listed_gives (.read (getFpr_reads w.ra_lt) fun _ _ ha => ?_)
    refine .read (getFpr_reads w.rcField_lt) fun _ _ hc => ?_
    refine .read (getFpr_reads w.rb_lt) fun _ _ hb => .pure (.quad ?_ hrm ha hc hb)
    split <;> rfl
  case h_11 | h_12 =>
    refine .read (Q := fun e e' => Paired P s₁ e e' .f64) ?_ fun _ _ h => .ret (hfinish (.un rfl h))
    refine .give listed_gives (.read (getFpr_reads w.ra_lt) fun _ _ ha => ?_)
    refine .read (getFpr_reads w.rcField_lt) fun _ _ hc => ?_
    refine .read (getFpr_reads w.rb_lt) fun _ _ hb => .pure (.quad ?_ hrm ha hc hb)
    split <;> rfl
  case h_13 => exact refuse_bind

theorem singleOfInteger_emits : Emits P s pending (singleOfInteger w) (singleOfInteger w) := by
  unfold singleOfInteger
  refine .guard reservedZero_guards fun _ => ?_
  dsimp only
  split
  case h_1 | h_2 =>
    refine .ret (.give listed_gives (.read rounding_reads fun _ _ hrm => ?_))
    exact .read (getFprBits_reads w.rb_lt) fun _ _ hb => finish_emits (.un rfl (.bin rfl hrm hb))
  case h_3 => exact refuse_bind

/-! ## Comparison and class tests -/

theorem putComparison_emits {f : Nat} (hf : f < 8) (he : Paired P s e e' .i32)
    (hmask : Bounded P s e 0xF) : Emits P s pending (putComparison f e) (putComparison f e') := by
  unfold putComparison
  refine .seq (putCrField_emits hf he) fun _ _ => ?_
  refine .read (getMasked_bounded (by decide) rfl) fun _ _ ⟨hkept, hclass⟩ => ?_
  have hflag : (Slot.special .cFpcc).flagBits? = some 0x1F := rfl
  -- The class bit stays and the four comparison bits are new.
  exact (putFlag_emits hflag trivial (by simp [Slot.isField]) nofun (.bin rfl hkept (.un rfl he.up))
    (.weaken (.or hclass (.cast rfl hmask.up)) (by decide))).last

theorem one_shifted_bounded {b : Expr} (hb : Bounded P s b 3) :
    Bounded P s (.bin .shl32 (.u32 1) b) 0xF :=
  .shlUpTo (n := 1) (by decide) (.u32 1) hb

theorem putOrder_emits {f : Nat} (hf : f < 8) (he : Paired P s e e' .i32) :
    Emits P s pending (putOrder f e) (putOrder f e') := by
  unfold putOrder
  refine .bind (bind_bounded 0xF (.bin rfl .u32 (.un rfl (.bin rfl ?_ ?_))) ?_) fun _ _ _ _ hcc =>
    (putComparison_emits hf hcc.1 hcc.2).last
  · exact .bin rfl (.un rfl (.bin rfl he .u8)) .u32
  · exact .bin rfl (.bin rfl he (.bin rfl he .u8)) .u32
  -- One bit, moved by at most three places.
  · exact one_shifted_bounded (.cast rfl (.or (.andRight (.u32 2)) (.andRight (.u32 1))))

theorem compare_emits : Emits P s pending (compare w) (compare w) := by
  unfold compare
  refine .guard reservedZero_guards fun _ => .give listed_gives ?_
  refine .read (getFpr_reads w.ra_lt) fun _ _ ha => .read (getFpr_reads w.rb_lt) fun _ _ hb => ?_
  exact .bind (bind_computes (.bin rfl ha hb)) fun _ _ _ _ h => (putOrder_emits w.crfd_lt h).last

section

variable (he : Paired P s e e' .i64)

include he

theorem exponent_paired : Paired P s (exponent e) (exponent e') .i64 :=
  .bin rfl (.bin rfl he .u8) .u64

theorem magnitude_paired : Paired P s (magnitude e) (magnitude e') .i64 := .bin rfl he .u64

theorem notFinite_paired : Paired P s (notFinite e) (notFinite e') .i1 :=
  .bin rfl (exponent_paired he) .u64

theorem infinite_paired : Paired P s (infinite e) (infinite e') .i1 :=
  .bin rfl (magnitude_paired he) .u64

theorem isZero_paired : Paired P s (isZero e) (isZero e') .i1 :=
  .bin rfl (magnitude_paired he) .u64

theorem negative_paired : Paired P s (negative e) (negative e') .i1 := .bin rfl he .u64

theorem denormal_paired : Paired P s (denormal e) (denormal e') .i1 :=
  .bin rfl (.bin rfl (exponent_paired he) .u64) (.bin rfl (magnitude_paired he) .u64)

end

theorem test_emits : Emits P s pending (test w) (test w) := by
  unfold test
  refine .guard reservedZero_guards fun _ => ?_
  refine hold_runs (getFprBits_reads w.rb_lt) fun _ _ _ _ hb => ?_
  extract_lets finish
  have hfinish : ∀ {s₁ : Stage} [Before s s₁] {fe fe' fg fg' : Expr}, Paired P s₁ fe fe' .i1 →
      Paired P s₁ fg fg' .i1 → Runs P s₁ pending (finish (fe, fg)) (finish (fe', fg'))
        (Kept P s pending fun _ _ _ => True) :=
    fun hfe hfg => (putCrField_emits w.crfd_lt (.bin rfl .u32
      (.bin rfl (.bin rfl (.un rfl hfg) .u8) (.bin rfl (.un rfl hfe) .u8)))).last
  refine .ite (fun _ => .give listed_gives ?_) fun _ => ?_
  · refine hold_runs (getFprBits_reads w.ra_lt) fun _ _ s₁ _ ha => ?_
    have hb : Paired P s₁ _ _ .i64 := hb.up
    refine .ret (hfinish ?_ ?_)
    · exact .bin rfl (.bin rfl (notFinite_paired ha) (notFinite_paired hb)) (isZero_paired hb)
    · exact .bin rfl (.bin rfl (.bin rfl (infinite_paired ha) (infinite_paired hb))
        (isZero_paired hb)) (denormal_paired hb)
  · refine .guard reservedZero_guards fun _ => .give listed_gives (.ret (hfinish ?_ ?_))
    · exact .bin rfl (.bin rfl (notFinite_paired hb) (isZero_paired hb)) (negative_paired hb)
    · exact .bin rfl (.bin rfl (infinite_paired hb) (isZero_paired hb)) (denormal_paired hb)

/-! ## Rounding, conversion and sign -/

theorem unary_emits : Emits P s pending (unary w) (unary w) := by
  unfold unary
  refine .guardWhen (fun _ => reservedZero_guards) fun _ => ?_
  refine .read (getFpr_reads w.rb_lt) fun b b' hb => ?_
  have hmode : Reads P s pending
      (if (w.xo10 % 2 == 1) = true then pure (.u32 Rounding.zero.code) else rounding)
      (if (w.xo10 % 2 == 1) = true then pure (.u32 Rounding.zero.code) else rounding) .i32 :=
    .ite (fun _ => .pure .u32) fun _ => rounding_reads
  dsimp only
  split
  case h_1 =>
    refine .give listed_gives (.read rounding_reads fun _ _ hrm => ?_)
    exact .ret (finish_emits (.bin rfl hrm hb))
  case h_2 | h_3 | h_4 | h_5 =>
    refine .give listed_gives (.read hmode fun _ _ hrm => .ret (finish_emits (.un rfl ?_)))
    refine .un rfl (.bin ?_ hrm hb)
    split <;> rfl
  case h_6 | h_7 | h_8 | h_9 =>
    refine .give listed_gives (.read hmode fun _ _ hrm => .ret (finish_emits (.un rfl ?_)))
    refine .bin ?_ hrm hb
    split <;> rfl
  case h_10 | h_11 =>
    refine .give listed_gives (.read rounding_reads fun _ _ hrm => ?_)
    exact .read (getFprBits_reads w.rb_lt) fun _ _ h => .ret (finish_emits (.bin rfl hrm h))
  case h_12 | h_13 | h_14 | h_15 =>
    refine .read (Q := fun e e' => Paired P s e e' .f64) ?_ fun _ _ h => finish_emits h
    exact .give listed_gives (.pure (.bin rfl .u32 hb))
  case h_16 => exact .give listed_gives (.ret (finish_emits hb))
  case h_17 | h_18 => exact .give listed_gives (.ret (finish_emits (.un rfl hb)))
  case h_19 => exact .give listed_gives (.ret (finish_emits (.un rfl (.un rfl hb))))
  case h_20 =>
    refine .give listed_gives (.read (getFprBits_reads w.ra_lt) fun _ _ ha => ?_)
    refine .read (getFprBits_reads w.rb_lt) fun _ _ hb => .ret (finish_emits ?_)
    exact .un rfl (.bin rfl (.bin rfl ha .u64) (.bin rfl hb .u64))
  case h_21 => exact refuse_bind

/-! ## Status register -/

theorem writeStatus_emits {mask : BitVec 64} (he : Paired P s e e' .i64) :
    Emits P s pending (writeStatus e mask) (writeStatus e' mask) := by
  unfold writeStatus
  refine .read getFpscr_reads fun _ _ hold => ?_
  exact putFpscrMasked_emits (.bin rfl (.bin rfl hold .u64) (.bin rfl he .u64))

theorem readField_emits : Emits P s pending (readField w) (readField w) := by
  unfold readField
  refine .guard reservedZero_guards fun _ => .give listed_gives ?_
  refine .read getFpscr_reads fun _ _ h => putCrField_emits w.crfd_lt ?_
  exact .bin rfl (.un rfl (.bin rfl h .u8)) .u32

theorem status_emits : Emits P s pending (status w) (status w) := by
  unfold status
  have hlast : ∀ {s₁ : Stage} [Before s s₁], Runs P s₁ pending
      (if w.record = true then recordFloat else pure ())
      (if w.record = true then recordFloat else pure ()) (Kept P s pending fun _ _ _ => True) :=
    .ite (fun _ => recordFloat_emits.last) fun _ => .done trivial
  dsimp only
  split
  case h_1 =>
    refine .guard reservedZero_guards fun _ => .give listed_gives ?_
    refine .read getFpscr_reads fun _ _ h => ?_
    exact .seq (putFprBits_emits w.rd_lt h) fun _ _ => hlast
  case h_2 =>
    refine .give listed_gives (.read (getFprBits_reads w.rb_lt) fun _ _ h => ?_)
    exact .seq (writeStatus_emits h) fun _ _ => hlast
  case h_3 =>
    refine .guard reservedZero_guards fun _ => .give listed_gives ?_
    exact .seq (writeStatus_emits .u64) fun _ _ => hlast
  case h_4 | h_5 =>
    refine .guard reservedZero_guards fun _ => .give listed_gives ?_
    exact .seq (writeStatus_emits .u64) fun _ _ => hlast
  case h_6 => exact refuse_bind

theorem extended_emits : Emits P s pending (extended w) (extended w) := by
  unfold extended
  split
  case h_1 | h_2 => exact compare_emits
  case h_3 | h_4 => exact test_emits
  case h_5 => exact readField_emits
  case h_6 | h_7 | h_8 | h_9 | h_10 => exact status_emits
  case h_11 => exact unary_emits

theorem lift_ends : Ends P s (lift w) (lift w) := by
  unfold lift
  refine .ite (fun _ => Emits.ends immediate_emits) fun _ => ?_
  split
  case h_1 | h_2 => exact .ite (fun _ => Emits.ends pair_emits) fun _ => refuse_runs
  case h_3 => exact Emits.ends indexed_emits
  case h_4 =>
    exact .ite (fun _ => Emits.ends arithmetic_emits) fun _ => Emits.ends singleOfInteger_emits
  case h_5 => exact .ite (fun _ => Emits.ends arithmetic_emits) fun _ => Emits.ends extended_emits
  case h_6 => exact refuse_runs

end FloatingPoint

namespace DecimalFloat

open FloatingPoint (putComparison_emits putOrder_emits)

variable {e e' : Expr} {f : DecFormat}

/-! ## Operands -/

/-- The registers that can hold a decimal of a format. -/
structure Holds (f : DecFormat) (i : Nat) : Prop where
  lt : i < 32
  next_lt : f = .quad → i + 1 < 32

theorem evenPairs_guards {regs : List Nat} :
    Guards P s pending (evenPairs w f regs) (evenPairs w f regs)
      (∀ i ∈ regs, i < 32 → Holds f i) := by
  refine invalidIf_guards.mono fun _ _ q q' h => ⟨h.1, fun i hi hlt => ⟨hlt, ?_⟩⟩
  rintro rfl
  have heven : ∀ j ∈ regs, j % 2 = 0 := by simpa using h.2
  exact Insn.pair_lt hlt (by simp [heven i hi])

theorem getLong_reads {i : Nat} (hi : i < 32) : Reads P s pending (getLong i) (getLong i) .d64 :=
  .read (getFprBits_reads hi) fun _ _ h => .pure (.un rfl h)

theorem putLong_emits {i : Nat} (hi : i < 32) (he : Paired P s e e' .d64) :
    Emits P s pending (putLong i e) (putLong i e') :=
  putFprBits_emits hi (.un rfl he)

theorem getDecimal_reads {i : Nat} (hi : Holds f i) :
    Reads P s pending (getDecimal f i) (getDecimal f i) f.ty := by
  cases f with
  | long => exact getLong_reads hi.lt
  | quad =>
      refine .read (getLong_reads hi.lt) fun _ _ hhi => ?_
      exact .read (getLong_reads (hi.next_lt rfl)) fun _ _ hlo => .pure (.bin rfl hhi hlo)

theorem putDecimal_emits {i : Nat} (hi : Holds f i) (he : Paired P s e e' f.ty) :
    Emits P s pending (putDecimal f i e) (putDecimal f i e') := by
  cases f with
  | long => exact putLong_emits hi.lt he
  | quad =>
      refine .bind (bind_computes he) fun _ _ _ _ h => ?_
      refine .seq (putLong_emits hi.lt (.un rfl h)) fun _ _ => ?_
      exact (putLong_emits (hi.next_lt rfl) (.un rfl h.up)).last

/-! ## Digits -/

theorem firstDigit_computes (he : Paired P s e e' .i64) :
    Computes P s pending (firstDigit e) (firstDigit e') .i64 := by
  unfold firstDigit
  refine .bind (bind_computes (.bin rfl (.bin rfl he .u8) .u64)) fun _ _ _ _ h => ?_
  refine (bind_computes (.ite (.bin rfl (.bin rfl h .u8) .u64) ?_ (.bin rfl h .u64))).last
  exact .bin rfl .u64 (.bin rfl h .u64)

theorem toPacked_emits : Emits P s pending (toPacked w) (toPacked w) := by
  unfold toPacked
  refine .guard reservedZero_guards fun _ => .give listed_gives ?_
  refine hold_runs (getFprBits_reads w.rb_lt) fun _ _ _ _ hbits => ?_
  refine .bind (bind_computes (.call (.cons (.bin rfl hbits .u64) .nil))) fun _ _ _ _ hpacked => ?_
  refine .ite (fun _ => ?_) fun _ => ?_
  · refine .bind (firstDigit_computes hbits.up) fun _ _ _ _ hfirst => ?_
    exact (putFprBits_emits w.rd_lt (.bin rfl (.bin rfl hfirst .u8) hpacked.up)).last
  · exact (putFprBits_emits w.rd_lt (.bin rfl (.bin rfl hpacked .u8)
      (.ite (.bin rfl hbits.up .u64) .u64 .u64))).last

theorem ofPacked_emits : Emits P s pending (ofPacked w) (ofPacked w) := by
  unfold ofPacked
  refine .guard reservedZero_guards fun _ => .give listed_gives ?_
  refine hold_runs (getFprBits_reads w.rb_lt) fun _ _ _ _ hbits => ?_
  refine .ite (fun _ => ?_) fun _ => ?_
  · refine .bind (bind_computes (.bin rfl hbits .u64)) fun _ _ s₁ _ hcode => .ret ?_
    have hbits : Paired P s₁ _ _ .i64 := hbits.up
    refine (putFprBits_emits w.rd_lt (.bin rfl (.bin rfl (.bin rfl (.un rfl ?_) .u8)
      (.bin rfl .u64 .u64)) (.call (.cons (.bin rfl hbits .u8) .nil)))).last
    exact .bin rfl (.bin rfl hcode .u64) (.bin rfl hcode .u64)
  · refine .bind (bind_computes (.bin rfl hbits .u8)) fun _ _ s₁ _ hfirst => .ret ?_
    have hbits : Paired P s₁ _ _ .i64 := hbits.up
    refine (putFprBits_emits w.rd_lt (.bin rfl (.bin rfl .u64 (.bin rfl (.bin rfl ?_ .u8) .u64))
      (.call (.cons (.bin rfl hbits .u64) .nil)))).last
    exact .ite (.bin rfl hfirst .u64) (.bin rfl .u64 hfirst)
      (.bin rfl .u64 (.bin rfl hfirst .u64))

/-! ## Tests -/

theorem testSignificance_emits : Emits P s pending (testSignificance w) (testSignificance w) := by
  unfold testSignificance
  refine .guard reservedZero_guards fun _ => .guard evenPairs_guards fun heven => ?_
  have hb := heven w.rb (by simp) w.rb_lt
  refine .give listed_gives (.read (getFprBits_reads w.ra_lt) fun _ _ hwanted => ?_)
  refine .read (getDecimal_reads hb) fun _ _ hvalue => ?_
  refine .read (getFprBits_reads w.rb_lt) fun _ _ hbits => ?_
  refine .bind (bind_bounded 0xF (.ite (.bin rfl .u64 (.bin rfl (.bin rfl hbits .u8) .u64)) .u32
    (.bin rfl (.bin rfl (.un rfl hwanted) .u32) (.un rfl (.un rfl hvalue))))
    (.ite (.weaken (.u32 1) (by decide)) (.weaken .order (by decide)))) fun _ _ _ _ hcc => ?_
  exact (putComparison_emits w.crfd_lt hcc.1 hcc.2).last

theorem testClass_emits {group : Bool} :
    Emits P s pending (testClass w group) (testClass w group) := by
  unfold testClass
  refine .guard reservedZero_guards fun _ => .guard evenPairs_guards fun heven => ?_
  have ha := heven w.ra (by simp) w.ra_lt
  refine .give listed_gives ?_
  refine hold_runs (getFprBits_reads w.ra_lt) fun hi hi' s₁ _ hhi => ?_
  extract_lets sign finish sign' finish'
  have hfinish : ∀ {args args' : List Expr} {types : List Ty},
      PairedList P s₁ args args' types → Emits P s₁ pending (finish args) (finish' args') := by
    intro args args' types hargs
    refine .bind (bind_computes (.call hargs)) fun _ _ _ _ hcls => ?_
    refine .bind (bind_bounded 0xF (.bin rfl (.bin rfl (.un rfl (.bin rfl hhi.up .u8)) .u8)
      (.bin rfl (.un rfl ?_) .u8)) ?_) fun _ _ _ _ hcc =>
        (putComparison_emits w.crfd_lt hcc.1 hcc.2).last
    · exact .bin rfl (.bin rfl (.bin rfl hcls .u8) .u64) .u64
    · exact .weaken (.or (.shl 3 (by decide) (.cast rfl (.shr 63 (by decide))))
        (.shl 1 (by decide) (.truth rfl rfl))) (by decide)
  generalize hf : format w = f at ha ⊢
  cases f with
  | quad =>
      refine .read (getFprBits_reads (ha.next_lt rfl)) fun _ _ hlo => .ret ?_
      exact (hfinish (.cons hhi (.cons hlo (.cons .u64 .nil)))).last
  | long => exact .ret (hfinish (.cons .u64 (.cons hhi (.cons .u64 .nil)))).last

/-! ## Arithmetic and conversion -/

theorem finish_emits (hd : Holds f w.rd) (he : Paired P s e e' f.ty) :
    Emits P s pending (finish w f e) (finish w f e') := by
  unfold finish
  refine .seq (putDecimal_emits hd he) fun _ _ => ?_
  exact .ite (fun _ => recordFloat_emits.last) fun _ => .done trivial

theorem finishBits_emits (he : Paired P s e e' .i64) :
    Emits P s pending (finishBits w e) (finishBits w e') := by
  unfold finishBits
  refine .seq (putFprBits_emits w.rd_lt he) fun _ _ => ?_
  exact .ite (fun _ => recordFloat_emits.last) fun _ => .done trivial

theorem arithmetic_emits {name : String} {op : DecFormat → DecimalOp}
    (hop : ∀ f, (op f).signature = ⟨f.ty, [.i32, f.ty, f.ty]⟩) :
    Emits P s pending (arithmetic w name op) (arithmetic w name op) := by
  unfold arithmetic
  refine .guard evenPairs_guards fun heven => .give listed_gives ?_
  refine .read decimalRounding_reads fun _ _ hrm => ?_
  refine .read (getDecimal_reads (heven w.ra (by simp) w.ra_lt)) fun _ _ ha => ?_
  refine .read (getDecimal_reads (heven w.rb (by simp) w.rb_lt)) fun _ _ hb => ?_
  exact finish_emits (heven w.rd (by simp) w.rd_lt) (.tri (hop _) hrm ha hb)

theorem compare_emits {name : String} {op : DecFormat → DecimalOp}
    (hop : ∀ f, (op f).signature = .binary .i32 f.ty f.ty) :
    Emits P s pending (compare w name op) (compare w name op) := by
  unfold compare
  refine .guard reservedZero_guards fun _ => .guard evenPairs_guards fun heven => ?_
  refine .give listed_gives ?_
  refine .read (getDecimal_reads (heven w.ra (by simp) w.ra_lt)) fun _ _ ha => ?_
  refine .read (getDecimal_reads (heven w.rb (by simp) w.rb_lt)) fun _ _ hb => ?_
  refine .bind (bind_computes (.bin (hop _) ha hb)) fun _ _ _ _ h => ?_
  exact (putOrder_emits w.crfd_lt h).last

/-- One floating-point register holds a long decimal. -/
theorem holds_long {i : Nat} (hi : i < 32) : Holds .long i := ⟨hi, by simp⟩

theorem widenFormat_emits : Emits P s pending (widenFormat w) (widenFormat w) := by
  unfold widenFormat
  split
  · refine .guard evenPairs_guards fun heven => .give listed_gives ?_
    refine .read (getLong_reads w.rb_lt) fun _ _ hb => ?_
    exact finish_emits (heven w.rd (by simp) w.rd_lt) (.un rfl hb)
  · refine .give listed_gives (.read (getFprBits_reads w.rb_lt) fun _ _ hb => ?_)
    exact finish_emits (holds_long w.rd_lt) (.un rfl (.un rfl hb))

theorem narrowFormat_emits : Emits P s pending (narrowFormat w) (narrowFormat w) := by
  unfold narrowFormat
  split
  · refine .guard evenPairs_guards fun heven => .give listed_gives ?_
    refine .read decimalRounding_reads fun _ _ hrm => ?_
    refine .read (getDecimal_reads (heven w.rb (by simp) w.rb_lt)) fun _ _ hb => ?_
    exact finish_emits (heven w.rd (by simp) w.rd_lt) (.un rfl (.bin rfl hrm hb))
  · refine .give listed_gives (.read decimalRounding_reads fun _ _ hrm => ?_)
    refine .read (getLong_reads w.rb_lt) fun _ _ hb => ?_
    exact finishBits_emits (.un rfl (.bin rfl hrm hb))

theorem ofInteger_emits : Emits P s pending (ofInteger w) (ofInteger w) := by
  unfold ofInteger
  refine .guard evenPairs_guards fun heven => .give listed_gives ?_
  refine .read (getFprBits_reads w.rb_lt) fun _ _ hb => ?_
  have hd := heven w.rd (by simp) w.rd_lt
  generalize format w = f at hd ⊢
  cases f with
  | quad => exact finish_emits hd (.un rfl hb)
  | long => exact .read decimalRounding_reads fun _ _ hrm => finish_emits hd (.bin rfl hrm hb)

theorem toInteger_emits : Emits P s pending (toInteger w) (toInteger w) := by
  unfold toInteger
  refine .guard evenPairs_guards fun heven => .give listed_gives ?_
  refine .read decimalRounding_reads fun _ _ hrm => ?_
  refine .read (getDecimal_reads (heven w.rb (by simp) w.rb_lt)) fun _ _ hb => ?_
  exact finishBits_emits (.bin rfl hrm hb)

theorem extractExponent_emits : Emits P s pending (extractExponent w) (extractExponent w) := by
  unfold extractExponent
  refine .guard evenPairs_guards fun heven => .give listed_gives ?_
  refine .read (getDecimal_reads (heven w.rb (by simp) w.rb_lt)) fun _ _ hb => ?_
  exact finishBits_emits (.un rfl hb)

theorem insertExponent_emits : Emits P s pending (insertExponent w) (insertExponent w) := by
  unfold insertExponent
  refine .guard evenPairs_guards fun heven => .give listed_gives ?_
  refine .read (getFprBits_reads w.ra_lt) fun _ _ ha => ?_
  refine .read (getDecimal_reads (heven w.rb (by simp) w.rb_lt)) fun _ _ hb => ?_
  exact finish_emits (heven w.rd (by simp) w.rd_lt) (.bin rfl ha hb)

theorem packed_emits {convert : Insn → Lift Unit}
    (hconvert : Emits P s pending (convert w) (convert w)) :
    Emits P s pending (packed w convert) (packed w convert) := by
  unfold packed
  refine .ite (fun _ => refuse_bind) fun _ => .seq hconvert fun _ _ => ?_
  exact .ite (fun _ => recordFloat_emits.last) fun _ => .done trivial

theorem extended_emits : Emits P s pending (extended w) (extended w) := by
  unfold extended
  split
  case h_1 | h_2 | h_3 | h_4 => exact arithmetic_emits fun _ => rfl
  case h_5 | h_6 | h_7 => exact compare_emits fun _ => rfl
  case h_8 => exact testSignificance_emits
  case h_9 => exact widenFormat_emits
  case h_10 => exact narrowFormat_emits
  case h_11 => exact ofInteger_emits
  case h_12 => exact toInteger_emits
  case h_13 => exact extractExponent_emits
  case h_14 => exact insertExponent_emits
  case h_15 => exact packed_emits toPacked_emits
  case h_16 => exact packed_emits ofPacked_emits
  case h_17 => exact refuse_runs

theorem shiftDigits_emits {left : Bool} :
    Emits P s pending (shiftDigits w left) (shiftDigits w left) := by
  unfold shiftDigits
  refine .guard evenPairs_guards fun heven => .give listed_gives ?_
  refine .read (getDecimal_reads (heven w.ra (by simp) w.ra_lt)) fun _ _ ha => ?_
  refine finish_emits (heven w.rd (by simp) w.rd_lt) ?_
  cases left <;> exact .bin rfl ha .u8

/-! ## Quantizing and rounding -/

theorem namedRounding_reads {second : Bool} {rmc : Nat} :
    Reads P s pending (namedRounding second rmc) (namedRounding second rmc) .i32 := by
  unfold namedRounding
  split
  case h_4 => exact decimalRounding_reads
  all_goals exact .pure .u32

theorem oneWithExponent_paired {exponent : Int} :
    Paired P s (oneWithExponent f exponent) (oneWithExponent f exponent) f.ty := by
  cases f with
  | quad => exact .bin rfl .u64 (.bin rfl (.un rfl .u64) (.un rfl .u64))
  | long => exact .bin rfl .u64 (.un rfl .u64)

theorem rounded_emits : Emits P s pending (rounded w) (rounded w) := by
  unfold rounded
  dsimp only
  split
  case h_1 =>
    refine .guard evenPairs_guards fun heven => .give listed_gives ?_
    refine .read namedRounding_reads fun _ _ hrm => ?_
    refine .read (getDecimal_reads (heven w.ra (by simp) w.ra_lt)) fun _ _ ha => ?_
    refine .read (getDecimal_reads (heven w.rb (by simp) w.rb_lt)) fun _ _ hb => .ret ?_
    exact finish_emits (heven w.rd (by simp) w.rd_lt) (.tri rfl hrm ha hb)
  case h_2 =>
    refine .guard evenPairs_guards fun heven => .give listed_gives ?_
    refine .read namedRounding_reads fun _ _ hrm => ?_
    refine .read (getDecimal_reads (heven w.rb (by simp) w.rb_lt)) fun _ _ hb => .ret ?_
    exact finish_emits (heven w.rd (by simp) w.rd_lt) (.tri rfl hrm oneWithExponent_paired hb)
  case h_3 | h_4 =>
    refine .read (Q := fun e e' => Holds (format w) w.rd ∧ Paired P s e e' (format w).ty) ?_
      fun _ _ h => finish_emits h.1 h.2
    refine .guard reservedZero_guards fun _ => .guard evenPairs_guards fun heven => ?_
    refine .give listed_gives (.read namedRounding_reads fun _ _ hrm => ?_)
    refine .read (getDecimal_reads (heven w.rb (by simp) w.rb_lt)) fun _ _ hb => ?_
    exact .pure ⟨heven w.rd (by simp) w.rd_lt, .bin rfl hrm hb⟩
  case h_5 => exact refuse_bind

theorem lift_ends : Ends P s (lift w) (lift w) := by
  unfold lift
  refine .ite (fun _ => ?_) fun _ => refuse_runs
  split
  case h_1 => exact Emits.ends rounded_emits
  case h_2 | h_3 => exact Emits.ends shiftDigits_emits
  case h_4 | h_5 => exact Emits.ends testClass_emits
  case h_6 => exact Emits.ends extended_emits
  case h_7 => exact refuse_runs

end DecimalFloat

end PowerLift
