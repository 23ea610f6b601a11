import PowerLift.Family.Comparison
import PowerLift.Family.Rotate
import PowerLift.Family.Arithmetic
import PowerLift.Proofs.Flags

/-!
# Integer instructions

Arithmetic, comparison, logic, rotates and shifts of general registers.
-/

namespace PowerLift

open Lift
open Stage (Next Before)

variable {P : Placement} {s : Stage} {pending : List Nat} {w : Insn}

namespace Arithmetic

variable {a a' b b' : Expr} {t t' : Nat}

/-- A value that is bound and written to the target register. -/
theorem putBound_emits {r : Nat} {e e' : Expr} (hr : r < 32) (he : Paired P s e e' P.gprTy) :
    Emits P s pending (bind e >>= putGpr r) (bind e' >>= putGpr r) :=
  .bind (bind_computes he) fun _ _ _ _ h => (putGpr_emits hr h).last

theorem addImmediate_emits : Emits P s pending (addImmediate w) (addImmediate w) := by
  unfold addImmediate
  refine .give imm_gives (.ite (fun _ => .give listed_gives ?_) fun _ => .give listed_gives ?_)
  · exact putBound_emits w.rd_lt .imm
  · refine .give wordOp_gives (.read (getGpr_reads w.ra_lt) fun _ _ h => ?_)
    exact putBound_emits w.rd_lt (.bin rfl h .imm)

theorem immediate_emits : Emits P s pending (immediate w) (immediate w) := by
  unfold immediate
  refine .ite (fun _ => addImmediate_emits) fun _ => ?_
  refine hold_runs (getGpr_reads w.ra_lt) fun _ _ _ _ ha => ?_
  refine .give imm_gives ?_
  dsimp only
  split
  case h_1 | h_2 =>
    refine .give listed_gives (.give wordOp_gives ?_)
    refine .bind (bind_computes (.bin rfl ha .imm)) fun _ _ _ _ hres => .give imm_gives ?_
    refine .seq (setCarry_emits trivial hres ha.up .imm .imm) fun _ _ => ?_
    refine .when (fun _ => recordResult_emits hres.up) fun _ _ => .ret ?_
    exact (putGpr_emits w.rd_lt hres.up).last
  case h_3 =>
    refine .give listed_gives (.give wordOp_gives ?_)
    exact .bind (bind_computes (.bin rfl ha .imm)) fun _ _ _ _ hres =>
      (putGpr_emits w.rd_lt hres).last
  case h_4 =>
    refine .give listed_gives (.give wordOp_gives ?_)
    refine .bind (bind_computes (.bin rfl .imm ha)) fun _ _ _ _ hres => .give imm_gives ?_
    refine .seq (setCarry_emits trivial hres ha.up .imm .imm) fun _ _ => .ret ?_
    exact (putGpr_emits w.rd_lt hres.up).last
  case h_5 => exact refuse_bind

theorem addNextShifted_emits : Emits P s pending (addNextShifted w) (addNextShifted w) := by
  unfold addNextShifted
  exact .give listed_gives (.give read_gives (putGpr_emits w.rd_lt .imm))

theorem multiplyAdd_emits : Emits P s pending (multiplyAdd w) (multiplyAdd w) := by
  unfold multiplyAdd
  refine .guard needMode64_guards fun h64 => ?_
  refine hold_runs (getGpr_reads w.ra_lt) fun a a' _ _ ha => ?_
  refine hold_runs (getGpr_reads w.rb_lt) fun b b' _ _ hb => ?_
  refine hold_runs (getGpr_reads w.rcField_lt) fun c c' s₁ _ hc => ?_
  have ha : Paired P s₁ a a' .i64 := ha.up.long h64
  have hb : Paired P s₁ b b' .i64 := hb.up.long h64
  have hc : Paired P s₁ c c' .i64 := hc.long h64
  extract_lets operands wide put wide'
  have hwide : ∀ sign, Runs P s₁ pending (wide sign) (wide' sign) (Kept P s₁ pending
      fun r r' s₂ => Paired P s₂ r.1 r'.1 .i64 ∧ Paired P s₂ r.2 r'.2 .i64) := by
    intro sign
    refine .bind (bind_computes (.bin rfl ha hb)) fun _ _ _ _ hproduct => ?_
    refine .bind (bind_computes (.un rfl hproduct)) fun _ _ _ _ hlo => ?_
    refine .bind (bind_computes (.bin rfl hlo hc.up)) fun _ _ _ _ hsum => ?_
    exact .done ⟨.un rfl hproduct.up, .un rfl (.bin rfl hsum hlo.up)⟩
  split
  · refine .give listed_gives (.bind (hwide _) fun ⟨_, _⟩ ⟨_, _⟩ _ _ ⟨hhi, hcarry⟩ => .ret ?_)
    exact (putGpr_emits w.rd_lt (.gpr h64
      (.bin rfl (.bin rfl hhi (.bin rfl hc.up .u8)) hcarry))).last
  · refine .give listed_gives (.bind (hwide _) fun ⟨_, _⟩ ⟨_, _⟩ _ _ ⟨hhi, hcarry⟩ => .ret ?_)
    exact (putGpr_emits w.rd_lt (.gpr h64 (.bin rfl hhi hcarry))).last
  · refine .give listed_gives (.ret ?_)
    exact (putGpr_emits w.rd_lt (.gpr h64 (.bin rfl (.bin rfl ha hb) hc))).last
  · exact refuse_bind

theorem modulo_emits : Emits P s pending (modulo w) (modulo w) := by
  unfold modulo
  refine .guard reservedClear_guards fun _ => ?_
  refine .read (getGpr_reads w.ra_lt) fun _ _ ha => .read (getGpr_reads w.rb_lt) fun _ _ hb => ?_
  refine .ite (fun _ => ?_) fun _ => .guard needMode64_guards fun h64 => ?_
  · refine .give listed_gives (.give low32_gives ?_)
    refine .bind (bind_computes ha.low32) fun _ _ _ _ ha => .give low32_gives ?_
    refine .bind (bind_computes hb.up.low32) fun _ _ _ _ hb => ?_
    refine .read (widen_reads (.bin rfl ha.up (.bin rfl (.bin rfl ha.up hb) hb)) .i32)
      fun _ _ hr => ?_
    exact (putGpr_emits w.rd_lt hr).last
  · refine .give listed_gives ?_
    refine .bind (bind_computes (ha.long h64)) fun _ _ _ _ ha => ?_
    refine .bind (bind_computes (hb.up.long h64)) fun _ _ _ _ hb => ?_
    exact (putGpr_emits w.rd_lt (.gpr h64
      (.bin rfl ha.up (.bin rfl (.bin rfl ha.up hb) hb)))).last

section

variable {a a' b b' : Expr} {t t' : Nat}

theorem extendedOperand_reads {base : String} {kind : ExtendedOperand}
    (hb : Paired P s b b' P.gprTy) :
    Reads P s pending (extendedOperand w base kind b) (extendedOperand w base kind b')
      P.gprTy := by
  unfold extendedOperand
  cases kind
  · exact .give listed_gives (.pure hb)
  · exact .guard reservedZero_guards fun _ => .give listed_gives imm_reads
  · exact .guard reservedZero_guards fun _ => .give listed_gives imm_reads

/-- Programs that bind the pending result of a three-register form. -/
abbrev Settles (P : Placement) (s : Stage) (pending : List Nat) (t t' : Nat) (m m' : Lift Unit) :
    Prop :=
  Runs P s (t :: pending) m m'
    (Kept P s pending fun _ _ s₁ => Paired P s₁ (.tmp t) (.tmp t') P.gprTy)

theorem extendedSum_settles {subtract : Bool} {kind : ExtendedOperand}
    (ht : Owed P s t t' P.gprTy) (ha : Paired P s a a' P.gprTy) (hb : Paired P s b b' P.gprTy) :
    Settles P s pending t t' (extendedSum w subtract kind a b t)
      (extendedSum w subtract kind a' b' t') := by
  unfold extendedSum
  refine .read (extendedOperand_reads hb) fun _ _ hb => .read getXerCa_reads fun _ _ hca => ?_
  refine .read (widen_reads hca .i8) fun _ _ hca => ?_
  refine .bind (bind_computes hca) fun _ _ _ _ hca => .give wordOp_gives ?_
  cases subtract
  · refine .ret (.bind (assign_kept ht.up (.bin rfl (.bin rfl ha.up hb.up) hca))
      fun _ _ _ _ hres => ?_)
    refine .seq (setCarry_emits trivial hres ha.up hb.up hca.up) fun _ _ => ?_
    exact .ite (fun _ => .lastEmit (setOverflow_emits trivial hres.up ha.up hb.up)
      fun _ _ => hres.up) fun _ => .done hres.up
  · refine .give wordOp_gives (.ret (.bind (assign_kept ht.up
      (.bin rfl (.bin rfl (.un rfl ha.up) hb.up) hca)) fun _ _ _ _ hres => ?_))
    refine .seq (setCarry_emits trivial hres ha.up hb.up hca.up) fun _ _ => ?_
    exact .ite (fun _ => .lastEmit (setOverflow_emits trivial hres.up ha.up hb.up)
      fun _ _ => hres.up) fun _ => .done hres.up

theorem Quotient.op_signature (q : Quotient) (v : Word) : (q.op v).signature = .same v.ty := by
  unfold Quotient.op
  split <;> rfl

theorem Quotient.rule_overflowsAt (q : Quotient) (v : Word) : (q.rule v).OverflowsAt v := by
  obtain ⟨sign, extended⟩ := q
  cases v <;> cases sign <;> cases extended <;> trivial

theorem divideWord_settles {q : Quotient} (ht : Owed P s t t' P.gprTy)
    (ha : Paired P s a a' P.gprTy) (hb : Paired P s b b' P.gprTy) :
    Settles P s pending t t' (divideWord w q a b t) (divideWord w q a' b' t') := by
  unfold divideWord
  refine .give listed_gives (.give low32_gives ?_)
  refine .bind (bind_computes ha.low32) fun _ _ _ _ ha => .give low32_gives ?_
  refine .bind (bind_computes hb.up.low32) fun _ _ _ _ hb => ?_
  refine .bind (bind_computes (.bin (q.op_signature .w32) ha.up hb)) fun _ _ s₁ _ hres => ?_
  refine .read (Q := fun e e' => Paired P s₁ e e' P.gprTy) ?_ fun _ _ hwide => ?_
  · unfold divideWord.to64IfWide
    refine .give mode64_gives (.ite (fun h64 => .pure (.gpr h64 (.un rfl hres))) fun h64 => ?_)
    exact .pure (hres.cast (Placement.gprTy_eq32 (by simpa using h64)).symm)
  · refine .bind (assign_kept ht.up hwide) fun _ _ _ _ hsettled => ?_
    exact .ite (fun _ => .lastEmit (setOverflow_emits (q.rule_overflowsAt .w32) hres.up ha.up hb.up)
      fun _ _ => hsettled.up) fun _ => .done hsettled

theorem divideDoubleword_settles {q : Quotient} (ht : Owed P s t t' P.gprTy)
    (ha : Paired P s a a' P.gprTy) (hb : Paired P s b b' P.gprTy) :
    Settles P s pending t t' (divideDoubleword w q a b t) (divideDoubleword w q a' b' t') := by
  unfold divideDoubleword
  refine .guard needMode64_guards fun h64 => .give listed_gives ?_
  refine .bind (assign_kept ht (.gpr h64 (.bin (q.op_signature .w64) (ha.long h64) (hb.long h64))))
    fun _ _ _ _ hres => ?_
  exact .ite (fun _ => .lastEmit (setOverflow_emits (q.rule_overflowsAt .w64) (hres.long h64)
    (ha.up.long h64) (hb.up.long h64)) fun _ _ => hres.up) fun _ => .done hres

theorem multiplyLowWord_settles (ht : Owed P s t t' P.gprTy) (ha : Paired P s a a' P.gprTy)
    (hb : Paired P s b b' P.gprTy) :
    Settles P s pending t t' (multiplyLowWord w a b t) (multiplyLowWord w a' b' t') := by
  unfold multiplyLowWord
  refine .give listed_gives (.give low32_gives (.give low32_gives (.give mode64_gives ?_)))
  have hproduct : Paired P s
      (.bin (if P.env.arch.is64 = true then .mull .signed .w32 else .mul .w32)
        (P.env.low32 a) (P.env.low32 b))
      (.bin (if P.env.arch.is64 = true then .mull .signed .w32 else .mul .w32)
        (P.env.low32 a') (P.env.low32 b')) P.gprTy := by
    split
    next h64 => exact .gpr h64 (.bin rfl ha.low32 hb.low32)
    next h64 =>
      exact Paired.cast (Placement.gprTy_eq32 (by simpa using h64)).symm
        (.bin rfl ha.low32 hb.low32)
  refine .bind (assign_kept ht hproduct) fun _ _ _ _ hres => ?_
  refine .ite (fun _ => .give low32_gives ?_) fun _ => .done hres
  refine .bind (bind_computes hres.low32) fun _ _ _ _ hlo => ?_
  exact .lastEmit (setOverflow_emits rfl hlo ha.low32.up hb.low32.up) fun _ _ => hres.up

theorem multiplyHighWord_settles {sign : Sign} (ht : Owed P s t t' P.gprTy)
    (ha : Paired P s a a' P.gprTy) (hb : Paired P s b b' P.gprTy) :
    Settles P s pending t t' (multiplyHighWord w sign a b t)
      (multiplyHighWord w sign a' b' t') := by
  unfold multiplyHighWord
  refine .guard invalidIf_guards fun _ => .give listed_gives ?_
  refine .give low32_gives (.give low32_gives ?_)
  refine .read (Q := fun e e' => Paired P s e e' P.gprTy) ?_ fun _ _ hres => assign_kept ht hres
  have hhi : Paired P s
      (.un (.cast .high64to32) (.bin (.mull sign .w32) (P.env.low32 a) (P.env.low32 b)))
      (.un (.cast .high64to32) (.bin (.mull sign .w32) (P.env.low32 a') (P.env.low32 b'))) .i32 :=
    .un rfl (.bin rfl ha.low32 hb.low32)
  unfold multiplyHighWord.to64
  refine .give mode64_gives (.ite (fun h64 => ?_) fun h64 => ?_)
  · cases sign <;> exact .pure (.gpr h64 (.un rfl hhi))
  · exact .pure (hhi.cast (Placement.gprTy_eq32 (by simpa using h64)).symm)

theorem multiplyHighDoubleword_settles {sign : Sign} (ht : Owed P s t t' P.gprTy)
    (ha : Paired P s a a' P.gprTy) (hb : Paired P s b b' P.gprTy) :
    Settles P s pending t t' (multiplyHighDoubleword w sign a b t)
      (multiplyHighDoubleword w sign a' b' t') := by
  unfold multiplyHighDoubleword
  refine .guard needMode64_guards fun h64 => .guard invalidIf_guards fun _ => ?_
  exact .give listed_gives (assign_kept ht
    (.gpr h64 (.un rfl (.bin rfl (ha.long h64) (hb.long h64)))))

/-- The end of the forms that write a register and compare it where asked. -/
theorem putRecorded_emits {r : Nat} {record : Bool} {e e' : Expr} (hr : r < 32)
    (he : Paired P s e e' P.gprTy) :
    Emits P s pending (do putGpr r e; if record then recordResult e)
      (do putGpr r e'; if record then recordResult e') := by
  refine .seq (putGpr_emits hr he) fun _ _ => ?_
  exact .ite (fun _ => (recordResult_emits he.up).last) fun _ => .done trivial

end

theorem registerResult_settles (ht : Owed P s t t' P.gprTy) (ha : Paired P s a a' P.gprTy)
    (hb : Paired P s b b' P.gprTy) :
    Settles P s pending t t' (registerResult w a b t) (registerResult w a' b' t') := by
  unfold registerResult
  dsimp only
  split
  case h_1 =>
    refine .give listed_gives (.give wordOp_gives ?_)
    refine .bind (assign_kept ht (.bin rfl ha hb)) fun _ _ _ _ hres => ?_
    exact .ite (fun _ => .lastEmit (setOverflow_emits trivial hres ha.up hb.up)
      fun _ _ => hres.up) fun _ => .done hres
  case h_2 =>
    refine .give listed_gives (.give wordOp_gives ?_)
    refine .bind (assign_kept ht (.bin rfl ha hb)) fun _ _ _ _ hres => .give imm_gives ?_
    refine .seq (setCarry_emits trivial hres ha.up hb.up .imm) fun _ _ => ?_
    exact .ite (fun _ => .lastEmit (setOverflow_emits trivial hres.up ha.up hb.up)
      fun _ _ => hres.up) fun _ => .done hres.up
  case h_3 | h_4 | h_5 | h_8 | h_9 | h_10 => exact extendedSum_settles ht ha hb
  case h_6 =>
    refine .give listed_gives (.give wordOp_gives ?_)
    refine .bind (assign_kept ht (.bin rfl hb ha)) fun _ _ _ _ hres => ?_
    exact .ite (fun _ => .lastEmit (setOverflow_emits trivial hres ha.up hb.up)
      fun _ _ => hres.up) fun _ => .done hres
  case h_7 =>
    refine .give listed_gives (.give wordOp_gives ?_)
    refine .bind (assign_kept ht (.bin rfl hb ha)) fun _ _ _ _ hres => .give imm_gives ?_
    refine .seq (setCarry_emits trivial hres ha.up hb.up .imm) fun _ _ => ?_
    exact .ite (fun _ => .lastEmit (setOverflow_emits trivial hres.up ha.up hb.up)
      fun _ _ => hres.up) fun _ => .done hres.up
  case h_11 =>
    refine .guard reservedZero_guards fun _ => .give listed_gives (.give wordOp_gives ?_)
    refine .give imm_gives (.bind (assign_kept ht (.bin rfl .imm ha)) fun _ _ _ _ hres => ?_)
    exact .ite (fun _ => .lastEmit (setOverflow_emits trivial hres ha.up hb.up)
      fun _ _ => hres.up) fun _ => .done hres
  case h_12 => exact multiplyLowWord_settles ht ha hb
  case h_13 | h_14 => exact multiplyHighWord_settles ht ha hb
  case h_15 =>
    refine .guard needMode64_guards fun h64 => .give listed_gives ?_
    refine .bind (assign_kept ht (.gpr h64 (.bin rfl (ha.long h64) (hb.long h64))))
      fun _ _ _ _ hres => ?_
    exact .ite (fun _ => .lastEmit (setOverflow_emits rfl (hres.long h64) (ha.up.long h64)
      (hb.up.long h64)) fun _ _ => hres.up) fun _ => .done hres
  case h_16 | h_17 => exact multiplyHighDoubleword_settles ht ha hb
  case h_18 | h_19 | h_20 | h_21 => exact divideWord_settles ht ha hb
  case h_22 | h_23 | h_24 | h_25 => exact divideDoubleword_settles ht ha hb
  case h_26 => exact refuse_runs

theorem registers_emits : Emits P s pending (registers w) (registers w) := by
  unfold registers
  refine hold_runs (getGpr_reads w.ra_lt) fun a a' _ _ ha => ?_
  refine hold_runs (getGpr_reads w.rb_lt) fun b b' s₀ _ hb => ?_
  refine .give wordTy_gives (.bind newTemp_kept ?_)
  rintro _ t' s₁ _ ⟨rfl, ht⟩
  refine .bind (registerResult_settles ht ha.up hb.up) fun _ _ _ _ hres => ?_
  exact (putRecorded_emits w.rd_lt hres).last

theorem lift_ends : Ends P s (lift w) (lift w) := by
  unfold lift
  split
  case h_1 => exact Emits.ends multiplyAdd_emits
  case h_2 | h_3 | h_4 | h_5 | h_6 | h_7 => exact Emits.ends immediate_emits
  case h_8 => exact Emits.ends addNextShifted_emits
  case h_9 => exact .ite (fun _ => Emits.ends modulo_emits) fun _ => Emits.ends registers_emits
  case h_10 => exact refuse_runs

end Arithmetic

namespace Comparison

theorem compare_emits : Emits P s pending (compare w) (compare w) := by
  unfold compare
  refine .guard reservedZero_guards fun _ => .give mode64_gives ?_
  refine .guard invalidIf_guards fun hlong => .read (getGpr_reads w.ra_lt) fun a a' ha => ?_
  extract_lets width record finish signed name finish'
  have hfinish : ∀ sign b b', Paired P s b b' P.gprTy →
      Emits P s pending (finish (sign, b)) (finish' (sign, b')) := by
    intro sign b b' hb
    refine .ite (fun hbit => .ret ?_) fun _ => .give low32_gives (.give low32_gives (.ret ?_))
    -- The long form was refused in 32-bit mode.
    · have h64 : P.env.arch.is64 = true := by simpa [hbit] using hlong
      refine .bind (bind_bounded 0xE (.bin rfl (ha.long h64) (hb.long h64)) .order) fun _ _ _ _ h => ?_
      exact (setCrFromOrder_emits (w := .w64) w.crfd_lt h.1 h.2).last
    · refine .bind (bind_bounded 0xE (.bin rfl ha.low32 hb.low32) .order) fun _ _ _ _ h => ?_
      exact (setCrFromOrder_emits (w := .w32) w.crfd_lt h.1 h.2).last
  split
  · exact .give listed_gives (.give imm_gives (.ret (hfinish _ _ _ .imm)))
  · exact .give listed_gives (.give imm_gives (.ret (hfinish _ _ _ .imm)))
  · refine .guard reservedClear_guards fun _ => .give listed_gives ?_
    exact .read (getGpr_reads w.rb_lt) fun _ _ hb => .ret (hfinish _ _ _ hb)

theorem compareBytes_emits : Emits P s pending (compareBytes w) (compareBytes w) := by
  unfold compareBytes
  refine .guard reservedClear_guards fun _ => .give listed_gives (.give read_gives ?_)
  refine hold_runs (getGpr_reads w.rd_lt) fun _ _ _ _ hs => ?_
  refine hold_runs (getGpr_reads w.rb_lt) fun _ _ _ _ hb => ?_
  have hbyte : ∀ {c : Cast} {s₁ : Stage} {e e' : Expr} (i : Nat),
      (Op.cast c).signature = .unary .i8 P.gprTy → Paired P s₁ e e' P.gprTy →
      Paired P s₁ (.un (.cast c) (.bin (.shr P.env.arch.word.width) e (.u8 (.ofNat 8 (8 * i)))))
        (.un (.cast c) (.bin (.shr P.env.arch.word.width) e' (.u8 (.ofNat 8 (8 * i))))) .i8 :=
    fun i hc he => .un hc (.bin rfl he .u8)
  refine (putGpr_emits w.ra_lt (.foldl .imm fun i _ _ _ hacc => .bin rfl hacc ?_)).last
  refine .ite (.bin rfl (hbyte i ?_ hs.up) (hbyte i ?_ hb)) .imm .imm
  all_goals
    rw [Placement.gprTy, Env.gprTy, Placement.alone_arch]
    cases P.env.arch.word <;> rfl

theorem setFromField_emits : Emits P s pending (setFromField w) (setFromField w) := by
  unfold setFromField
  have hf : w.slice 11 3 < 8 := w.bits_lt _ 3
  refine .guard reservedZero_guards fun _ => .guard reservedClear_guards fun _ => ?_
  refine .give listed_gives (.read (getCrBit_reads (by omega)) fun _ _ hless => ?_)
  refine .read (getCrBit_reads (by omega)) fun _ _ hgreater => ?_
  refine .give imm_gives (.give imm_gives (.give imm_gives ?_))
  exact putGpr_emits w.rd_lt
    (.ite (.bin rfl hless .u32) .imm (.ite (.bin rfl hgreater .u32) .imm .imm))

theorem lift_ends : Ends P s (lift w) (lift w) := by
  unfold lift
  split
  case h_1 | h_2 | h_3 | h_4 => exact Emits.ends compare_emits
  case h_5 => exact Emits.ends compareBytes_emits
  case h_6 => exact Emits.ends setFromField_emits
  case h_7 => exact refuse_runs

end Comparison

namespace Logic

variable {e e' : Expr}

theorem finish_emits (he : Paired P s e e' P.gprTy) :
    Emits P s pending (finish w e) (finish w e') := by
  unfold finish
  refine .bind (bind_computes he) fun _ _ _ _ hres => ?_
  exact (Arithmetic.putRecorded_emits w.ra_lt hres).last

theorem immediate_emits : Emits P s pending (immediate w) (immediate w) := by
  unfold immediate
  extract_lets u
  split
  next op value name record hform =>
    have hop : ∀ v : Width, (op.atWidth v).signature = .same v.ty := by
      intro v
      split at hform <;> obtain ⟨rfl, -⟩ := Prod.mk.inj hform <;> rfl
    refine .ite (fun _ => .lastRead listed_gives fun _ _ _ => trivial) fun _ => ?_
    refine .give listed_gives (.give wordOp_gives (.read (getGpr_reads w.rd_lt) fun _ _ h => ?_))
    refine .give imm_gives (.bind (bind_computes (.bin (hop _) h .imm)) fun _ _ _ _ hres => ?_)
    exact (Arithmetic.putRecorded_emits w.ra_lt hres).last

theorem popCountBytes_computes (he : Paired P s e e' P.gprTy) :
    Computes P s pending (popCountBytes e) (popCountBytes e') P.gprTy := by
  unfold popCountBytes
  refine .give read_gives (.bind (bind_computes (.bin rfl he (.bin rfl (.bin rfl he .u8) .imm)))
    fun _ _ _ _ hpairs => ?_)
  refine .bind (bind_computes (.bin rfl (.bin rfl hpairs .imm)
    (.bin rfl (.bin rfl hpairs .u8) .imm))) fun _ _ _ _ hnibbles => ?_
  exact .done (.bin rfl (.bin rfl hnibbles (.bin rfl hnibbles .u8)) .imm)

theorem parity_computes {perWord : Bool} (he : Paired P s e e' P.gprTy) :
    Computes P s pending (parity e perWord) (parity e' perWord) P.gprTy := by
  unfold parity
  refine .give read_gives (.bind (bind_computes (.bin rfl he .imm)) fun _ _ s₁ _ ht => ?_)
  have hfold : ∀ {s₂ : Stage} {t t' : Expr} {n : BitVec 8}, Paired P s₂ t t' P.gprTy →
      Computes P s₂ pending
        (Lift.bind
          (.bin (.xor P.env.arch.word.width) t (.bin (.shr P.env.arch.word.width) t (.u8 n))))
        (Lift.bind
          (.bin (.xor P.env.arch.word.width) t' (.bin (.shr P.env.arch.word.width) t' (.u8 n))))
        P.gprTy :=
    fun ht => bind_computes (.bin rfl ht (.bin rfl ht .u8))
  extract_lets finish finish'
  have hfinish : ∀ {s₂ : Stage} [Before s s₂] {t t' : Expr}, Paired P s₂ t t' P.gprTy →
      Runs P s₂ pending (finish t) (finish' t')
        (Kept P s pending fun a a' s₃ => Paired P s₃ a a' P.gprTy) := by
    intro s₂ _ t t' ht
    refine .bind (hfold ht) fun _ _ _ _ ht => .bind (hfold ht) fun _ _ _ _ ht => ?_
    exact .done (.bin rfl ht .imm)
  refine .ite (fun _ => .bind (hfold ht) fun _ _ _ _ ht => hfinish ht) fun _ => ?_
  exact .ret (hfinish ht)

theorem permuteBits_computes {b b' : Expr} (he : Paired P s e e' .i64)
    (hb : Paired P s b b' .i64) :
    Computes P s pending (permuteBits e b) (permuteBits e' b') .i64 := by
  refine foldlM_computes .u64 fun i _ s₁ _ _ _ hacc => ?_
  refine .bind (bind_computes (.bin rfl (.bin rfl he.up .u8) .u64)) fun _ _ _ _ hindex => ?_
  refine .done (.bin rfl hacc.up (.bin rfl (.ite (.bin rfl hindex .u64) ?_ .u64) .u8))
  exact .bin rfl (.bin rfl hb.up (.un rfl (.bin rfl .u64 hindex))) .u64

theorem bitwise_paired {v : Width} {xo : Nat} {b b' : Expr} (he : Paired P s e e' v.ty)
    (hb : Paired P s b b' v.ty) :
    Paired P s (bitwise v xo e b).2 (bitwise v xo e' b').2 v.ty := by
  unfold bitwise
  split
  case h_1 | h_3 | h_5 => exact .bin rfl he hb
  case h_2 | h_4 => exact .bin rfl he (.un rfl hb)
  case h_6 | h_7 | h_8 => exact .un rfl (.bin rfl he hb)

theorem twoRegisters_ends (he : Paired P s e e' P.gprTy) :
    Ends P s (twoRegisters w e) (twoRegisters w e') := by
  unfold twoRegisters
  refine .read (getGpr_reads w.rb_lt) fun _ _ hb => ?_
  refine .ite (fun _ => .give listed_gives (stopAtNext_ends (by decide))) fun _ => ?_
  refine .ite (fun _ => .give listed_gives (Emits.ends (finish_emits he))) fun _ => ?_
  exact .give word_gives (.give listed_gives (Emits.ends (finish_emits (bitwise_paired he hb))))

theorem extend_emits (he : Paired P s e e' P.gprTy) :
    Emits P s pending (extend w e) (extend w e') := by
  unfold extend
  refine .guard reservedZero_guards fun _ => ?_
  extract_lets finish finish'
  have hfinish : ∀ ty letter, Narrows P ty → Widens P ty →
      Emits P s pending (finish (ty, letter)) (finish' (ty, letter)) := by
    intro ty letter hnarrow hwiden
    refine .give listed_gives (.read (narrow_reads he hnarrow) fun _ _ h => ?_)
    exact .read (widen_reads h hwiden) fun _ _ h => finish_emits h
  split
  · exact .ret (hfinish _ _ .i8 .i8)
  · exact .ret (hfinish _ _ .i16 .i16)
  · exact .guard needMode64_guards fun _ => .ret (hfinish _ _ .i32 .i32)

theorem countZeros_paired {v : Word} {leading : Bool} (he : Paired P s e e' v.ty) :
    Paired P s (countZeros v leading e) (countZeros v leading e') v.ty := by
  refine .ite (.bin rfl he FlagRule.lit_paired) FlagRule.lit_paired ?_
  cases leading <;> exact .un rfl he

theorem registers_ends : Ends P s (registers w) (registers w) := by
  unfold registers
  refine hold_runs (getGpr_reads w.rd_lt) fun a a' s₁ _ ha => ?_
  extract_lets countLetter
  split
  case h_1 | h_2 | h_3 | h_4 | h_5 | h_6 | h_7 | h_8 => exact twoRegisters_ends ha
  case h_9 | h_10 | h_11 => exact Emits.ends (extend_emits ha)
  case h_12 | h_13 =>
    refine .guard reservedZero_guards fun _ => .give listed_gives (.give low32_gives ?_)
    refine .bind (bind_computes ha.low32) fun _ _ _ _ hlow => ?_
    refine .read (widen_reads (countZeros_paired (v := .w32) hlow) .i32) fun _ _ h => ?_
    exact Emits.ends (finish_emits h)
  case h_14 | h_15 =>
    refine .guard needMode64_guards fun h64 => .guard reservedZero_guards fun _ => ?_
    refine .give listed_gives (Emits.ends (finish_emits (.gpr h64 ?_)))
    exact countZeros_paired (v := .w64) (ha.long h64)
  case h_16 =>
    refine .guard reservedZero_guards fun _ => .guard reservedClear_guards fun _ => ?_
    refine .give listed_gives (.bind (popCountBytes_computes ha) fun _ _ _ _ h => ?_)
    exact Emits.ends (finish_emits h)
  case h_17 =>
    refine .guard reservedZero_guards fun _ => .guard reservedClear_guards fun _ => ?_
    refine .give listed_gives (.give mode64_gives (.ite (fun h64 => ?_) fun h64 => ?_))
    · have ha := ha.long h64
      exact Emits.ends (finish_emits (.gpr h64
        (.bin rfl (.un rfl (.un rfl ha)) (.un rfl (.un rfl ha)))))
    · have h32 := Placement.gprTy_eq32 (by simpa using h64)
      exact Emits.ends (finish_emits (.cast h32.symm (.un rfl (ha.cast h32))))
  case h_18 =>
    refine .guard needMode64_guards fun h64 => .guard reservedZero_guards fun _ => ?_
    refine .guard reservedClear_guards fun _ => .give listed_gives ?_
    exact Emits.ends (finish_emits (.gpr h64 (.un rfl (ha.long h64))))
  case h_19 =>
    refine .guard reservedZero_guards fun _ => .guard reservedClear_guards fun _ => ?_
    refine .give listed_gives (.bind (parity_computes ha) fun _ _ _ _ h => ?_)
    exact Emits.ends (finish_emits h)
  case h_20 =>
    refine .guard reservedZero_guards fun _ => .guard reservedClear_guards fun _ => ?_
    refine .guard needMode64_guards fun _ => .give listed_gives ?_
    exact .bind (parity_computes ha) fun _ _ _ _ h => Emits.ends (finish_emits h)
  case h_21 =>
    refine .guard needMode64_guards fun h64 => .guard reservedClear_guards fun _ => ?_
    refine .give listed_gives (.read (getGpr_reads w.rb_lt) fun _ _ h => ?_)
    refine .bind (bind_computes (h.long h64)) fun _ _ _ _ hb => ?_
    refine .bind (permuteBits_computes (ha.up.long h64) hb) fun _ _ _ _ h => ?_
    exact Emits.ends (finish_emits (h.gpr h64))
  case h_22 => exact refuse_runs

theorem select_emits : Emits P s pending (select w) (select w) := by
  unfold select
  refine .guard reservedClear_guards fun _ => .give listed_gives ?_
  refine .read (getCrBit_reads w.rcField_lt) fun _ _ hbit => ?_
  refine .read (eaOr0_reads w.ra_lt) fun _ _ ha => .read (getGpr_reads w.rb_lt) fun _ _ hb => ?_
  exact Arithmetic.putBound_emits w.rd_lt (.ite (.bin rfl hbit .u32) ha hb)

theorem lift_ends : Ends P s (lift w) (lift w) := by
  unfold lift
  refine .ite (fun _ => Emits.ends immediate_emits) fun _ => .ite (fun _ => ?_) fun _ => refuse_runs
  exact .ite (fun _ => Emits.ends select_emits) fun _ => registers_ends

end Logic

namespace Rotate

open Logic (finish_emits)

variable {e e' : Expr}

theorem rotateBy_paired {v : Word} {n : Nat} (he : Paired P s e e' v.ty) :
    Paired P s (rotateBy v e n) (rotateBy v e' n) v.ty := by
  unfold rotateBy
  split
  · exact he
  · exact .bin rfl (.bin rfl he .u8) (.bin rfl he .u8)

theorem rotate_paired {v : Word} {amount amount' : Expr} (he : Paired P s e e' v.ty)
    (hamount : Paired P s amount amount' .i8) :
    Paired P s (rotate v e amount) (rotate v e' amount') v.ty :=
  .ite (.bin rfl hamount .u8)
    (.bin rfl (.bin rfl he hamount) (.bin rfl he (.bin rfl .u8 hamount))) he

theorem mask64_eq {mb me : Nat} (hmb : mb < 64) (hme : me < 64) :
    Bits.mask64 mb me = .ok (Bits.ringMask 64 mb me) :=
  if_pos ⟨hmb, hme⟩

theorem rotateWord_emits : Emits P s pending (rotateWord w) (rotateWord w) := by
  unfold rotateWord
  refine .read (getGpr_reads w.rd_lt) fun _ _ h => .give low32_gives ?_
  have hs := h.low32
  have hmb : w.mb5 < 32 := w.bits_lt 6 5
  have hme : w.me5 < 32 := w.bits_lt 1 5
  have hmask : Bits.mask32 w.mb5 w.me5 = .ok (Bits.ringMask 32 w.mb5 w.me5) := if_pos ⟨hmb, hme⟩
  have hwide : Bits.mask32In64 w.mb5 w.me5 = .ok (Bits.ringMask 64 (w.mb5 + 32) (w.me5 + 32)) := by
    unfold Bits.mask32In64
    rw [if_neg (by rw [UInt32.size]; omega), mask64_eq (by omega) (by omega)]
  extract_lets masked rotated rotated'
  have hmasked : ∀ {s₁ : Stage} [Before s s₁] {rot rot' : Expr} {mask : BitVec 64},
      Paired P s₁ rot rot' P.gprTy →
      Emits P s₁ pending (masked (rot, mask)) (masked (rot', mask)) := by
    intro s₁ _ rot rot' mask hrot
    refine .give wordOp_gives (.give imm_gives (.ite (fun _ => ?_) fun _ => ?_))
    · refine .give wordOp_gives (.read (getGpr_reads w.ra_lt) fun _ _ hold => ?_)
      refine .give imm_gives (.give wordOp_gives (finish_emits ?_))
      exact .bin rfl (.bin rfl hrot .imm) (.bin rfl hold .imm)
    · exact finish_emits (.bin rfl hrot .imm)
  have hrotated : ∀ {amount amount' : Expr}, Paired P s amount amount' .i8 →
      Emits P s pending (rotated amount) (rotated' amount') := by
    intro amount amount' hamount
    refine .bind (bind_computes hamount) fun _ _ _ _ hamount => ?_
    refine .bind (bind_computes (rotate_paired (v := .w32) hs.up hamount)) fun _ _ _ _ hrot => ?_
    refine .give mode64_gives (.ite (fun h64 => ?_) fun h64 => ?_)
    · refine .bind (bind_computes (.un rfl hrot)) fun _ _ _ _ hr => ?_
      refine .give (ofExcept_gives hwide hwide) (.ret (hmasked (.gpr h64 ?_)).last)
      exact .bin rfl hr (.bin rfl hr .u8)
    · refine .give (ofExcept_gives hmask hmask) (.ret (hmasked ?_).last)
      exact .cast (Placement.gprTy_eq32 (by simpa using h64)).symm hrot
  split
  · refine .give listed_gives (.read (getGpr_reads w.rb_lt) fun _ _ hb => .give low32_gives ?_)
    exact .ret (hrotated (.un rfl (.bin rfl hb.low32 .u32)))
  · exact .give listed_gives (.ret (hrotated .u8))

/-- Rotated values under one mask. -/
structure MaskedRotate.Paired (P : Placement) (s : Stage) (r r' : MaskedRotate) : Prop where
  value : PowerLift.Paired P s r.value r'.value .i64
  mask_eq : r'.mask = r.mask
  insert_eq : r'.insert = r.insert

theorem rotateFixed_gives (he : Paired P s e e' .i64) :
    Runs P s pending (rotateFixed w e) (rotateFixed w e')
      (Still P s (MaskedRotate.Paired P s)) := by
  unfold rotateFixed
  have hmb := w.mb6_lt
  have hsh := w.sh6_lt
  have hrot : PowerLift.Paired P s (rotateBy .w64 e w.sh6) (rotateBy .w64 e' w.sh6) .i64 :=
    rotateBy_paired (v := .w64) he
  dsimp only
  split
  · exact .give listed_gives (.give (ofExcept_gives (mask64_eq hmb (by omega))
      (mask64_eq hmb (by omega))) (.pure ⟨hrot, rfl, rfl⟩))
  · exact .give listed_gives (.give (ofExcept_gives (mask64_eq (by omega) hmb)
      (mask64_eq (by omega) hmb)) (.pure ⟨hrot, rfl, rfl⟩))
  · exact .give listed_gives (.give (ofExcept_gives (mask64_eq hmb (by omega))
      (mask64_eq hmb (by omega))) (.pure ⟨hrot, rfl, rfl⟩))
  · exact .give listed_gives (.give (ofExcept_gives (mask64_eq hmb (by omega))
      (mask64_eq hmb (by omega))) (.pure ⟨hrot, rfl, rfl⟩))

theorem rotateByRegister_kept (h64 : P.env.arch.is64 = true) (he : Paired P s e e' .i64) :
    Runs P s pending (rotateByRegister w e) (rotateByRegister w e')
      (Kept P s pending fun r r' s₁ => MaskedRotate.Paired P s₁ r r') := by
  unfold rotateByRegister
  have hmb := w.mb6_lt
  refine .read (getGpr_reads w.rb_lt) fun _ _ hb => ?_
  refine .bind (bind_computes (.un rfl (.bin rfl (hb.long h64) .u64))) fun _ _ s₁ _ hamount => ?_
  have he : PowerLift.Paired P s₁ e e' .i64 := he.up
  have hrot := rotate_paired (v := .w64) he hamount
  dsimp only
  split
  · exact .give listed_gives (.give (ofExcept_gives (mask64_eq hmb (by omega))
      (mask64_eq hmb (by omega))) (.done ⟨hrot, rfl, rfl⟩))
  · exact .give listed_gives (.give (ofExcept_gives (mask64_eq (by omega) hmb)
      (mask64_eq (by omega) hmb)) (.done ⟨hrot, rfl, rfl⟩))
  · exact refuse_runs

theorem rotateDoubleword_emits : Emits P s pending (rotateDoubleword w) (rotateDoubleword w) := by
  unfold rotateDoubleword
  refine .guard needMode64_guards fun h64 => .read (getGpr_reads w.rd_lt) fun _ _ hs => ?_
  extract_lets finish
  have hfinish : ∀ {s₁ : Stage} {r r' : MaskedRotate}, MaskedRotate.Paired P s₁ r r' →
      Emits P s₁ pending (finish r) (finish r') := by
    rintro s₁ ⟨value, mask, insert⟩ ⟨value', _, _⟩ ⟨hvalue, rfl, rfl⟩
    refine .bind (bind_computes hvalue) fun _ _ _ _ hrot => .ite (fun _ => ?_) fun _ => ?_
    · refine .read (getGpr_reads w.ra_lt) fun _ _ hold => (finish_emits (.gpr h64 ?_)).last
      exact .bin rfl (.bin rfl hrot .u64) (.bin rfl (hold.long h64) .u64)
    · exact (finish_emits (.gpr h64 (.bin rfl hrot .u64))).last
  refine .ite (fun _ => ?_) fun _ => ?_
  · exact .read (rotateFixed_gives (hs.long h64)) fun _ _ h => hfinish h
  · exact .bind (rotateByRegister_kept h64 (hs.long h64)) fun _ _ _ _ h => (hfinish h).last

theorem shiftFixed_emits (he : Paired P s e e' P.gprTy) :
    Emits P s pending (shiftFixed w e) (shiftFixed w e') := by
  unfold shiftFixed
  refine .guard needMode64_guards fun h64 => ?_
  have hs := he.long h64
  refine .ite (fun _ => ?_) fun _ => ?_
  · refine .give listed_gives (.bind (bind_computes (.bin rfl hs .u8)) fun _ _ _ _ hres => ?_)
    refine .seq (setCarry_emits (w := .w64) trivial hres hs.up .u64 .u64) fun _ _ => .ret ?_
    exact (Arithmetic.putRecorded_emits w.ra_lt (hres.up.gpr h64)).last
  · refine .give listed_gives ?_
    refine .bind (bind_computes (.bin rfl (.un rfl (.un rfl hs)) .u8)) fun _ _ _ _ hres => ?_
    exact (Arithmetic.putRecorded_emits w.ra_lt (hres.gpr h64)).last

theorem clamped_paired {v : Word} (he : Paired P s e e' v.ty) :
    Paired P s (clamped v e) (clamped v e') .i8 := by
  refine .ite (.bin rfl FlagRule.lit_paired he) .u8 ?_
  cases v <;> exact .un rfl he

theorem shift_emits : Emits P s pending (shift w) (shift w) := by
  unfold shift
  refine hold_runs (getGpr_reads w.rd_lt) fun _ _ _ _ hs => ?_
  refine .ite (fun _ => (shiftFixed_emits hs).last) fun _ => ?_
  dsimp only
  split
  case h_1 | h_2 =>
    refine .give listed_gives (.give low32_gives (.read (getGpr_reads w.rb_lt) fun _ _ hb => ?_))
    refine .give low32_gives (.bind (bind_computes (.bin rfl hb.low32 .u32)) fun _ _ _ _ hn => ?_)
    refine .read (widen_reads (.ite (.bin rfl hn .u32) (.bin ?_ hs.low32.up (.un rfl hn)) .u32)
      .i32) fun _ _ hres => (finish_emits hres).last
    split <;> rfl
  case h_3 =>
    refine .give listed_gives (.give low32_gives (.bind (bind_computes hs.low32)
      fun _ _ _ _ hs => ?_))
    refine .read (getGpr_reads w.rb_lt) fun _ _ hb => .give low32_gives ?_
    refine .bind (bind_computes (.bin rfl hb.low32 .u32)) fun _ _ _ _ hn => ?_
    refine .bind (bind_computes (.bin rfl hs.up (clamped_paired (v := .w32) hn)))
      fun _ _ _ _ hres => ?_
    refine .seq (setCarry_emits (w := .w32) trivial hres hs.up hn.up .u32) fun _ _ => ?_
    exact .read (widen_reads hres.up .i32) fun _ _ hres => (finish_emits hres).last
  case h_4 =>
    refine .give listed_gives (.give low32_gives (.bind (bind_computes hs.low32)
      fun _ _ _ _ hs => ?_))
    refine .bind (bind_computes (.bin rfl hs .u8)) fun _ _ _ _ hres => ?_
    refine .seq (setCarry_emits (w := .w32) trivial hres hs.up .u32 .u32) fun _ _ => ?_
    exact .read (widen_reads hres.up .i32) fun _ _ hres => (finish_emits hres).last
  case h_5 | h_6 =>
    refine .guard needMode64_guards fun h64 => .give listed_gives ?_
    refine .read (getGpr_reads w.rb_lt) fun _ _ hb => ?_
    refine .bind (bind_computes (.bin rfl (hb.long h64) .u64)) fun _ _ _ _ hn => ?_
    refine (finish_emits (.gpr h64 (.ite (.bin rfl hn .u64)
      (.bin ?_ (hs.up.long h64) (.un rfl hn)) .u64))).last
    split <;> rfl
  case h_7 =>
    refine .guard needMode64_guards fun h64 => .give listed_gives ?_
    refine .read (getGpr_reads w.rb_lt) fun _ _ hb => ?_
    refine .bind (bind_computes (.bin rfl (hb.long h64) .u64)) fun _ _ _ _ hn => ?_
    refine .bind (bind_computes (.bin rfl (hs.up.long h64) (clamped_paired (v := .w64) hn)))
      fun _ _ _ _ hres => ?_
    refine .seq (setCarry_emits (w := .w64) trivial hres (hs.up.long h64) hn.up .u64)
      fun _ _ => ?_
    exact (finish_emits (hres.up.gpr h64)).last
  case h_8 => exact refuse_runs

theorem lift_ends : Ends P s (lift w) (lift w) := by
  unfold lift
  split
  case h_1 | h_2 | h_3 => exact Emits.ends rotateWord_emits
  case h_4 => exact Emits.ends rotateDoubleword_emits
  case h_5 => exact Emits.ends shift_emits
  case h_6 => exact refuse_runs

end Rotate

end PowerLift
