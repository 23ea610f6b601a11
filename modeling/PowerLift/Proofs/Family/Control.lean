import PowerLift.Family.Branch
import PowerLift.Family.ConditionRegister
import PowerLift.Family.System
import PowerLift.Family.Transaction
import PowerLift.Family.Trap
import PowerLift.Proofs.Flags

/-!
# Branches, traps and system instructions

Branches are where the two liftings may part: one behind a block may follow a branch that a lifting
alone takes by leaving.
-/

namespace PowerLift

open Lift
open Stage (Next Before)

variable {P : Placement} {s : Stage} {pending : List Nat} {w : Insn}

@[simp] theorem Env.cutAddress_cutAddress (env : Env) (a : BitVec 64) :
    env.cutAddress (env.cutAddress a) = env.cutAddress a := by
  unfold cutAddress
  split
  · rfl
  · rw [BitVec.and_assoc, BitVec.and_self]

namespace Branch

variable {o : BranchOptions}

theorem countDown_emits : Emits P s pending (countDown o) (countDown o) := by
  unfold countDown
  refine .ite (fun _ => .give wordOp_gives ?_) fun _ => .done trivial
  refine .read (getSpecial_reads (by decide) P.env.arch.wordTy_eq) fun _ _ h => .give imm_gives ?_
  exact putSpecial_emits (by decide) P.env.arch.wordTy_eq (.bin rfl h .imm)

theorem countAllows_reads : Reads P s pending (countAllows o) (countAllows o) .i1 := by
  unfold countAllows
  refine .give wordOp_gives ?_
  refine .read (getSpecial_reads (by decide) P.env.arch.wordTy_eq) fun _ _ h => .give imm_gives ?_
  cases o.onZero <;> exact .pure (.bin rfl h .imm)

theorem bitAllows_reads {bi : Nat} (hbi : bi < 32) :
    Reads P s pending (bitAllows o bi) (bitAllows o bi) .i1 :=
  .read (getCrBit_reads hbi) fun _ _ h => .pure (.bin rfl h .u32)

theorem taken_computes {bi : Nat} (hbi : bi < 32) :
    Computes P s pending (taken o bi) (taken o bi) .i1 := by
  unfold taken
  split
  · exact bind_computes .u1
  · exact .read countAllows_reads fun _ _ h => bind_computes h
  · exact .read (bitAllows_reads hbi) fun _ _ h => bind_computes h
  · refine .read countAllows_reads fun _ _ hcount => .read (bitAllows_reads hbi) fun _ _ hbit => ?_
    exact bind_computes (.bin rfl hcount hbit)

theorem link_emits : Emits P s pending link link := by
  unfold link
  refine .give read_gives (.give imm_gives ?_)
  exact putSpecial_emits (by decide) P.env.arch.wordTy_eq .imm

/-- Displacements are counted in words, so that branches lead from one aligned address to another. -/
theorem target_aligned {env : Env} {disp : BitVec 64} (hdisp : disp % 4 = 0)
    (hcia : env.cia % 4 = 0) : target env w disp % 4 = 0 := by
  unfold target
  refine Env.cutAddress_aligned ?_
  split
  · exact hdisp
  · exact add_aligned hcia hdisp

theorem long_aligned (n : Nat) : (BitVec.ofNat 26 (n * 4)).signExtend 64 % 4 = 0 := by
  refine signExtend_aligned rfl ?_
  rw [BitVec.toNat_ofNat]
  omega

theorem short_aligned (n : Nat) : (BitVec.ofNat 16 (n * 4)).signExtend 64 % 4 = 0 := by
  refine signExtend_aligned rfl ?_
  rw [BitVec.toNat_ofNat]
  omega

/-- A branch to a fixed target is followed or taken; a lifting alone takes it. -/
theorem followOrJump_ends {target : BitVec 64} {kind : JumpKind}
    (hcut : P.env.cutAddress target = target) (hkind : kind ≠ .noDecode)
    (hword : P.word.opcode = 18 ∧ target = P.destination) :
    Ends P s
      (if P.alone.mayResteer target then setNext (.resteer target)
        else jumpTo (P.env.imm target) kind)
      (if P.env.mayResteer target then setNext (.resteer target)
        else jumpTo (P.env.imm target) kind) := by
  -- Lifted alone, an instruction follows no branch.
  have halone : ¬ P.alone.mayResteer target = true := Bool.false_ne_true
  have haligned : P.env.cia % 4 = 0 → target % 4 = 0 := by
    rw [hword.2]
    exact target_aligned (long_aligned _)
  rw [if_neg halone]
  split
  next hmay =>
    intro hsound p p' hp
    obtain ⟨hleft, -⟩ := jumpTo_eq Paired.imm hsound hp
    rw [hleft, exec_setNext]
    exact .both (.followed s kind target hp.outer hsound hkind hcut hmay hword rfl hp.right rfl rfl
      haligned)
  next => exact jumpTo_ends .imm hkind (Placement.leads_imm haligned)

theorem immediate_ends (hword : P.word.opcode = 18) :
    Ends P s (immediate P.word) (immediate P.word) := by
  unfold immediate
  have hkind : callOrJump P.word ≠ .noDecode := by
    unfold callOrJump
    split <;> decide
  refine .give read_gives (.give listed_gives (.ite (fun _ => ?_) fun _ => ?_))
  · refine .seq link_emits fun _ _ => .when (fun _ => redzoneHint_emits .imm) fun _ _ => ?_
    exact followOrJump_ends (P.env.cutAddress_cutAddress _) hkind ⟨hword, rfl⟩
  · exact followOrJump_ends (P.env.cutAddress_cutAddress _) hkind ⟨hword, rfl⟩

theorem conditional_ends : Ends P s (conditional w) (conditional w) := by
  unfold conditional
  refine .give read_gives (.give listed_gives (.seq countDown_emits fun _ _ => ?_))
  refine .bind (taken_computes w.ra_lt) fun _ _ _ _ ht => .when (fun _ => link_emits) fun _ _ => ?_
  refine .seq (exit_emits ht.up ?_ ?_ (target_aligned (short_aligned _))) fun _ _ =>
    stopAtNext_ends (by decide)
  · unfold callOrJump
    split <;> decide
  · unfold callOrJump
    split <;> decide

theorem Via.slot_ne_cia (via : Via) : via.slot ≠ .cia := by cases via <;> decide

theorem Via.slot_ty (via : Via) : via.slot.ty P.env.arch = P.gprTy := by
  cases via <;> exact P.env.arch.wordTy_eq

theorem toRegister_ends {via : Via} : Ends P s (toRegister w via) (toRegister w via) := by
  unfold toRegister
  refine .guard reservedZero_guards fun _ => .give read_gives (.guard invalidIf_guards fun _ => ?_)
  extract_lets jump jump'
  have hjump : Ends P s (jump ()) (jump' ()) := by
    refine .give wordOp_gives (.read (getSpecial_reads via.slot_ne_cia via.slot_ty) fun _ _ h => ?_)
    refine .bind (bind_temp (.bin rfl h .imm)) fun target target' _ _ ⟨htarget, htemp⟩ => ?_
    refine .seq countDown_emits fun s₁ _ => ?_
    -- The count and the condition decide over an exit to the next instruction; what is left then is
    -- the jump itself.
    extract_lets go last leave go' last' leave'
    have hlast : ∀ {s₂ : Stage}, Paired P s₂ target target' P.gprTy →
        Ends P s₂ (last ()) (last' ()) := by
      intro s₂ htarget
      refine .when (fun _ => redzoneHint_emits htarget) fun _ _ =>
        jumpTo_ends htarget.up ?_ (Placement.leads_of_asConst? htemp)
      split
      · decide
      · split <;> decide
    have hleave : ∀ {s₂ : Stage} {test test' : Option Expr}, Paired P s₂ target target' P.gprTy →
        PairedOption P s₂ .i1 test test' → Ends P s₂ (leave test) (leave' test') := by
      intro s₂ test test' htarget htest
      refine .when (fun _ => link_emits) fun s₃ _ => ?_
      cases htest with
      | none => exact hlast htarget.up
      | some ht =>
          refine .seq (exit_emits (.un rfl ht.up) (by decide) (by decide) Env.nia_aligned)
            fun _ _ => ?_
          exact hlast htarget.up
    refine .ite (fun _ => .ret (hleave htarget.up .none)) fun _ => ?_
    refine .bind (Q := fun test test' s₂ => PairedOption P s₂ .i1 test test')
      ((taken_computes w.ra_lt).map fun _ _ _ h => .some h) fun _ _ _ _ ht => ?_
    exact hleave htarget.up ht
  exact .ite (fun _ => .give listed_gives hjump) fun _ => .give listed_gives hjump

theorem lift_ends : Ends P s (lift P.word) (lift P.word) := by
  unfold lift
  split
  next hword => exact immediate_ends hword
  · exact conditional_ends
  · split
    case h_1 | h_2 | h_3 => exact toRegister_ends
    case h_4 => exact refuse_runs
  · exact refuse_runs

end Branch

namespace Trap

variable {v : Word} {a a' b b' : Expr}

/-- One of the two parts of a trap condition, where the field asks for it. -/
theorem hit_paired {order order' : Expr} (mask : BitVec 64) (ho : Paired P s order order' v.ty) :
    ∃ n, PairedList P s
      (if mask = 0 then [] else
        [.bin (.cmpNE v.width) (.bin (.and v.width) order (FlagRule.lit v mask))
          (FlagRule.lit v 0)])
      (if mask = 0 then [] else
        [.bin (.cmpNE v.width) (.bin (.and v.width) order' (FlagRule.lit v mask))
          (FlagRule.lit v 0)]) (List.replicate n .i1) := by
  split
  · exact ⟨0, .nil⟩
  · exact ⟨1, .cons (.bin rfl (.bin rfl ho FlagRule.lit_paired) FlagRule.lit_paired) .nil⟩

/-- Several conditions of which one must hold. -/
theorem anyOf_paired {n : Nat} {es es' : List Expr} (ha : Paired P s a a' .i1)
    (hes : PairedList P s es es' (List.replicate n .i1)) :
    Paired P s (es.foldl (.bin .or1) a) (es'.foldl (.bin .or1) a') .i1 := by
  induction n generalizing es es' a a' with
  | zero =>
      obtain ⟨rfl, rfl⟩ := hes.eq_nil
      exact ha
  | succ n ih =>
      obtain ⟨e, e', fs, fs', rfl, rfl, he, hfs⟩ := hes.exists_cons
      rw [List.foldl_cons, List.foldl_cons]
      exact ih (.bin rfl ha he) hfs

/-- A trap leaves back to the instruction, before all effects. -/
theorem emit_kept {field : Nat} (hquiet : s.Quiet) (ha : Paired P s a a' v.ty)
    (hb : Paired P s b b' v.ty) :
    Runs P s pending (emit field v a b) (emit field v a' b')
      (Kept P s pending fun r r' _ => r = r') := by
  unfold emit
  refine .give read_gives (.ite (fun _ => ?_) fun _ => .ite (fun _ => .done rfl) fun _ => ?_)
  · refine .bind (exit_kept_lift .u1 (fun _ => ⟨rfl, hquiet⟩) id) fun _ _ _ _ _ => .done rfl
  · refine .bind (bind_kept ha) fun _ _ _ _ ⟨ha, hquiet₁, _⟩ => ?_
    refine .bind (bind_kept hb.up) fun _ _ _ _ ⟨hb, hquiet₂, _⟩ => ?_
    refine .bind (bind_kept (.bin rfl ha.up hb)) fun _ _ _ _ ⟨hsigned, hquiet₃, _⟩ => ?_
    refine .bind (bind_kept (.bin rfl ha.up hb.up)) fun _ _ s₁ _ ⟨hunsigned, hquiet₄, _⟩ => ?_
    -- Only temporaries have been bound so far, so the trap may still be taken.
    have hquiet : s₁.Quiet := hquiet₄ (hquiet₃ (hquiet₂ (hquiet₁ hquiet)))
    have hsigned : Paired P s₁ _ _ v.ty := hsigned.up
    obtain ⟨n, hsome⟩ :=
      hit_paired (orderMask field [(less, 8), (greater, 4), (equal, 2)]) hsigned
    obtain ⟨m, hmore⟩ :=
      hit_paired (orderMask field [(lessUnsigned, 8), (greaterUnsigned, 4)]) hunsigned
    have hhits := hsome.append hmore
    rw [List.replicate_append_replicate] at hhits
    dsimp only
    -- How many conditions there are is up to the field; without any, nothing is emitted.
    cases hcount : n + m with
    | zero =>
      rw [hcount] at hhits
      obtain ⟨hnil, hnil'⟩ := hhits.eq_nil
      rw [hnil, hnil']
      exact .done rfl
    | succ k =>
      rw [hcount] at hhits
      obtain ⟨e, e', es, es', heq, heq', he, hes⟩ := hhits.exists_cons
      rw [heq, heq']
      exact .bind (exit_kept_lift (anyOf_paired he hes) (fun _ => ⟨rfl, hquiet⟩) id)
        fun _ _ _ _ _ => .done rfl

theorem lift_ends (hquiet : s.Quiet) : Ends P s (lift w) (lift w) := by
  unfold lift
  extract_lets last form
  have hlast : ∀ {s₁ : Stage} (always : Bool), Ends P s₁ (last always) (last always) :=
    fun _ => .ite (fun _ => stopAtNext_ends (by decide)) fun _ => Emits.ends (.done trivial)
  have hform : ∀ double register,
      Ends P s (form (double, register)) (form (double, register)) := by
    intro double register
    refine .guardWhen (fun _ => reservedClear_guards) fun _ => ?_
    refine .guardWhen (fun _ => needMode64_guards) fun h64 => ?_
    extract_lets name trap
    have htrap : Ends P s (trap ()) (trap ()) := by
      refine .read (getGpr_reads w.ra_lt) fun a a' ha => ?_
      extract_lets test test'
      have htest : ∀ {b b' : Expr}, Paired P s b b' P.gprTy → Ends P s (test b) (test' b') := by
        intro b b' hb
        refine .ite (fun hd => ?_) fun _ => .give low32_gives (.give low32_gives ?_)
        · refine .bind (emit_kept (v := .w64) hquiet (ha.long (h64 hd)) (hb.long (h64 hd))) ?_
          rintro always _ s₁ _ rfl
          exact hlast always
        · refine .bind (emit_kept (v := .w32) hquiet ha.low32 hb.low32) ?_
          rintro always _ s₁ _ rfl
          exact hlast always
      refine .ite (fun _ => ?_) fun _ => .give imm_gives (htest .imm)
      exact .read (getGpr_reads w.rb_lt) fun _ _ hb => htest hb
    exact .ite (fun _ => .give listed_gives htrap) fun _ => .give listed_gives htrap
  split
  · exact .ret (hform _ _)
  · exact .ret (hform _ _)
  · exact .ret (hform _ _)
  · exact .ret (hform _ _)
  · exact refuse_bind

end Trap

namespace ConditionRegister

theorem bitOperation?_paired (xo : Nat) {a a' b b' : Expr} (ha : Paired P s a a' .i32)
    (hb : Paired P s b b' .i32) :
    (bitOperation? xo a b = none ∧ bitOperation? xo a' b' = none) ∨
    ∃ name e e', bitOperation? xo a b = some (name, e) ∧ bitOperation? xo a' b' = some (name, e') ∧
      Paired P s e e' .i32 ∧ xo ∈ [257, 129, 289, 225, 33, 449, 417, 193] := by
  unfold bitOperation?
  split
  case h_1 | h_6 | h_8 => exact .inr ⟨_, _, _, rfl, rfl, .bin rfl ha hb, by decide⟩
  case h_2 | h_7 => exact .inr ⟨_, _, _, rfl, rfl, .bin rfl ha (.un rfl hb), by decide⟩
  case h_3 | h_4 | h_5 => exact .inr ⟨_, _, _, rfl, rfl, .un rfl (.bin rfl ha hb), by decide⟩
  case h_9 => exact .inl ⟨rfl, rfl⟩

theorem bits_emits (hword : P.word.opcode = 19) :
    Emits P s pending (bits P.word) (bits P.word) := by
  unfold bits
  refine .guard reservedClear_guards fun _ => ?_
  refine hold_runs (getCrBit_reads P.word.ra_lt) fun _ _ _ _ ha => ?_
  refine hold_runs (getCrBit_reads P.word.rb_lt) fun _ _ s₁ _ hb => ?_
  have ha : Paired P s₁ _ _ .i32 := ha.up
  obtain ⟨hnone, hnone'⟩ | ⟨name, e, e', hsome, hsome', he, hxo⟩ :=
    bitOperation?_paired P.word.xo10 ha hb
  · rw [hnone, hnone']
    exact refuse_runs
  · rw [hsome, hsome']
    exact .give listed_gives (putCrBit_emits ⟨hword, hxo⟩ P.word.rd_lt he).last

theorem moveField_emits : Emits P s pending (moveField w) (moveField w) := by
  unfold moveField
  refine .guard reservedZero_guards fun _ => .guard reservedZero_guards fun _ => ?_
  refine .guard reservedClear_guards fun _ => .give listed_gives ?_
  exact .read (getCrField_reads w.crfs_lt) fun _ _ h => putCrField_emits w.crfd_lt h

theorem moveFromXer_emits (hw : P.word.Resets SpecialSlot.xerSo) :
    Emits P s pending (moveFromXer w) (moveFromXer w) := by
  unfold moveFromXer
  refine .guard reservedZero_guards fun _ => .guard reservedClear_guards fun _ => ?_
  refine .give listed_gives (.read getXer_reads fun _ _ h => ?_)
  refine .seq (putCrField_emits w.crfd_lt (.bin rfl h .u8)) fun _ _ => ?_
  refine .seq (putXerSo_emits .u8 fun h => absurd hw h) fun _ _ => ?_
  exact .seq (putXerOv_emits .u8) fun _ _ => (putXerCa_emits .u8).last

theorem read_emits : Emits P s pending (read w) (read w) := by
  unfold read
  refine .guard reservedClear_guards fun _ => .guard reservedZero_guards fun _ => ?_
  refine .read getCr_reads fun _ _ hcr => ?_
  extract_lets finish
  have hfinish : ∀ {e e' : Expr}, Paired P s e e' .i32 →
      Emits P s pending (finish e) (finish e') := by
    intro e e' he
    refine .bind (bind_computes he) fun _ _ _ _ h => .read (widen_reads h .i32) fun _ _ h => ?_
    exact (putGpr_emits w.rd_lt h).last
  refine .ite (fun _ => ?_) fun _ => .guard reservedZero_guards fun _ => ?_
  · split
    · exact .give listed_gives (.ret (hfinish (.bin rfl hcr .u32)))
    · exact refuse_bind
  · exact .give listed_gives (.ret (hfinish hcr))

theorem write_emits : Emits P s pending (write w) (write w) := by
  unfold write
  refine .guard reservedClear_guards fun _ => .guard reservedZero_guards fun _ => ?_
  extract_lets finish
  have hfinish : Emits P s pending (finish ()) (finish ()) :=
    .read (getGpr_reads w.rd_lt) fun _ _ h => .give low32_gives (putCrMasked_emits h.low32)
  refine .ite (fun _ => ?_) fun _ => .give listed_gives hfinish
  exact .guard invalidIf_guards fun _ => .give listed_gives hfinish

theorem lift_ends : Ends P s (lift P.word) (lift P.word) := by
  unfold lift
  split
  · exact Emits.ends moveField_emits
  next hword _ => exact Emits.ends (bits_emits hword)
  next hword hxo => exact Emits.ends (moveFromXer_emits ⟨hword, .inr hxo⟩)
  · exact Emits.ends read_emits
  · exact Emits.ends write_emits
  · exact refuse_runs

end ConditionRegister

namespace Transaction

theorem setCr0_emits {order : BitVec 8} (horder : order.toNat &&& 0xE = order.toNat) :
    Emits P s pending (setCr0 order) (setCr0 order) :=
  putFields_emits (by decide) .u8 (.weaken (.u8 order) horder) .u8 .zero

theorem begin_emits : Emits P s pending (begin w) (begin w) := by
  unfold begin
  refine .guard reservedZero_guards fun _ => .give listed_gives (.give read_gives ?_)
  refine .seq (putSpecial_emits (by decide) rfl .u64) fun _ _ => ?_
  refine .seq (putSpecial_emits (by decide) rfl .u32) fun _ _ => ?_
  refine .seq (putSpecial_emits (by decide) rfl .u64) fun _ _ => ?_
  refine .seq (putSpecial_emits (by decide) rfl .u64) fun _ _ => ?_
  exact (setCr0_emits (by decide)).last

theorem check_emits : Emits P s pending (check w) (check w) := by
  unfold check
  exact .guard reservedZero_guards fun _ => .give listed_gives (putCrField_emits w.crfd_lt .u32)

theorem outside_emits : Emits P s pending (outside w) (outside w) := by
  unfold outside
  split
  case h_1 | h_2 | h_7 | h_8 | h_9 =>
    exact .guard reservedZero_guards fun _ => .give listed_gives (setCr0_emits (by decide))
  case h_3 | h_4 | h_5 | h_6 => exact .give listed_gives (setCr0_emits (by decide))
  case h_10 => exact refuse_bind

theorem lift_ends : Ends P s (lift w) (lift w) := by
  unfold lift
  refine .ite (fun _ => Emits.ends check_emits) fun _ => .ite (fun _ => refuse_runs) fun _ => ?_
  exact .ite (fun _ => Emits.ends begin_emits) fun _ => Emits.ends outside_emits

end Transaction

namespace System

variable {e e' : Expr}

theorem call_ends : Ends P s (call w) (call w) := by
  unfold call
  refine .ite (fun _ => refuse_bind) fun _ => .give listed_gives (.give read_gives ?_)
  refine .give imm_gives ?_
  refine .seq (putSpecial_emits (by decide) P.env.arch.wordTy_eq .imm) fun _ _ => ?_
  exact stopAtNext_ends (by decide)

theorem instructionSync_emits : Emits P s pending (instructionSync w) (instructionSync w) := by
  unfold instructionSync
  refine .guard reservedZero_guards fun _ => .guard reservedClear_guards fun _ => ?_
  exact .give listed_gives fence_emits

theorem sync_emits : Emits P s pending (sync w) (sync w) := by
  unfold sync
  have hfence : Emits P s pending fence fence := fence_emits
  refine .guard reservedClear_guards fun _ => .ite (fun _ => ?_) fun _ => ?_
  · exact .guard reservedZero_guards fun _ => .give listed_gives hfence
  · refine .guard reservedZero_guards fun _ => .guard reservedZero_guards fun _ => ?_
    split
    case h_1 | h_2 | h_3 => exact .give listed_gives hfence
    case h_4 => exact refuse_bind

theorem wait_ends : Ends P s (wait w) (wait w) := by
  unfold wait
  exact .guard reservedClear_guards fun _ => .give listed_gives (stopAtNext_ends (by decide))

theorem ofDoubleword_reads (he : Paired P s e e' .i64) :
    Reads P s pending (ofDoubleword e) (ofDoubleword e') P.gprTy := by
  unfold ofDoubleword
  refine .give mode64_gives (.ite (fun h64 => .pure (he.gpr h64)) fun h64 => ?_)
  exact .pure (.cast (Placement.gprTy_eq32 (by simpa using h64)).symm (.un rfl he))

theorem timeBase_computes {upper : Bool} :
    Computes P s pending (timeBase upper) (timeBase upper) P.gprTy := by
  unfold timeBase
  refine .bind newTemp_kept ?_
  rintro _ t' s₁ _ ⟨rfl, ht⟩
  refine .bind (timeBase_kept ht) fun _ _ _ _ h => .lastRead (ofDoubleword_reads ?_) fun _ _ h => h
  cases upper
  · exact h
  · exact .bin rfl h .u8

theorem readTimeBase_emits : Emits P s pending (readTimeBase w) (readTimeBase w) := by
  unfold readTimeBase
  refine .guard reservedClear_guards fun _ => ?_
  split
  case h_1 | h_2 =>
    refine .give listed_gives (.bind timeBase_computes fun _ _ _ _ h => ?_)
    exact (putGpr_emits w.rd_lt h).last
  case h_3 => exact refuse_runs

/-- The type of the slot in which a special-purpose register is stored. -/
def Special.Stored (arch : Arch) : Special → Prop
  | .word x => (x : Slot).IsPlain ∧ x.ty arch = arch.word.width.ty
  | .narrow x => (x : Slot).IsPlain ∧ x.ty arch = .i32
  | .wide x | .upper x => (x : Slot).IsPlain ∧ x.ty arch = .i64
  | .xer => True

theorem source?_stored {n : Nat} {x : Special} (arch : Arch)
    (h : source? n = some (.stored x)) : x.Stored arch := by
  unfold source? at h
  split at h <;> cases h <;>
    first | trivial | exact ⟨by decide, rfl⟩ | exact ⟨by decide, arch.wordTy_eq⟩

theorem destination?_stored {n : Nat} {x : Special} (arch : Arch)
    (h : destination? n = some x) : x.Stored arch := by
  unfold destination? at h
  split at h <;> cases h <;>
    first | trivial | exact ⟨by decide, rfl⟩ | exact ⟨by decide, arch.wordTy_eq⟩

theorem readSpecial_emits : Emits P s pending (readSpecial w) (readSpecial w) := by
  unfold readSpecial
  refine .guard reservedClear_guards fun _ => .give listed_gives ?_
  extract_lets finish
  have hfinish : ∀ {s₁ : Stage} {e e' : Expr}, Paired P s₁ e e' P.gprTy →
      Emits P s₁ pending (finish e) (finish e') := fun he =>
    .bind (bind_computes he) fun _ _ _ _ h => (putGpr_emits w.rd_lt h).last
  split
  next => exact .read getXer_reads fun _ _ h => .read (widen_reads h .i32) fun _ _ h => hfinish h
  next x hx =>
    obtain ⟨hplain, hty⟩ := source?_stored P.env.arch hx
    exact .read (getSpecial_reads hplain.ne_cia hty) fun _ _ h => hfinish h
  next x hx =>
    obtain ⟨hplain, hty⟩ := source?_stored P.env.arch hx
    refine .read (getSpecial_reads hplain.ne_cia hty) fun _ _ h => ?_
    exact .read (widen_reads h .i32) fun _ _ h => hfinish h
  next x hx =>
    obtain ⟨hplain, hty⟩ := source?_stored P.env.arch hx
    refine .read (getSpecial_reads hplain.ne_cia hty) fun _ _ h => ?_
    exact .read (ofDoubleword_reads h) fun _ _ h => hfinish h
  next x hx =>
    obtain ⟨hplain, hty⟩ := source?_stored P.env.arch hx
    refine .read (getSpecial_reads hplain.ne_cia hty) fun _ _ h => ?_
    exact .read (ofDoubleword_reads (.bin rfl h .u8)) fun _ _ h => hfinish h
  next => exact .bind timeBase_computes fun _ _ _ _ h => (hfinish h).last
  next => exact refuse_bind

theorem destination?_xer {n : Nat} (h : destination? n = some .xer) : n = 1 := by
  unfold destination? at h
  split at h <;> first | rfl | cases h

theorem writeSpecial_emits (hword : P.word.opcode = 31 ∧ P.word.xo10 = 467) :
    Emits P s pending (writeSpecial P.word) (writeSpecial P.word) := by
  unfold writeSpecial
  refine .guard reservedClear_guards fun _ => .give listed_gives ?_
  refine hold_runs (getGpr_reads P.word.rd_lt) fun _ _ _ _ hv => ?_
  split
  next hx =>
    have hw : P.word.Resets SpecialSlot.xerSo := ⟨hword.1, .inl ⟨hword.2, destination?_xer hx⟩⟩
    exact .give low32_gives (putXer_emits hw hv.low32).last
  next x hx =>
    obtain ⟨hplain, hty⟩ := destination?_stored P.env.arch hx
    exact (putSpecial_emits hplain hty hv).last
  next x hx =>
    obtain ⟨hplain, hty⟩ := destination?_stored P.env.arch hx
    exact .give low32_gives (putSpecial_emits hplain hty hv.low32).last
  next x hx =>
    obtain ⟨hplain, hty⟩ := destination?_stored P.env.arch hx
    exact .give to64_gives (putSpecial_emits hplain hty hv.to64).last
  next x hx =>
    obtain ⟨hplain, hty⟩ := destination?_stored P.env.arch hx
    refine .give to64_gives (.read (getSpecial_reads hplain.ne_cia hty) fun _ _ hold => ?_)
    exact (putSpecial_emits hplain hty
      (.bin rfl (.bin rfl hv.to64 .u8) (.bin rfl hold .u64))).last
  next => exact refuse_runs

theorem blockStart_computes {size : BitVec 32} (hsize : size ∈ Processor.lineSizes) :
    Computes P s pending (blockStart w size) (blockStart w size) P.gprTy := by
  have hmask : Bits.alignDown (.allOnes 64) (size.setWidth 64) =
      .ok (BitVec.allOnes 64 &&& ~~~(size.setWidth 64 - 1)) := by
    -- The entry checks admit four line sizes, all powers of two.
    refine if_neg ?_
    simp only [Processor.lineSizes, List.mem_cons, List.not_mem_nil, or_false] at hsize
    rcases hsize with rfl | rfl | rfl | rfl <;> decide
  unfold blockStart
  refine .read (eaOr0Idx_reads w.ra_lt w.rb_lt) fun _ _ ha => ?_
  refine .give (ofExcept_gives hmask hmask) (.give wordOp_gives (.give imm_gives ?_))
  exact bind_computes (.bin rfl ha .imm)

theorem zeroBlock_emits {size : BitVec 32} (hsize : size ∈ Processor.lineSizes) :
    Emits P s pending (zeroBlock w size) (zeroBlock w size) := by
  unfold zeroBlock
  refine .bind (blockStart_computes hsize) fun _ _ _ _ ha => .give read_gives ?_
  refine (forM_emits fun i _ s₁ _ => ?_).last
  refine .read (addrPlus_reads ha.up) fun _ _ haddr => .give imm_gives ?_
  refine store_lift_emits haddr .imm ?_
  rcases Expr.gprTy_cases P.env with h | h <;> rw [Placement.gprTy, h] <;> decide

theorem invalidateLine_ends : Ends P s (invalidateLine w) (invalidateLine w) := by
  unfold invalidateLine
  refine .give read_gives (.bind (blockStart_computes P.icache_size) fun _ _ _ _ hbase => ?_)
  refine .seq (putSpecial_emits (by decide) P.env.arch.wordTy_eq hbase) fun _ _ => ?_
  refine .give imm_gives ?_
  refine .seq (putSpecial_emits (by decide) P.env.arch.wordTy_eq .imm) fun _ _ => ?_
  exact .seq fence_emits fun _ _ => stopAtNext_ends (by decide)

theorem cache_ends : Ends P s (cache w) (cache w) := by
  have hdone : ∀ {line : String}, Emits P s [] (listed line) (listed line) :=
    .lastRead listed_gives fun _ _ _ => trivial
  unfold cache
  refine .guard reservedClear_guards fun _ => ?_
  dsimp only
  split
  case h_1 | h_2 => exact .guard reservedZero_guards fun _ => Emits.ends hdone
  case h_3 | h_4 => exact Emits.ends hdone
  case h_5 =>
    refine .guard reservedZero_guards fun _ => .give listed_gives (.give read_gives ?_)
    refine Emits.ends (zeroBlock_emits ?_)
    split
    · exact P.dcbzl_size
    · exact P.dcbz_size
  case h_6 =>
    exact .guard reservedZero_guards fun _ => .give listed_gives invalidateLine_ends

theorem vectorStatus_emits (hword : P.word.opcode = 4)
    (hxo : P.word.vxXo = 1540 ∨ P.word.vxXo = 1604) :
    Emits P s pending (vectorStatus P.word) (vectorStatus P.word) := by
  unfold vectorStatus
  refine .ite (fun _ => ?_) fun hread => ?_
  · refine .guard reservedZero_guards fun _ => .give listed_gives ?_
    refine .read (getSpecial_reads (by decide) rfl) fun _ _ h => ?_
    exact putVr_emits P.word.rd_lt (.un rfl h)
  · have hw : P.word.Resets SpecialSlot.vscr := ⟨hword, hxo.resolve_left hread⟩
    refine .guard reservedZero_guards fun _ => .give listed_gives ?_
    refine .read (getVr_reads P.word.rb_lt) fun _ _ h => ?_
    exact putVscr_emits (.bin rfl (.un rfl h) .u32) fun h => absurd hw h

theorem lift_ends : Ends P s (lift P.word) (lift P.word) := by
  unfold lift
  split
  case h_1 => exact call_ends
  case h_2 => exact Emits.ends instructionSync_emits
  case h_3 => exact Emits.ends readSpecial_emits
  case h_4 hword hxo => exact Emits.ends (writeSpecial_emits ⟨hword, hxo⟩)
  case h_5 => exact Emits.ends readTimeBase_emits
  case h_6 | h_7 => exact Emits.ends sync_emits
  case h_8 => exact wait_ends
  case h_9 | h_10 | h_11 | h_12 | h_13 | h_14 => exact cache_ends
  case h_15 hword =>
    exact .ite (fun hxo => Emits.ends (vectorStatus_emits hword hxo)) fun _ => refuse_runs
  case h_16 => exact refuse_runs

end System

end PowerLift
