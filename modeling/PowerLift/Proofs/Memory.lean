import PowerLift.Family.Branch
import PowerLift.Proofs.Registers

/-!
# Memory, control flow and vector lanes

Besides the steps themselves, what the end of a translator may look like: it goes on behind the
instruction, it writes the instruction address and stops, or it follows a branch where the lifting
alone stops.
-/

namespace PowerLift

open Stage (Next Before)

/-! ## Instruction addresses -/

/-- The mask that cuts addresses keeps the low 32 bits. -/
theorem low_mask (a : BitVec 64) : a &&& 0xFFFFFFFF = (a.setWidth 32).setWidth 64 := by
  refine BitVec.eq_of_toNat_eq ?_
  have hmask : (0xFFFFFFFF : BitVec 64).toNat = 2 ^ 32 - 1 := rfl
  rw [BitVec.toNat_and, BitVec.toNat_setWidth, BitVec.toNat_setWidth, hmask,
    Nat.and_two_pow_sub_one_eq_mod]
  omega

theorem aligned_iff {a : BitVec 64} : a % 4 = 0 ↔ a.toNat % 4 = 0 := by
  rw [← BitVec.toNat_inj, BitVec.toNat_umod]
  rfl

theorem add_aligned {a b : BitVec 64} (ha : a % 4 = 0) (hb : b % 4 = 0) : (a + b) % 4 = 0 := by
  rw [aligned_iff] at ha hb ⊢
  rw [BitVec.toNat_add]
  omega

/-- A displacement in words, of whatever width it is encoded in. -/
theorem signExtend_aligned {w : Nat} (hw : 2 ^ w % 4 = 0) {disp : BitVec w}
    (hdisp : disp.toNat % 4 = 0) : disp.signExtend 64 % 4 = 0 := by
  rw [aligned_iff, BitVec.toNat_signExtend, BitVec.toNat_setWidth]
  split <;> omega

namespace Env

variable {env : Env}

theorem cutAddress_aligned {a : BitVec 64} (h : a % 4 = 0) : env.cutAddress a % 4 = 0 := by
  unfold cutAddress
  split
  · exact h
  · rw [low_mask, aligned_iff, BitVec.toNat_setWidth, BitVec.toNat_setWidth]
    rw [aligned_iff] at h
    omega

theorem nia_aligned (h : env.cia % 4 = 0) : env.nia % 4 = 0 :=
  cutAddress_aligned (add_aligned h rfl)

end Env

/-- A literal to which an instruction leads is aligned, where the instruction is. -/
def Placement.Leads (P : Placement) (e : Expr) : Prop :=
  P.env.cia % 4 = 0 → ∀ c, e.asConst? = some c → ∃ a : BitVec 64, a % 4 = 0 ∧ c = P.env.address a

theorem Placement.leads_imm {P : Placement} {a : BitVec 64}
    (h : P.env.cia % 4 = 0 → a % 4 = 0) : P.Leads (P.env.imm a) :=
  fun hcia _ hc => ⟨a, h hcia, (Option.some.inj hc).symm⟩

theorem Placement.leads_of_asConst? {P : Placement} {e : Expr} (h : e.asConst? = none) :
    P.Leads e := by
  intro _ c hc
  rw [h] at hc
  contradiction

/-! ## The end of a translator -/

/-- Where the word of a placement leads, if it is a branch to a fixed target. -/
def Placement.destination (P : Placement) : BitVec 64 :=
  Branch.target P.env P.word ((BitVec.ofNat 26 (P.word.li24 * 4)).signExtend 64)

/-- The ends of two liftings of an instruction. -/
inductive Ending (P : Placement) : Unit → Unit → Progress → Progress → Prop where
  | through {q q' : Progress} (s : Stage) (htogether : P.Together s q q')
      (hsound : s.Sound P []) : Ending P () () q q'
  /-- Both write the address of the next instruction. -/
  | stop {q q' : Progress} (s : Stage) (kind : JumpKind) (e e' : Expr) (houter : s.outer = #[])
      (hsound : s.Sound P []) (he : Paired P s e e' P.gprTy) (hkind : kind ≠ .noDecode)
      (hleft : q.stage = s.push (.put (Layout.specialOffset P.env.arch .cia) e))
      (hright : q'.stage =
        (s.on P.outer).push (.put (Layout.specialOffset P.env.arch .cia) e'))
      (hnext : q.next = .stop kind) (hnext' : q'.next = .stop kind) (hleads : P.Leads e) :
      Ending P () () q q'
  /-- The first writes the target of a branch that the second follows. -/
  | followed {q q' : Progress} (s : Stage) (kind : JumpKind) (target : BitVec 64)
      (houter : s.outer = #[]) (hsound : s.Sound P []) (hkind : kind ≠ .noDecode)
      (hcut : P.env.cutAddress target = target) (hmay : P.env.mayResteer target = true)
      (hword : P.word.opcode = 18 ∧ target = P.destination)
      (hleft : q.stage =
        s.push (.put (Layout.specialOffset P.env.arch .cia) (P.env.imm target)))
      (hright : q'.stage = s.on P.outer) (hnext : q.next = .stop kind)
      (hnext' : q'.next = .resteer target) (haligned : P.env.cia % 4 = 0 → target % 4 = 0) :
      Ending P () () q q'

/-- A whole translator. -/
abbrev Ends (P : Placement) (s : Stage) (m m' : Lift Unit) : Prop := Runs P s [] m m' (Ending P)

variable {P : Placement} {s : Stage} {pending : List Nat}

/-- A translator that only emits code goes on behind the instruction. -/
theorem Emits.ends {m m' : Lift Unit} (h : Emits P s [] m m') : Ends P s m m' := by
  refine h.mono ?_
  rintro ⟨⟩ ⟨⟩ q q' ⟨s₁, htogether, hsound, -, -⟩
  exact .through s₁ htogether hsound

namespace Lift

theorem load_reads {ty : Ty} {a a' : Expr} (ha : Paired P s a a' P.gprTy) :
    Reads P s pending (load ty a) (load ty a') ty :=
  .give read_gives (.pure ha.load)

theorem store_lift_emits {a a' e e' : Expr} {τ : Ty} (ha : Paired P s a a' P.gprTy)
    (he : Paired P s e e' τ) (hτ : τ ≠ .i1) : Emits P s pending (store a e) (store a' e') :=
  .give read_gives (store_emits ha he hτ)

/-! ## Effective addresses -/

section

variable {ra rb : Nat} {disp : BitVec 64}

theorem eaOr0Disp_reads (ha : ra < 32) :
    Reads P s pending (eaOr0Disp ra disp) (eaOr0Disp ra disp) P.gprTy := by
  unfold eaOr0Disp
  refine .give imm_gives ?_
  split
  · exact .pure .imm
  · exact .give wordOp_gives (.read (getGpr_reads ha) fun _ _ h => .pure (.bin rfl h .imm))

theorem eaDisp_reads (ha : ra < 32) :
    Reads P s pending (eaDisp ra disp) (eaDisp ra disp) P.gprTy := by
  unfold eaDisp
  refine .give wordOp_gives (.read (getGpr_reads ha) fun _ _ h => ?_)
  exact .give imm_gives (.pure (.bin rfl h .imm))

theorem eaIdx_reads (ha : ra < 32) (hb : rb < 32) :
    Reads P s pending (eaIdx ra rb) (eaIdx ra rb) P.gprTy := by
  unfold eaIdx
  refine .give wordOp_gives (.read (getGpr_reads ha) fun _ _ h => ?_)
  exact .read (getGpr_reads hb) fun _ _ h' => .pure (.bin rfl h h')

theorem eaOr0Idx_reads (ha : ra < 32) (hb : rb < 32) :
    Reads P s pending (eaOr0Idx ra rb) (eaOr0Idx ra rb) P.gprTy := by
  unfold eaOr0Idx
  split
  · exact getGpr_reads hb
  · exact eaIdx_reads ha hb

theorem eaOr0_reads (ha : ra < 32) : Reads P s pending (eaOr0 ra) (eaOr0 ra) P.gprTy := by
  unfold eaOr0
  split
  · exact imm_reads
  · exact getGpr_reads ha

end

theorem addrPlus_reads {a a' : Expr} {offset : BitVec 64} (ha : Paired P s a a' P.gprTy) :
    Reads P s pending (addrPlus a offset) (addrPlus a' offset) P.gprTy := by
  unfold addrPlus
  split
  · exact .pure ha
  · exact .give wordOp_gives (.give imm_gives (.pure (.bin rfl ha .imm)))

theorem quadHalves_reads {a a' : Expr} (ha : Paired P s a a' P.gprTy) :
    Runs P s pending (quadHalves a) (quadHalves a') (Still P s fun h h' =>
      Paired P s h.1 h'.1 P.gprTy ∧ Paired P s h.2 h'.2 P.gprTy) := by
  unfold quadHalves
  refine .read (addrPlus_reads ha) fun _ _ hother => .give read_gives ?_
  simp only [Placement.alone_host]
  split
  · exact .pure ⟨ha, hother⟩
  · exact .pure ⟨hother, ha⟩

/-! ## Control flow -/

theorem exit_kept_lift {guard guard' : Expr} {kind : JumpKind} {target : BitVec 64}
    (hguard : Paired P s guard guard' .i1)
    (hfault : kind = .sigBus ∨ kind = .sigTrap → target = P.env.cia ∧ s.Quiet)
    (haligned : P.env.cia % 4 = 0 → target % 4 = 0) :
    Runs P s pending (exit guard kind target) (exit guard' kind target)
      (Kept P s pending fun _ _ s₁ => s.Quiet → s₁.Quiet) := by
  unfold exit
  refine .give read_gives (.give (ofExcept_gives rfl rfl) ?_)
  simp only [Placement.alone_address, Placement.alone_cutAddress, Placement.alone_layout,
    P.layout_eq]
  exact exit_kept hguard hfault haligned

/-- An exit that is no error. -/
theorem exit_emits {guard guard' : Expr} {kind : JumpKind} {target : BitVec 64}
    (hguard : Paired P s guard guard' .i1) (hbus : kind ≠ .sigBus) (htrap : kind ≠ .sigTrap)
    (haligned : P.env.cia % 4 = 0 → target % 4 = 0) :
    Emits P s pending (exit guard kind target) (exit guard' kind target) := by
  refine (exit_kept_lift hguard (fun h => ?_) haligned).mono ?_
  · exact absurd h (not_or.mpr ⟨hbus, htrap⟩)
  · rintro _ _ _ _ ⟨s₁, htogether, hsound, hgrows, -⟩
    exact ⟨s₁, htogether, hsound, hgrows, trivial⟩

/-- Alignment is checked before all effects, for powers of two. -/
theorem requireAligned_emits {a a' : Expr} {align : BitVec 64} (ha : Paired P s a a' P.gprTy)
    (hquiet : s.Quiet) (halign : ¬(align = 0 ∨ align &&& (align - 1) ≠ 0)) :
    Emits P s pending (requireAligned a align) (requireAligned a' align) := by
  unfold requireAligned
  -- An alignment that is no power of two is a fault of the translator.
  rw [if_neg halign]
  split
  · exact .done trivial
  · refine .give wordOp_gives (.give imm_gives ?_)
    refine .give wordOp_gives (.give imm_gives (.give read_gives ?_))
    refine (exit_kept_lift (.bin rfl (.bin rfl ha .imm) .imm) (fun _ => ⟨rfl, hquiet⟩) id).mono ?_
    rintro _ _ _ _ ⟨s₁, htogether, hsound, hgrows, -⟩
    exact ⟨s₁, htogether, hsound, hgrows, trivial⟩

theorem exec_setNext (env : Env) (p : Progress) (next : Continuation) :
    exec env p (setNext next) = (.ok (), { p with next }) := rfl

/-- The write of the instruction address at the end of an instruction. -/
theorem exec_jumpTo {env : Env} {p : Progress} {e : Expr} {kind : JumpKind}
    (he : p.stage.check e = .ok (env.layout.wordTy)) :
    exec env p (jumpTo e kind) = (.ok (), { p with
      stage := p.stage.push (.put (Layout.specialOffset env.layout .cia) e)
      next := .stop kind }) := by
  have hslot : Layout.locate env.layout (.special .cia) =
      .ok ⟨Layout.specialOffset env.layout .cia, env.layout.wordTy⟩ := rfl
  rw [jumpTo, exec_bind, exec_putSlot hslot he]
  rfl

theorem jumpTo_eq {e e' : Expr} {kind : JumpKind} {p p' : Progress}
    (he : Paired P s e e' P.gprTy) (hsound : s.Sound P pending) (hp : P.Together s p p') :
    exec P.alone p (jumpTo e kind) = (.ok (), { p with
      stage := s.push (.put (Layout.specialOffset P.env.arch .cia) e), next := .stop kind }) ∧
    exec P.env p' (jumpTo e' kind) = (.ok (), { p' with
      stage := (s.on P.outer).push (.put (Layout.specialOffset P.env.arch .cia) e'),
      next := .stop kind }) := by
  obtain ⟨hleft, hright⟩ := he.check_eq hp.outer hsound
  -- The slot has the width that the layout gives it, which is that of the mode.
  rw [Placement.gprTy, Env.gprTy, ← Arch.wordTy_eq, ← P.layout_eq] at hleft hright
  rw [← P.layout_eq, ← hp.right, ← hp.left]
  rw [← hp.left] at hleft
  rw [← hp.right] at hright
  exact ⟨exec_jumpTo hleft, exec_jumpTo hright⟩

theorem jumpTo_ends {e e' : Expr} {kind : JumpKind} (he : Paired P s e e' P.gprTy)
    (hkind : kind ≠ .noDecode) (hleads : P.Leads e) :
    Ends P s (jumpTo e kind) (jumpTo e' kind) := by
  intro hsound p p' hp
  obtain ⟨hleft, hright⟩ := jumpTo_eq he hsound hp
  rw [hleft, hright]
  exact .both (.stop s kind e e' hp.outer hsound he hkind rfl rfl rfl rfl hleads)

theorem stopAtNext_ends {kind : JumpKind} (hkind : kind ≠ .noDecode) :
    Ends P s (stopAtNext kind) (stopAtNext kind) := by
  unfold stopAtNext
  refine .give read_gives (.give imm_gives ?_)
  exact jumpTo_ends .imm hkind (Placement.leads_imm Env.nia_aligned)

theorem redzoneHint_emits {next next' : Expr} (hnext : Paired P s next next' P.gprTy) :
    Emits P s pending (redzoneHint next) (redzoneHint next') := by
  unfold redzoneHint
  refine .give read_gives ?_
  refine .ite (fun _ => .done trivial) fun _ => ?_
  refine .give wordOp_gives (.read (getGpr_reads (by decide)) fun _ _ h => .give imm_gives ?_)
  exact hint_emits (.bin rfl h .imm) hnext

/-! ## Vector lanes -/

theorem splitHalves_kept {v v' : Expr} (hv : Paired P s v v' .v128) :
    Runs P s pending (splitHalves v) (splitHalves v') (Kept P s pending fun h h' s₁ =>
      Paired P s₁ h.1 h'.1 .i64 ∧ Paired P s₁ h.2 h'.2 .i64) := by
  unfold splitHalves
  refine .bind (bind_computes hv) fun _ _ _ _ ht => ?_
  refine .bind (bind_computes (.un rfl ht)) fun _ _ _ _ hhi => ?_
  refine .bind (bind_computes (.un rfl ht.up)) fun _ _ _ _ hlo => ?_
  exact .done ⟨hhi.up, hlo⟩

theorem splitWords_kept {v v' : Expr} (hv : Paired P s v v' .v128) :
    Runs P s pending (splitWords v) (splitWords v') (Kept P s pending fun ws ws' s₁ =>
      PairedList P s₁ ws ws' (List.replicate 4 .i32)) := by
  unfold splitWords
  refine .bind (splitHalves_kept hv) fun _ _ _ _ h => ?_
  exact (mapM_kept (.cons (.un rfl h.1) (.cons (.un rfl h.1) (.cons (.un rfl h.2)
    (.cons (.un rfl h.2) .nil)))) fun _ _ _ _ he => bind_computes he).last

end Lift

end PowerLift
