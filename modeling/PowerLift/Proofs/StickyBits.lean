import PowerLift.Proofs.CleanState
import PowerLift.Proofs.RegisterFile

/-!
# Sticky bits

The summary overflow and the bits of the vector status, once set, stay set along every run of
instructions, whatever floating-point, decimal and vector operators compute: code writes their slots
with what was read from them, and more bits set. Only the few words that are meant to write a slot
anew can clear it.
-/

namespace PowerLift

variable {M : Type}

/-! ## Bits that stay -/

/-- The bits of a mask that are set in `x` are set in `y`. -/
def Carried (mask : Nat) {n n' : Nat} (x : BitVec n) (y : BitVec n') : Prop :=
  ∀ k, mask.testBit k = true → x.getLsbD k = true → y.getLsbD k = true

namespace Carried

variable {mask n n' : Nat} {x : BitVec n} {y : BitVec n'}

theorem refl (mask : Nat) (x : BitVec n) : Carried mask x x := fun _ _ hbit => hbit

theorem trans {n'' : Nat} {z : BitVec n''} (h : Carried mask x y) (h' : Carried mask y z) :
    Carried mask x z := fun k hk hbit => h' k hk (h k hk hbit)

theorem or (h : Carried mask x y) (z : BitVec n') : Carried mask x (y ||| z) := by
  intro k hk hbit
  rw [BitVec.getLsbD_or, h k hk hbit, Bool.true_or]

theorem and (h : Carried mask x y) {z : BitVec n'} (hz : mask &&& z.toNat = mask) :
    Carried mask x (y &&& z) := by
  intro k hk hbit
  have hmask : z.getLsbD k = true := by
    rw [← hz, Nat.testBit_and, Bool.and_eq_true] at hk
    exact hk.2
  rw [BitVec.getLsbD_and, h k hk hbit, hmask, Bool.and_self]

end Carried

/-- The sticky bits of a slot that are set in `σ` are set in `σ'`. -/
def GuestState.Retains (arch : Arch) (order : ByteOrder) (s : Slot) (σ σ' : GuestState) : Prop :=
  ∀ (mask : Nat) (p : Layout.Place), s.stickyBits? = some mask → Layout.locate arch s = .ok p →
    Carried mask (σ.read order p.offset p.ty) (σ'.read order p.offset p.ty)

/-- Sticky slots are special ones, and no truth values. -/
theorem Slot.sticky_special {arch : Arch} {s : Slot} {mask : Nat} {p : Layout.Place}
    (hs : s.stickyBits? = some mask) (hp : Layout.locate arch s = .ok p) :
    ∃ x : SpecialSlot, s = x ∧ x ≠ .cia ∧ p.ty ≠ .i1 := by
  cases s with
  | special x =>
      rw [Layout.locate_ty hp]
      cases x <;> simp_all [stickyBits?, Slot.ty, SpecialSlot.ty]
  | _ => simp [stickyBits?] at hs

namespace GuestState

variable {arch : Arch} {order : ByteOrder} {s : Slot} {σ σ' σ'' : GuestState}

theorem Agree.symm (h : σ.Agree arch σ') : σ'.Agree arch σ := fun o ho => (h o ho).symm

theorem Retains.refl (arch : Arch) (order : ByteOrder) (s : Slot) (σ : GuestState) :
    Retains arch order s σ σ := fun mask _ _ _ => .refl mask _

theorem Retains.trans (h : Retains arch order s σ σ') (h' : Retains arch order s σ' σ'') :
    Retains arch order s σ σ'' :=
  fun mask p hs hp => (h mask p hs hp).trans (h' mask p hs hp)

/-- The instruction address has no sticky bits. -/
theorem Agree.retains (h : σ.Agree arch σ') : Retains arch order s σ σ' := by
  intro mask p hs hp
  obtain ⟨x, rfl, hx, -⟩ := Slot.sticky_special hs hp
  have hregister : Layout.Register arch .big p := .slot x (by simpa using hx) hp
  rw [h.read hregister.apart]
  exact .refl mask _

theorem retains_writeCia {v : Value} (hv : v.ty = arch.wordTy) :
    Retains arch order s σ (σ.write order (Layout.specialOffset arch .cia) v) :=
  ((Agree.refl arch σ).writeCia order hv).symm.retains

/-- A place is written with the sticky bits that it had. -/
theorem retains_write {host : ByteOrder} {q : Layout.Place} (hq : Layout.Register arch host q)
    {v : Value} (hv : v.ty = q.ty)
    (hkeeps : ∀ mask, s.stickyBits? = some mask → Layout.locate arch s = .ok q →
      Carried mask (σ.read order q.offset q.ty) v.bits) :
    Retains arch order s σ (σ.write order q.offset v) := by
  intro mask p hs hp
  obtain ⟨x, rfl, -, hty⟩ := Slot.sticky_special hs hp
  -- What is written elsewhere leaves the slot as it is.
  have hother : q.Disjoint p → Carried mask (σ.read order p.offset p.ty)
      ((σ.write order q.offset v).read order p.offset p.ty) := by
    intro hdisjoint
    rw [Layout.Place.Disjoint, ← hv] at hdisjoint
    rw [read_write_disjoint hdisjoint]
    exact .refl mask _
  cases hq with
  | half i hq =>
      obtain ⟨hhalf, hle⟩ := Layout.fpr_le hq
      have hlow := (Layout.locate_region hp).1
      have hbytes : q.ty.bytes = 8 := by rw [hhalf]; rfl
      exact hother (.inl (Nat.le_trans (hbytes ▸ hle) hlow))
  | slot s _ hq =>
      by_cases heq : s = x
      · subst heq
        obtain rfl : q = p := Except.ok.inj (hq.symm.trans hp)
        obtain ⟨ty, bits⟩ := v
        obtain rfl : ty = q.ty := hv
        have hread : (σ.write order q.offset ⟨q.ty, bits⟩).read order q.offset q.ty = bits :=
          read_write hty
        rw [hread]
        exact hkeeps mask hs hq
      · exact hother (Layout.locate_disjoint hq hp heq)

end GuestState

/-! ## Runs of an instruction -/

section

variable {I : Interp M} {env : Env} {types : Array Ty} {ss : List Stmt} {m m' : Machine M}
  {stmt : Stmt} {w : Insn} {s : Slot}

/-- An expression that carries the bits of another has them in its value. -/
theorem Expr.CarriedBy.eval_bits (hI : I.Bitwise) {x e : Expr} {mask : Nat}
    (h : x.CarriedBy mask e) (hm : m.Typed types ss) {τ : Ty}
    (he : e.HasTy env (scopeOf types ss) τ) :
    ∃ y, e.eval I m = ⟨τ, y⟩ ∧ Carried mask (x.eval I m).bits y := by
  induction h generalizing τ with
  | self =>
      obtain ⟨y, hy⟩ := he.eval_eq (I := I) hm
      refine ⟨y, hy, ?_⟩
      rw [hy]
      exact .refl mask y
  | or ha ih =>
      obtain ⟨rfl, ha, hb, -⟩ := he
      obtain ⟨y, hy, hbits⟩ := ih ha
      obtain ⟨z, hz⟩ := hb.eval_eq (I := I) hm
      exact ⟨y ||| z, hI.eval_or hy hz, hbits.or z⟩
  | and v hv ha ih =>
      obtain ⟨rfl, ha, -⟩ := he
      obtain ⟨y, hy, hbits⟩ := ih ha
      exact ⟨_, hI.eval_and hy rfl, hbits.and hv⟩

/-- Behind the code of an instruction, temporaries have values of their types. -/
theorem Trail.run_typed (hcode : Trail (Fits env types) ss) (hm : m.Typed types [])
    (hrun : runAll I types ss m = .behind m') : m'.Typed types ss := by
  -- The code side by side with itself, whose temporaries are not renumbered.
  have htracks : Tracks env.arch 0 types [] m m := ⟨rfl, .refl _ _, by simp, hm⟩
  have hrelated := hcode.run_shift (I := I) (fun t τ ht => by rwa [Nat.zero_add]) htracks
  rw [hrun] at hrelated
  generalize runAll I types (ss.map (Stmt.shift 0)) m = flow at hrelated
  cases hrelated with
  | behind h => exact h.typed

/-- Code behind other code, which may have left. -/
theorem runAll_append_retains {arch : Arch} {ss' : List Stmt}
    (hss : m.state.Retains arch I.order s (runAll I types ss m).state)
    (hss' : ∀ m₁, runAll I types ss m = .behind m₁ →
      m₁.state.Retains arch I.order s (runAll I types ss' m₁).state) :
    m.state.Retains arch I.order s (runAll I types (ss ++ ss') m).state := by
  rw [runAll_append]
  cases hrun : runAll I types ss m with
  | left l =>
      rw [hrun] at hss
      exact hss
  | behind m₁ =>
      rw [hrun] at hss
      exact hss.trans (hss' m₁ hrun)

/-- One statement. -/
theorem Fits.run_retains (hI : I.Bitwise) (h : Fits env types ss stmt)
    (hkeeps : stmt.Keeps env.arch w) (hw : ¬w.Resets s) (hm : m.Typed types ss) :
    m.state.Retains env.arch I.order s (stmt.run I types m).state := by
  cases h with
  | put p e hp he =>
      -- The value that is written has the bits that were read.
      refine GuestState.retains_write hp.register (he.eval_ty hm) fun mask hs hlocate => ?_
      obtain ⟨y, hy, hbits⟩ := (hkeeps s mask p hs hlocate hw e rfl).eval_bits hI hm he
      rw [hy]
      exact hbits
  | exit guard kind target hguard hfault =>
      rw [Stmt.run]
      split
      · exact GuestState.retains_writeCia (env.ty_address_value (env.cutAddress target))
      · exact .refl _ _ _ _
  | _ => exact .refl _ _ _ _

/-- The code of an instruction. -/
theorem Trail.run_retains (hI : I.Bitwise) (hcode : Trail (Fits env types) ss)
    (hkeeps : ∀ stmt ∈ ss, stmt.Keeps env.arch w) (hw : ¬w.Resets s) (hm : m.Typed types []) :
    m.state.Retains env.arch I.order s (runAll I types ss m).state := by
  induction hcode with
  | nil => exact .refl _ _ _ _
  | @snoc ss stmt hcode hfits ih =>
      have hbefore := ih fun stmt hstmt => hkeeps stmt (List.mem_append_left _ hstmt)
      have hlast := hkeeps stmt (by simp)
      refine runAll_append_retains hbefore fun m₁ hrun => ?_
      rw [runAll_single]
      exact hfits.run_retains hI hlast hw (hcode.run_typed hm hrun)

end

section

variable {I : Interp M} {P : Placement} {σ : GuestState} {slot : Slot}

/-- A write of the instruction address behind the code of an instruction. -/
theorem Stage.Sound.putCia_retains (hI : I.Bitwise) {s : Stage} {e : Expr} (hsound : s.Sound P [])
    (he : e.HasTy P.env s.scope P.gprTy) (hw : ¬P.word.Resets slot) (memory : M) :
    σ.Retains P.env.arch I.order slot (runAll I s.types
      (s.stmts.toList ++ [.put (Layout.specialOffset P.env.arch .cia) e])
      (.start memory σ)).state := by
  have hcode := hsound.code.run_retains (m := .start memory σ) hI hsound.sticky hw .nil
  refine runAll_append_retains hcode fun m hrun => ?_
  have hvalue : (e.eval I m).ty = P.env.arch.wordTy := by
    rw [he.eval_ty (hsound.code.run_typed .nil hrun), Arch.wordTy_eq]
  rw [runAll_single]
  exact GuestState.retains_writeCia hvalue

theorem Ending.run_retains (hI : I.Bitwise) {q q' : Progress} (h : Ending P () () q q')
    (hw : ¬P.word.Resets slot) (memory : M) :
    σ.Retains P.env.arch I.order slot
      (runAll I q.stage.types q.stage.stmts.toList (.start memory σ)).state := by
  cases h with
  | through s htogether hsound =>
      rw [htogether.left]
      exact hsound.code.run_retains (m := .start memory σ) hI hsound.sticky hw .nil
  | stop s kind e e' houter hsound he hkind hleft hright hnext hnext' =>
      rw [hleft, Stage.push_stmts, Stage.push_types]
      exact hsound.putCia_retains hI he.hasTy hw memory
  | followed s kind target houter hsound hkind hcut hmay hword hleft hright hnext hnext' =>
      rw [hleft, Stage.push_stmts, Stage.push_types]
      exact hsound.putCia_retains hI Paired.imm.hasTy hw memory

/-- An instruction that is lifted alone. -/
theorem Answers.run_retains (hI : I.Bitwise) {single block : Block} {left right : Report}
    (h : Answers P single block left right) (hsingle : single.types = #[])
    (hempty : single.stmts = #[]) (hw : ¬P.word.Resets slot) (memory : M) :
    σ.Retains P.env.arch I.order slot
      (runAll I left.block.types left.block.stmts.toList (.start memory σ)).state := by
  cases h with
  | refused hleft hleft_block hright hright_block =>
      rw [hleft_block, Block.stopped, hempty]
      exact GuestState.retains_writeCia (P.env.ty_address_value P.env.cia)
  | lifted q q' hook hmarked hending hleft hleft_block hright hright_block =>
      rw [hleft_block, Block.extended, hsingle, hempty, Array.empty_append, Array.empty_append]
      exact hending.run_retains hI hw memory

end

/-! ## Runs of instructions -/

/-- The word `w` is decoded and run from the machine `m`: the code that its lifting adds to some
block runs up to its end or to an exit that is taken, in a block whose temporaries include its. -/
inductive Executes (I : Interp M) (arch : Arch) (w : Insn) (m : Machine M) (flow : Flow M) :
    Prop where
  | intro (g : Guest) (harch : g.arch = arch) (code : ByteArray) (offset : Nat)
      (hinjector : Announced.scan code offset g.arch g.info.order = .hook .inject →
        g.injector = none)
      (hfetch : Insn.fetch? code offset g.info.order = some w) (cia blockStart : BitVec 64)
      (b : Block) (report : Report) (hreport : g.lift code offset cia blockStart b = report)
      (l : Lifted) (hresult : report.result = .ok l)
      (stmts : List Stmt) (hstmts : report.block.stmts.toList = b.stmts.toList ++ stmts)
      (types : Array Ty)
      (htypes : ∀ (t : Nat) (τ : Ty), report.block.types[t]? = some τ → types[t]? = some τ)
      (hflow : runAll I types stmts m = flow)

/-- Words that are decoded and run one after another. Memory may change in between. -/
inductive Executed (I : Interp M) (arch : Arch) : List Insn → GuestState → GuestState → Prop where
  | nil (σ : GuestState) : Executed I arch [] σ σ
  | cons {w : Insn} {ws : List Insn} {temps : Nat → Value} {memory : M} {flow : Flow M}
      {σ σ' : GuestState} (hfirst : Executes I arch w ⟨temps, memory, σ⟩ flow)
      (hrest : Executed I arch ws flow.state σ') : Executed I arch (w :: ws) σ σ'

section

variable {I : Interp M} {arch : Arch} {w : Insn} {ws : List Insn} {m : Machine M} {flow : Flow M}
  {σ σ' : GuestState} {slot : Slot}

/-- In a supported configuration every word runs, from every machine. -/
theorem Guest.executes {g : Guest} (hcheck : g.check = .ok ()) (hinjector : g.injector = none)
    {code : ByteArray} {offset : Nat} (hfetch : Insn.fetch? code offset g.info.order = some w)
    (I : Interp M) (m : Machine M) : ∃ flow, Executes I g.arch w m flow := by
  have hanswers : Answers _ (.empty 0) (.empty 0) _ (g.lift code offset 0 0 (.empty 0)) :=
    lift_answers hcheck hinjector hfetch rfl
  obtain ⟨_, l, types, stmts, hinStep, -⟩ := hanswers.inStep rfl rfl rfl
  refine ⟨_, .intro g rfl code offset (fun _ => hinjector) hfetch 0 0 (.empty 0) _ rfl l
    hinStep.right_result stmts.toList ?_ _ (fun _ _ h => h) rfl⟩
  rw [hinStep.block_eq, Array.toList_append]

/-- One instruction. -/
theorem Executes.retains (hI : I.Bitwise) (h : Executes I arch w m flow) (hw : ¬w.Resets slot) :
    m.state.Retains arch I.order slot flow.state := by
  obtain ⟨g, rfl, code, offset, hinjector, hfetch, cia, blockStart, b, _, rfl, l, hresult, stmts,
    hstmts, types, htypes, rfl⟩ := h
  rw [Guest.lift_closed hinjector] at hresult hstmts htypes
  have hcheck : g.closed.check = .ok () := Guest.check_of_lift hresult
  have hanswers : Answers (Guest.placementAt hcheck code offset cia blockStart b w) (.empty 0) b _
      (g.closed.lift code offset cia blockStart b) := Guest.lift_answers hcheck rfl hfetch rfl
  obtain ⟨_, _, newTypes, newStmts, hinStep, -⟩ := hanswers.inStep rfl rfl rfl
  rw [hinStep.block_eq] at hstmts htypes
  obtain rfl : newStmts.toList = stmts := by
    rw [Array.toList_append] at hstmts
    exact List.append_cancel_left hstmts
  -- The instruction does behind the block what it does alone.
  have hrelated := hinStep.related I types m.state m htypes (.refl _ _)
  have halone : m.state.Retains g.arch I.order slot _ :=
    hanswers.run_retains hI rfl rfl hw m.memory
  exact halone.trans (hrelated.state_agree fun _ _ h => h.agree).retains

/-- A run of instructions. -/
theorem Executed.retains (hI : I.Bitwise) (h : Executed I arch ws σ σ')
    (hws : ∀ w ∈ ws, ¬w.Resets slot) : σ.Retains arch I.order slot σ' := by
  induction h with
  | nil σ => exact .refl _ _ _ _
  | cons hfirst hrest ih =>
      have hhead := hfirst.retains hI (hws _ (List.mem_cons_self ..))
      exact hhead.trans (ih fun w hw => hws w (List.mem_cons_of_mem _ hw))

end

/-- The summary overflow stays set along every run in which no word moves to the exception register
or clears it, and a bit of the vector status along every run in which no word moves there. -/
theorem sticky_bits_stay {M : Type} (I : Interp M) (hI : I.Bitwise) (arch : Arch)
    (ws : List Insn) (σ σ' : GuestState) (h : Executed I arch ws σ σ') :
    ((∀ w ∈ ws, ¬w.Resets SpecialSlot.xerSo) →
      (σ (Layout.specialOffset arch .xerSo)).getLsbD 0 = true →
      (σ' (Layout.specialOffset arch .xerSo)).getLsbD 0 = true) ∧
    ((∀ w ∈ ws, ¬w.Resets SpecialSlot.vscr) →
      ∀ k, (σ.read I.order (Layout.specialOffset arch .vscr) .i32).getLsbD k = true →
        (σ'.read I.order (Layout.specialOffset arch .vscr) .i32).getLsbD k = true) := by
  constructor
  · intro hws hbit
    have hcarried := h.retains hI hws 1 ⟨Layout.specialOffset arch .xerSo, .i8⟩ rfl rfl
    simp only [GuestState.read_i8] at hcarried
    exact hcarried 0 rfl hbit
  · intro hws k hbit
    have hcarried := h.retains hI hws 0xFFFFFFFF ⟨Layout.specialOffset arch .vscr, .i32⟩ rfl rfl
    have hlt : k < 32 := BitVec.lt_of_getLsbD hbit
    have hmask : Nat.testBit 0xFFFFFFFF k = true := by
      rw [show 0xFFFFFFFF = 2 ^ 32 - 1 from rfl, Nat.testBit_two_pow_sub_one, decide_eq_true hlt]
    exact hcarried k hmask hbit

/-- A sum that records overflow, and a saturating sum of vectors behind it. -/
theorem sticky_bits_stay_sums :
    ∃ σ, Executed (.integer .big) .ppc64 [⟨0x7C642E15⟩, ⟨0x10642B00⟩] (fun _ => 1) σ ∧
      (σ (Layout.specialOffset .ppc64 .xerSo)).getLsbD 0 = true ∧
      (σ.read .big (Layout.specialOffset .ppc64 .vscr) .i32).getLsbD 16 = true := by
  have hcheck : Guest.check { arch := .ppc64 } = .ok () := rfl
  obtain ⟨flow, hsum⟩ := Guest.executes hcheck rfl
    (show Insn.fetch? ⟨#[0x7C, 0x64, 0x2E, 0x15]⟩ 0 .big = some ⟨0x7C642E15⟩ by decide)
    (.integer .big) (.start () fun _ => 1)
  obtain ⟨flow', hsums⟩ := Guest.executes hcheck rfl
    (show Insn.fetch? ⟨#[0x10, 0x64, 0x2B, 0x00]⟩ 0 .big = some ⟨0x10642B00⟩ by decide)
    (.integer .big) (.start () flow.state)
  have hrun := Executed.cons hsum (.cons hsums (.nil flow'.state))
  have hstay := sticky_bits_stay _ (Interp.integer_bitwise .big) _ _ _ _ hrun
  exact ⟨flow'.state, hrun, hstay.1 (by decide) (by decide), hstay.2 (by decide) 16 (by decide)⟩

end PowerLift
