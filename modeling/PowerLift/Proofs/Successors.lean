import PowerLift.Proofs.ControlFlow
import PowerLift.Proofs.Formation
import PowerLift.Proofs.PreciseFaults

/-!
# The successors of a block

A block that is formed at a word-aligned address lists aligned addresses as its successors, and can
be left only for one of them: unless what it writes last to the instruction address is computed.
Until the end of a block its code writes no instruction address, so no earlier write is left over
where the block ends at a limit or at the end of the image.
-/

namespace PowerLift

/-! ## Literals that are addresses -/

/-- An aligned address, as a literal of the width of the mode. -/
inductive Const.Aligned : Arch → Const → Prop where
  | u32 (a : BitVec 32) (ha : a.toNat % 4 = 0) : Aligned .ppc32 (.u32 a)
  | u64 (a : BitVec 64) (ha : a.toNat % 4 = 0) : Aligned .ppc64 (.u64 a)

/-- The address as which a literal is listed. -/
def Const.listed? (c : Const) : Option (BitVec 64) := c.toNat?.map (BitVec.ofNat 64)

namespace Const.Aligned

variable {arch : Arch} {c : Const}

theorem ty_value (h : c.Aligned arch) : c.value.ty = arch.wordTy := by
  cases h <;> rfl

/-- The address that is listed is the one to which the literal leads. -/
theorem listed (h : c.Aligned arch) : c.listed? = some c.value.address := by
  cases h with
  | u32 a ha => exact congrArg some (BitVec.ofNat_toNat 64 a)
  | u64 a ha => exact congrArg some (BitVec.ofNat_toNat 64 a)

theorem address_aligned (h : c.Aligned arch) : c.value.address % 4 = 0 := by
  rw [aligned_iff]
  cases h with
  | u32 a ha =>
      change (a.setWidth 64).toNat % 4 = 0
      rw [BitVec.toNat_setWidth]
      omega
  | u64 a ha =>
      change (a.setWidth 64).toNat % 4 = 0
      rwa [BitVec.setWidth_eq]

end Const.Aligned

theorem Env.address_aligned (env : Env) {a : BitVec 64} (h : a % 4 = 0) :
    (env.address a).Aligned env.arch := by
  rw [aligned_iff] at h
  unfold address
  cases env.arch with
  | ppc32 =>
      refine .u32 _ ?_
      rw [BitVec.toNat_setWidth]
      omega
  | ppc64 => exact .u64 a h

theorem Expr.asConst?_shift (k : Nat) (e : Expr) : (e.shift k).asConst? = e.asConst? := by
  cases e <;> rfl

/-! ## Listed successors -/

namespace Block

variable {b : Block}

/-- The expression that a block writes last to the instruction address. -/
def lastWrite? (b : Block) : Option Expr :=
  (b.stmts.toList.filterMap fun
    | .put offset value => if offset = b.ipOffset then some value else none
    | _ => none).getLast?

theorem lastAddress?_eq (b : Block) :
    b.lastAddress? = b.lastWrite?.bind fun e => e.asConst?.bind Const.listed? := by
  unfold lastAddress? lastWrite?
  rw [← Array.foldl_toList]
  induction b.stmts.toList using List.reverseRecOn with
  | nil => rfl
  | append_singleton ss stmt ih =>
      rw [List.foldl_concat, List.filterMap_append]
      cases stmt with
      | put offset value =>
          by_cases hip : offset = b.ipOffset
          · simp only [hip, if_true, List.filterMap_cons, List.filterMap_nil,
              List.getLast?_concat, Option.bind_some]
            cases value.asConst? <;> rfl
          · simpa only [hip, if_false, List.filterMap_cons, List.filterMap_nil,
              List.append_nil] using ih
      | _ => simpa only [List.filterMap_cons, List.filterMap_nil, List.append_nil] using ih

/-- A block is left at the end for a literal that is its target, or that it has written last. -/
theorem mem_successors {a : BitVec 64} : a ∈ b.successors ↔ a ∈ b.exits ∨
    b.kind ∈ [.boring, .call, .sysSyscall] ∧
      (match b.next.bind Expr.asConst? with
        | some c => c.listed?
        | none => b.lastWrite?.bind fun e => e.asConst?.bind Const.listed?) = some a := by
  rw [← lastAddress?_eq, successors, List.mem_append, Option.mem_toList]
  cases b.kind <;> simp <;> rfl

theorem mem_exits {a : BitVec 64} : a ∈ b.exits ↔ ∃ guard kind target offset,
    .exit guard kind target offset ∈ b.stmts.toList ∧ target.listed? = some a := by
  unfold exits
  rw [List.mem_filterMap]
  constructor
  · rintro ⟨stmt, hstmt, ha⟩
    cases stmt with
    | exit guard kind target offset => exact ⟨guard, kind, target, offset, hstmt, ha⟩
    | _ => contradiction
  · rintro ⟨guard, kind, target, offset, hstmt, ha⟩
    exact ⟨_, hstmt, ha⟩

end Block

/-! ## Code before the end of a block -/

/-- A statement that does not write the instruction address, and may leave for an aligned one. -/
def Stmt.Stays (arch : Arch) (ipOffset : Nat) : Stmt → Prop
  | .put offset _ => offset ≠ ipOffset
  | .exit _ _ target _ => target.Aligned arch
  | _ => True

theorem Stmt.Stays.shift {arch : Arch} {ipOffset : Nat} {stmt : Stmt}
    (h : stmt.Stays arch ipOffset) (k : Nat) : (stmt.shift k).Stays arch ipOffset := by
  cases stmt <;> exact h

theorem Fits.stays {env : Env} {types : Array Ty} {ss : List Stmt} {stmt : Stmt}
    (h : Fits env types ss stmt) (hcia : env.cia % 4 = 0) :
    stmt.Stays env.arch (Layout.specialOffset env.arch .cia) := by
  have hput := fun (o : Nat) (e : Expr) (heq : stmt = .put o e) => (heq ▸ h).put_ne_cia
  cases h with
  | put p e hp he => exact hput p.offset e rfl
  | exit guard kind target hguard hfault haligned =>
      exact env.address_aligned (Env.cutAddress_aligned (haligned hcia))
  | _ => trivial

theorem Stage.Sound.stays {P : Placement} {s : Stage} {pending : List Nat}
    (h : s.Sound P pending) (hcia : P.env.cia % 4 = 0) :
    ∀ stmt ∈ (s.on P.outer).stmts.toList,
      stmt.Stays P.env.arch (Layout.specialOffset P.env.arch .cia) := by
  intro stmt hstmt
  rw [on, Array.toList_map] at hstmt
  obtain ⟨stmt, hmem, rfl⟩ := List.mem_map.mp hstmt
  obtain ⟨i, hi⟩ := List.mem_iff_getElem?.mp hmem
  exact ((h.code.fits_take hi).stays hcia).shift _

/-! ## Blocks that are formed -/

namespace Guest

/-- A block whose code so far does not write the instruction address. -/
structure Open (g : Guest) (b : Block) : Prop where
  ipOffset_eq : b.ipOffset = g.emptyBlock.ipOffset
  stays : ∀ stmt ∈ b.stmts.toList, stmt.Stays g.arch b.ipOffset

/-- A block whose code writes the instruction address at its end, behind `ss`. A literal that is
written is an aligned address. -/
structure Written (g : Guest) (b : Block) (ss : List Stmt) (e : Expr) : Prop where
  stmts_eq : b.stmts.toList = ss ++ [.put b.ipOffset e]
  stays : ∀ stmt ∈ ss, stmt.Stays g.arch b.ipOffset
  aligned : ∀ c, e.asConst? = some c → c.Aligned g.arch

/-- What an instruction at an aligned address leaves of a block that is being formed. -/
inductive Answered (g : Guest) (b : Block) (lifted : Lifted) : Prop where
  | onward (hnext : lifted.next = .continue) (hlength : BitVec.ofNat 64 lifted.length % 4 = 0)
      (hopen : g.Open b)
  | followed (target : BitVec 64) (hnext : lifted.next = .resteer target)
      (htarget : target % 4 = 0) (hopen : g.Open b)
  | stopped (kind : JumpKind) (hnext : lifted.next = .stop kind) (ss : List Stmt) (e : Expr)
      (hwritten : g.Written b ss e)

/-- A block that is left for a fixed address, or for what its code has written. -/
inductive Ended (g : Guest) (b : Block) : Prop where
  | fixed (c : Const) (hc : c.Aligned g.arch) (hopen : g.Open b) (hnext : b.next = some (.const c))
  | written (ss : List Stmt) (e : Expr) (hwritten : g.Written b ss e)
      (hnext : b.next = some (.get b.ipOffset g.arch.wordTy))

variable {g : Guest} {b : Block}

theorem open_emptyBlock (g : Guest) : g.Open g.emptyBlock where
  ipOffset_eq := rfl
  stays := by simp [emptyBlock, Block.empty]

theorem Open.extended (h : g.Open b) {s : Stage}
    (hs : ∀ stmt ∈ s.stmts.toList, stmt.Stays g.arch b.ipOffset) : g.Open (b.extended s) where
  ipOffset_eq := h.ipOffset_eq
  stays := by
    rw [Block.extended, Array.toList_append]
    exact List.forall_mem_append.mpr ⟨h.stays, hs⟩

/-- A write of the instruction address behind more code. -/
theorem Open.written (h : g.Open b) {s : Stage}
    (hs : ∀ stmt ∈ s.stmts.toList, stmt.Stays g.arch b.ipOffset) {e : Expr}
    (he : ∀ c, e.asConst? = some c → c.Aligned g.arch) :
    g.Written (b.extended (s.push (.put b.ipOffset e))) (b.stmts.toList ++ s.stmts.toList) e where
  stmts_eq := by
    rw [Block.extended, Array.toList_append, Stage.push_stmts, ← List.append_assoc]
  stays := List.forall_mem_append.mpr ⟨h.stays, hs⟩
  aligned := he

end Guest

/-- A literal to which an instruction leads is an aligned address. -/
theorem Placement.Leads.aligned {P : Placement} {e : Expr} (h : P.Leads e)
    (hcia : P.env.cia % 4 = 0) {c : Const} (hc : e.asConst? = some c) : c.Aligned P.env.arch := by
  obtain ⟨a, ha, rfl⟩ := h hcia c hc
  exact P.env.address_aligned ha

theorem Answers.answered {P : Placement} {single b : Block} {left right : Report} {lifted : Lifted}
    (h : Answers P single b left right) (hcia : P.env.cia % 4 = 0) {g : Guest}
    (harch : P.env.arch = g.arch) (hlayout : P.env.layout = g.layout) (hopen : g.Open b)
    (hresult : right.result = .ok lifted) : g.Answered right.block lifted := by
  have hip : Layout.specialOffset P.env.arch .cia = b.ipOffset := by
    rw [hopen.ipOffset_eq, ← P.layout_eq, hlayout]
    rfl
  have hstays : ∀ s : Stage, s.Sound P [] → ∀ stmt ∈ (s.on P.outer).stmts.toList,
      stmt.Stays g.arch b.ipOffset := by
    intro s hsound
    rw [← harch, ← hip]
    exact hsound.stays hcia
  cases h with
  | refused hleft hleft_block hright hright_block =>
      obtain rfl := Except.ok.inj (hright.symm.trans hresult)
      rw [hright_block, Block.stopped, hip]
      refine .stopped .noDecode rfl b.stmts.toList (P.env.imm P.env.cia)
        ⟨Array.toList_push, hopen.stays, ?_⟩
      rw [← harch]
      exact fun c => (Placement.leads_imm id).aligned hcia
  | lifted q q' hook hmarked hending hleft hleft_block hright hright_block =>
      obtain rfl := Except.ok.inj (hright.symm.trans hresult)
      rw [hright_block]
      cases hending with
      | through s htogether hsound =>
          rw [htogether.right]
          refine .onward htogether.right_next ?_ (hopen.extended (hstays s hsound))
          cases hook <;> simp [Hook.span, Hook.length]
      | stop s kind e e' houter hsound he hkind hleft hright hnext hnext' hleads =>
          rw [hright, hip]
          refine .stopped kind hnext' _ e' (hopen.written (hstays s hsound) fun c hc => ?_)
          rw [he.shift_eq, Expr.asConst?_shift] at hc
          exact harch ▸ hleads.aligned hcia hc
      | followed s kind target houter hsound hkind hcut hmay hword hleft hright hnext hnext'
          haligned =>
          rw [hright]
          exact .followed target hnext' (haligned hcia) (hopen.extended (hstays s hsound))

namespace Guest

variable {g : Guest} {image : Image} {start addr : BitVec 64} {budget : Nat} {b : Block}
  {report : Report} {lifted : Lifted} {formed formed' : Formed}

open Session (Returns returns_pure)

theorem step_answered (hinjector : g.injector = none) {follow : BitVec 64 → Bool}
    (haddr : addr % 4 = 0) (hopen : g.Open b)
    (hstep : g.step image addr start follow b = some report)
    (hresult : report.result = .ok lifted) : g.Answered report.block lifted := by
  obtain ⟨offset, hcheck, w, left, -, hanswers⟩ := step_answers hinjector hstep hresult
  exact hanswers.answered haddr rfl rfl hopen hresult

theorem endAt_ended (hopen : g.Open b) (haddr : addr % 4 = 0) : g.Ended (g.endAt b addr) :=
  .fixed _ ((g.env addr addr).address_aligned haddr) ⟨hopen.ipOffset_eq, hopen.stays⟩ rfl

/-- Forming keeps the block open until it ends. -/
theorem extend_ended (hinjector : g.injector = none) (haddr : addr % 4 = 0)
    (hopen : g.Open formed.block) (h : Returns (g.extend image start budget addr formed) formed') :
    g.Ended formed'.block := by
  induction budget generalizing addr formed with
  | zero =>
      obtain rfl := returns_pure h
      exact endAt_ended hopen haddr
  | succ budget ih =>
      cases extend_extends h with
      | outside _ hformed =>
          subst hformed
          exact endAt_ended hopen haddr
      | onward report lifted hstep hresult hnext hrest =>
          cases step_answered hinjector haddr hopen hstep hresult with
          | onward _ hlength hopen => exact ih (add_aligned haddr hlength) hopen hrest
          | followed target hnext' | stopped kind hnext' =>
              rw [hnext] at hnext'
              contradiction
      | followed report lifted target hstep hresult hnext hrest =>
          cases step_answered hinjector haddr hopen hstep hresult with
          | followed target' hnext' htarget hopen =>
              obtain rfl : target = target' := by simpa [hnext] using hnext'
              exact ih htarget hopen hrest
          | onward hnext' | stopped kind hnext' =>
              rw [hnext] at hnext'
              contradiction
      | stopped report lifted kind hstep hresult hnext hformed =>
          subst hformed
          cases step_answered hinjector haddr hopen hstep hresult with
          | stopped kind' _ ss e hwritten =>
              exact .written ss e ⟨hwritten.stmts_eq, hwritten.stays, hwritten.aligned⟩ rfl
          | onward hnext' | followed target hnext' =>
              rw [hnext] at hnext'
              contradiction

/-! ## Leaving a block -/

/-- What is written at the end is what is written last. -/
theorem Written.lastWrite?_eq {ss : List Stmt} {e : Expr} (h : g.Written b ss e) :
    b.lastWrite? = some e := by
  rw [Block.lastWrite?, h.stmts_eq, List.filterMap_append]
  simp

namespace Ended

theorem exit_aligned (h : g.Ended b) {guard : Expr} {kind : JumpKind} {target : Const}
    {offset : Nat} (hexit : .exit guard kind target offset ∈ b.stmts.toList) :
    target.Aligned g.arch := by
  cases h with
  | fixed c hc hopen hnext => exact hopen.stays _ hexit
  | written ss e hwritten hnext =>
      rw [hwritten.stmts_eq] at hexit
      rcases List.mem_append.mp hexit with hss | hput
      · exact hwritten.stays _ hss
      · simp at hput

theorem successors_aligned (h : g.Ended b) {a : BitVec 64} (ha : a ∈ b.successors) : a % 4 = 0 := by
  have hlisted : ∀ c : Const, c.Aligned g.arch → c.listed? = some a → a % 4 = 0 := by
    intro c hc ha
    obtain rfl : c.value.address = a := Option.some.inj (hc.listed.symm.trans ha)
    exact hc.address_aligned
  rcases Block.mem_successors.mp ha with ha | ⟨-, ha⟩
  · obtain ⟨guard, kind, target, offset, hexit, ha⟩ := Block.mem_exits.mp ha
    exact hlisted target (h.exit_aligned hexit) ha
  · cases h with
    | fixed c hc hopen hnext =>
        rw [hnext] at ha
        exact hlisted c hc ha
    | written ss e hwritten hnext =>
        have hwrite : e.asConst?.bind Const.listed? = some a := by
          rw [hnext, hwritten.lastWrite?_eq] at ha
          exact ha
        obtain ⟨c, hc, hwrite⟩ := Option.bind_eq_some_iff.mp hwrite
        exact hlisted c (hwritten.aligned c hc) hwrite

end Ended

end Guest

section

variable {M : Type} {I : Interp M} {types : Array Ty} {m m' : Machine M} {l : Left M}

/-- A run that leaves has taken an exit. -/
theorem runAll_left {ss : List Stmt} (hrun : runAll I types ss m = .left l) :
    ∃ guard target offset, .exit guard l.kind target offset ∈ ss ∧ l.pc = target.value.address := by
  induction ss generalizing m with
  | nil => contradiction
  | cons stmt ss ih =>
      rw [runAll] at hrun
      cases hstmt : stmt.run I types m with
      | left out =>
          rw [hstmt] at hrun
          obtain rfl := Flow.left.inj hrun
          obtain ⟨guard, target, offset, hexit, hout⟩ := Stmt.eq_exit_of_left hstmt
          exact ⟨guard, target, offset, hexit ▸ List.mem_cons_self, by rw [hout]⟩
      | behind m₁ =>
          rw [hstmt] at hrun
          obtain ⟨guard, target, offset, hexit, hpc⟩ := ih hrun
          exact ⟨guard, target, offset, List.mem_cons_of_mem stmt hexit, hpc⟩

/-- A run that is behind a write has written. -/
theorem runAll_put {ss : List Stmt} {offset : Nat} {e : Expr}
    (hrun : runAll I types (ss ++ [.put offset e]) m = .behind m') :
    ∃ m₁ : Machine M, m'.state = m₁.state.write I.order offset (e.eval I m₁) := by
  rw [runAll_append] at hrun
  cases hss : runAll I types ss m with
  | left out =>
      rw [hss] at hrun
      contradiction
  | behind m₁ =>
      rw [hss, Flow.andThen, runAll_single] at hrun
      obtain rfl := Flow.behind.inj hrun
      exact ⟨m₁, rfl⟩

namespace Guest.Ended

variable {g : Guest} {b : Block}

theorem left_listed (h : g.Ended b) (hrun : runAll I types b.stmts.toList m = .left l) :
    l.pc ∈ b.successors := by
  obtain ⟨guard, target, offset, hexit, hpc⟩ := runAll_left hrun
  have hlisted : target.listed? = some l.pc := by
    rw [hpc]
    exact (h.exit_aligned hexit).listed
  have hmem := Block.mem_exits.mpr ⟨guard, l.kind, target, offset, hexit, hlisted⟩
  exact Block.mem_successors.mpr (.inl hmem)

/-- The end of a block is listed, unless what was written last is computed. -/
theorem behind_listed (h : g.Ended b) (hrun : runAll I types b.stmts.toList m = .behind m') :
    ∃ next, b.next = some next ∧ (b.kind ∈ [.boring, .call, .sysSyscall] →
      (next.eval I m').address ∈ b.successors ∨
        ∃ e, b.lastWrite? = some e ∧ e.asConst? = none) := by
  cases h with
  | fixed c hc hopen hnext =>
      refine ⟨.const c, hnext, fun hkind => ?_⟩
      refine .inl (Block.mem_successors.mpr (.inr ⟨hkind, ?_⟩))
      rw [hnext]
      exact hc.listed
  | written ss e hwritten hnext =>
      refine ⟨_, hnext, fun hkind => ?_⟩
      cases he : e.asConst? with
      | none => exact .inr ⟨e, hwritten.lastWrite?_eq, he⟩
      | some c =>
          have hc : c.Aligned g.arch := hwritten.aligned c he
          obtain rfl : e = .const c := by
            cases e <;> simp_all [Expr.asConst?]
          rw [hwritten.stmts_eq] at hrun
          obtain ⟨m₁, hstate⟩ := runAll_put hrun
          -- What is read back is the literal that was written.
          have hpc : ((Expr.get b.ipOffset g.arch.wordTy).eval I m').address = c.value.address := by
            simp only [Expr.eval, Value.address, hstate]
            exact GuestState.read_write_address hc.ty_value g.arch.wordTy_ne_i1
          refine .inl (Block.mem_successors.mpr (.inr ⟨hkind, ?_⟩))
          rw [hnext, hwritten.lastWrite?_eq, hpc]
          exact hc.listed

end Guest.Ended

end

/-! ## Formed blocks -/

/-- A block that is formed at an aligned address lists aligned successors. A run of the block leaves
for one of them, or it ends with a computed write of the instruction address, or for another reason
than to go on. -/
theorem Guest.successors_sound (g : Guest) (hinjector : g.injector = none) (image : Image)
    (start : BitVec 64) (hstart : start % 4 = 0) (maxInsns : Nat) (formed : Formed)
    (hform : (g.form image start maxInsns).exec.1 = .ok formed) :
    (∀ a ∈ formed.block.successors, a % 4 = 0) ∧
    ∀ (M : Type) (I : Interp M) (memory : M) (σ : GuestState),
      (∀ l, runAll I formed.block.types formed.block.stmts.toList (.start memory σ) = .left l →
        l.pc ∈ formed.block.successors) ∧
      ∀ m, runAll I formed.block.types formed.block.stmts.toList (.start memory σ) = .behind m →
        ∃ next, formed.block.next = some next ∧
          (formed.block.kind ∈ [.boring, .call, .sysSyscall] →
            (next.eval I m).address ∉ formed.block.successors →
            ∃ e, formed.block.lastWrite? = some e ∧ e.asConst? = none) := by
  have hreturns : Session.Returns (g.form image start maxInsns) formed :=
    ⟨{}, _, Prod.ext hform rfl⟩
  have hended : g.Ended formed.block := extend_ended hinjector hstart (open_emptyBlock g) hreturns
  refine ⟨fun a ha => hended.successors_aligned ha, fun M I memory σ => ⟨?_, ?_⟩⟩
  · intro l hrun
    exact hended.left_listed hrun
  · intro m hrun
    obtain ⟨next, hnext, hlisted⟩ := hended.behind_listed hrun
    exact ⟨next, hnext, fun hkind hpc => (hlisted hkind).resolve_left hpc⟩

/-- A conditional branch, which can be left for its target and for the next word. -/
theorem Guest.successors_sound_branch :
    let image : Image := ⟨0x1000, ⟨#[0x41, 0x82, 0, 8]⟩⟩
    ∃ formed, (form { arch := .ppc64 } image 0x1000 8).exec.1 = .ok formed ∧
      formed.block.successors = [0x1008, 0x1004] ∧
      ∀ (M : Type) (I : Interp M) (memory : M) (σ : GuestState) (l : Left M),
        runAll I formed.block.types formed.block.stmts.toList (.start memory σ) = .left l →
          l.pc ∈ ([0x1008, 0x1004] : List (BitVec 64)) := by
  intro image
  have hlist : (form { arch := .ppc64 } image 0x1000 8).exec.1.toOption.map
      (fun formed => formed.block.successors) = some [0x1008, 0x1004] := by decide +kernel
  cases hform : (form { arch := .ppc64 } image 0x1000 8).exec.1 with
  | error f =>
      rw [hform] at hlist
      contradiction
  | ok formed =>
      rw [hform] at hlist
      have hsuccessors : formed.block.successors = [0x1008, 0x1004] := Option.some.inj hlist
      refine ⟨formed, rfl, hsuccessors, fun M I memory σ l hrun => ?_⟩
      obtain ⟨-, hruns⟩ :=
        successors_sound { arch := .ppc64 } rfl image 0x1000 rfl 8 formed hform
      rw [← hsuccessors]
      exact (hruns M I memory σ).1 l hrun

end PowerLift
