import PowerLift.Proofs.Formation
import PowerLift.Proofs.RegisterFile

/-!
# Precise faults

An alignment fault or a trap is taken before its instruction has done anything, and leads back to
it: what is left is the memory and the guest state from before the instruction, at its address.
-/

namespace PowerLift

/-! ## Faults in code -/

/-- Whether an exit is an alignment fault or a trap. -/
def JumpKind.isFault (kind : JumpKind) : Bool := kind == .sigBus || kind == .sigTrap

/-- A statement that leads back to the instruction, behind statements that have done nothing, if it
is a fault. -/
def Stmt.Precise (env : Env) (before : List Stmt) (stmt : Stmt) : Prop :=
  ∀ guard kind target ipOffset, stmt = .exit guard kind target ipOffset → kind.isFault = true →
    target = env.address env.cia ∧ ipOffset = Layout.specialOffset env.arch .cia ∧
      ∀ s ∈ before, s.isQuiet = true

theorem Env.address_cutAddress (env : Env) (a : BitVec 64) :
    env.address (env.cutAddress a) = env.address a := by
  unfold cutAddress address
  cases env.arch.is64 with
  | true => rfl
  | false =>
      have hcut : (a &&& 0xFFFFFFFF).setWidth 32 = a.setWidth 32 := by
        rw [low_mask, BitVec.setWidth_setWidth_of_le _ (by decide), BitVec.setWidth_eq]
      exact congrArg Const.u32 hcut

theorem Emitted.precise {env : Env} {types : Array Ty} {ss : List Stmt} {stmt : Stmt}
    (h : Emitted env types ss stmt) : stmt.Precise env ss := by
  rintro guard kind target ipOffset rfl hkind
  cases h with
  | fits h =>
      cases h with
      | exit _ _ address hguard hfault =>
          have hkind : kind = .sigBus ∨ kind = .sigTrap := by simpa [JumpKind.isFault] using hkind
          obtain ⟨rfl, hquiet⟩ := hfault hkind
          exact ⟨env.address_cutAddress env.cia, rfl, hquiet⟩

theorem Stmt.isQuiet_shift (k : Nat) (stmt : Stmt) : (stmt.shift k).isQuiet = stmt.isQuiet := by
  cases stmt <;> rfl

theorem Stmt.Precise.shift {env : Env} {before : List Stmt} {stmt : Stmt}
    (h : stmt.Precise env before) (k : Nat) :
    (stmt.shift k).Precise env (before.map (Stmt.shift k)) := by
  intro guard kind target ipOffset heq hkind
  cases stmt with
  | exit guard' kind' target' ipOffset' =>
      obtain ⟨-, rfl, rfl, rfl⟩ := Stmt.exit.inj heq
      obtain ⟨htarget, hip, hquiet⟩ := h guard' _ _ _ rfl hkind
      refine ⟨htarget, hip, fun s hs => ?_⟩
      obtain ⟨s, hmem, rfl⟩ := List.mem_map.mp hs
      rw [isQuiet_shift]
      exact hquiet s hmem
  | _ => cases heq

/-! ## Faults in runs -/

section

variable {M : Type} {I : Interp M} {types : Array Ty} {m m' : Machine M} {out : Left M}

/-- Only temporaries have changed. -/
structure Machine.Untouched (m m' : Machine M) : Prop where
  memory : m'.memory = m.memory
  state : m'.state = m.state

theorem Stmt.run_quiet {stmt : Stmt} (hquiet : stmt.isQuiet = true)
    (hrun : stmt.run I types m = .behind m') : m.Untouched m' := by
  cases stmt with
  | mark addr len delta =>
      obtain rfl := Flow.behind.inj hrun
      exact ⟨rfl, rfl⟩
  | bind t value =>
      obtain rfl := Flow.behind.inj hrun
      exact ⟨rfl, rfl⟩
  | exit guard kind target ipOffset =>
      rw [Stmt.run] at hrun
      split at hrun
      · contradiction
      · obtain rfl := Flow.behind.inj hrun
        exact ⟨rfl, rfl⟩
  | _ => contradiction

theorem runAll_quiet {ss : List Stmt} (hquiet : ∀ stmt ∈ ss, stmt.isQuiet = true)
    (hrun : runAll I types ss m = .behind m') : m.Untouched m' := by
  induction ss generalizing m with
  | nil =>
      obtain rfl := Flow.behind.inj hrun
      exact ⟨rfl, rfl⟩
  | cons stmt ss ih =>
      rw [runAll] at hrun
      cases hstmt : stmt.run I types m with
      | left out => simp [hstmt, Flow.andThen] at hrun
      | behind m₁ =>
          rw [hstmt] at hrun
          have hfirst := Stmt.run_quiet (hquiet stmt List.mem_cons_self) hstmt
          have hrest := ih (fun s hs => hquiet s (List.mem_cons_of_mem stmt hs)) hrun
          exact ⟨hrest.memory.trans hfirst.memory, hrest.state.trans hfirst.state⟩

/-- Only exits leave a block. -/
theorem Stmt.eq_exit_of_left {stmt : Stmt} (hrun : stmt.run I types m = .left out) :
    ∃ guard target ipOffset, stmt = .exit guard out.kind target ipOffset ∧
      out = ⟨target.value.address, out.kind, m.memory,
        m.state.write I.order ipOffset target.value⟩ := by
  cases stmt with
  | exit guard kind target ipOffset =>
      rw [Stmt.run] at hrun
      split at hrun
      · obtain rfl := Flow.left.inj hrun
        exact ⟨guard, target, ipOffset, rfl, rfl⟩
      · contradiction
  | _ => contradiction

/-- The machine was left as it was before an instruction, at the address of the instruction. -/
structure Left.Restarts (env : Env) (order : ByteOrder) (m : Machine M) (out : Left M) : Prop where
  pc : out.pc = env.cutAddress env.cia
  memory : out.memory = m.memory
  state : out.state = m.state.write order (Layout.specialOffset env.arch .cia)
    (env.address env.cia).value
  /-- Where the state has the address of the instruction, not even that is new. -/
  unchanged : (env.address env.cia).value = ⟨env.arch.wordTy,
      m.state.read order (Layout.specialOffset env.arch .cia) env.arch.wordTy⟩ →
    out.state = m.state

theorem Trail.run_restarts {env : Env} {ss : List Stmt} (h : Trail (Stmt.Precise env) ss)
    (hrun : runAll I types ss m = .left out) (hkind : out.kind.isFault = true) :
    out.Restarts env I.order m := by
  induction h with
  | nil => contradiction
  | @snoc ss stmt _ hprecise ih =>
      rw [runAll_append] at hrun
      cases hss : runAll I types ss m with
      | left out' =>
          -- The exit was taken further up.
          rw [hss] at hrun
          obtain rfl := Flow.left.inj hrun
          exact ih hss
      | behind m' =>
          rw [hss, Flow.andThen, runAll_single] at hrun
          obtain ⟨guard, target, ipOffset, hstmt, hout⟩ := Stmt.eq_exit_of_left hrun
          obtain ⟨rfl, rfl, hquiet⟩ := hprecise guard out.kind target ipOffset hstmt hkind
          have huntouched := runAll_quiet hquiet hss
          have hstate : out.state = m.state.write I.order (Layout.specialOffset env.arch .cia)
              (env.address env.cia).value := by
            rw [hout, huntouched.state]
          refine ⟨?_, ?_, hstate, fun hcia => ?_⟩
          · rw [hout, env.address_value_address]
          · rw [hout, huntouched.memory]
          · rw [hstate, hcia, GuestState.write_read env.arch.wordTy_ne_i1]

end

/-! ## Whole instructions -/

namespace Guest

/-- Faults are precise: an alignment fault or a trap stands before all that its instruction does and
leads back to it, and wherever it is taken, memory and guest state are those from before. -/
theorem faults_restart (g : Guest) (code : ByteArray) (offset : Nat) (cia blockStart : BitVec 64)
    (block : Block) (hinjector : Announced.scan code offset g.arch g.info.order = .hook .inject →
      g.injector = none) (l : Lifted)
    (hresult : (g.lift code offset cia blockStart block).result = .ok l) :
    ∃ stmts : List Stmt,
      (g.lift code offset cia blockStart block).block.stmts.toList =
        block.stmts.toList ++ stmts ∧
      (∀ before stmt after, stmts = before ++ stmt :: after →
        stmt.Precise (g.env cia blockStart) before) ∧
      ∀ (M : Type) (I : Interp M) (types : Array Ty) (m : Machine M) (out : Left M),
        runAll I types stmts m = .left out → out.kind.isFault = true →
          out.Restarts (g.env cia blockStart) I.order m := by
  obtain ⟨types, ss, htrail, -, hstmts⟩ := lift_emitted hinjector hresult
  have hprecise : Trail (Stmt.Precise (g.env cia blockStart))
      (ss.map (Stmt.shift block.types.size)) :=
    htrail.map fun _ _ h => h.precise.shift _
  refine ⟨_, hstmts, ?_, ?_⟩
  · intro before stmt after heq
    have hget : (ss.map (Stmt.shift block.types.size))[before.length]? = some stmt := by
      simp [heq]
    have hbefore := hprecise.fits_take hget
    rwa [heq, List.take_left] at hbefore
  · intro M I types' m out hrun hkind
    exact hprecise.run_restarts hrun hkind

/-- An unconditional trap is taken whatever the state, and leaves it so. -/
theorem faults_restart_trap :
    (lift { arch := .ppc64 } ⟨#[0x7F, 0xE0, 0, 8]⟩ 0 0x1000 0x1000 (.empty 1280)).result =
      .ok ⟨4, .stop .boring, none⟩ ∧
    ∀ (M : Type) (I : Interp M) (m : Machine M), ∃ out,
      runAll I #[] (lift { arch := .ppc64 } ⟨#[0x7F, 0xE0, 0, 8]⟩ 0 0x1000 0x1000
        (.empty 1280)).block.stmts.toList m = .left out ∧ out.kind = .sigTrap ∧
        out.Restarts (env { arch := .ppc64 } 0x1000 0x1000) I.order m := by
  have hresult : (lift { arch := .ppc64 } ⟨#[0x7F, 0xE0, 0, 8]⟩ 0 0x1000 0x1000
      (.empty 1280)).result = .ok ⟨4, .stop .boring, none⟩ := by decide +kernel
  have hcode : (lift { arch := .ppc64 } ⟨#[0x7F, 0xE0, 0, 8]⟩ 0 0x1000 0x1000
      (.empty 1280)).block.stmts.toList =
      [.mark 0x1000 4 0, .exit (.u1 true) .sigTrap (.u64 0x1000) 1280,
        .put 1280 (.const (.u64 0x1004))] := rfl
  obtain ⟨stmts, hstmts, -, hruns⟩ :=
    faults_restart { arch := .ppc64 } _ 0 0x1000 0x1000 (.empty 1280) (fun _ => rfl) _ hresult
  have hall : stmts = (lift { arch := .ppc64 } ⟨#[0x7F, 0xE0, 0, 8]⟩ 0 0x1000 0x1000
      (.empty 1280)).block.stmts.toList := by
    rw [hstmts]
    rfl
  refine ⟨hresult, fun M I m => ?_⟩
  have hrun : runAll I #[] stmts m =
      .left ⟨0x1000, .sigTrap, m.memory, m.state.write I.order 1280 ⟨.i64, 0x1000⟩⟩ := by
    rw [hall, hcode]
    rfl
  rw [← hall]
  exact ⟨_, hrun, rfl, hruns M I #[] m _ hrun rfl⟩

end Guest

end PowerLift
