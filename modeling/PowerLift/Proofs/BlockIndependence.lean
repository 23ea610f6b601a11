import PowerLift.Proofs.Routes
import PowerLift.Proofs.WellFormed

/-!
# Code does not depend on its block

The code that an instruction adds to a block is its code alone, with temporaries numbered on from
those of the block. Only the write of a target is left out where a branch is followed, and that is up
to the word and the configuration. So all blocks get the same code up to the numbers of temporaries,
and no code mentions a temporary that its block had before.
-/

namespace PowerLift

/-! ## Renaming -/

namespace Expr

mutual

/-- An expression with its temporaries renamed. -/
def rename (f : Nat → Nat) : Expr → Expr
  | .get offset ty => .get offset ty
  | .tmp t => .tmp (f t)
  | .const c => .const c
  | .apply op args => .apply op (renameAll f args)
  | .load order ty addr => .load order ty (rename f addr)
  | .ite cond yes no => .ite (rename f cond) (rename f yes) (rename f no)
  | .call helper ret args => .call helper ret (renameAll f args)

/-- Several expressions with their temporaries renamed. -/
def renameAll (f : Nat → Nat) : List Expr → List Expr
  | [] => []
  | e :: es => rename f e :: renameAll f es

end

variable {f : Nat → Nat} {k k' : Nat}

mutual

theorem rename_shift (hf : ∀ t, f (k + t) = k' + t) : ∀ e : Expr, (e.shift k).rename f = e.shift k'
  | .get _ _ | .const _ => rfl
  | .tmp t => congrArg Expr.tmp (hf t)
  | .apply _ args | .call _ _ args => by
      simp only [shift, rename, renameAll_shiftAll hf args]
  | .load _ _ addr => by simp only [shift, rename, rename_shift hf addr]
  | .ite cond yes no => by
      simp only [shift, rename, rename_shift hf cond, rename_shift hf yes, rename_shift hf no]

theorem renameAll_shiftAll (hf : ∀ t, f (k + t) = k' + t) :
    ∀ es : List Expr, renameAll f (shiftAll k es) = shiftAll k' es
  | [] => rfl
  | e :: es => by simp only [shiftAll, renameAll, rename_shift hf e, renameAll_shiftAll hf es]

end

end Expr

/-- A call with its temporaries renamed. -/
def EffectCall.rename (f : Nat → Nat) (c : EffectCall) : EffectCall :=
  { c with
    guard := c.guard.rename f
    args := Expr.renameAll f c.args
    result := c.result.map f
    memory := c.memory.map fun m => { m with addr := m.addr.rename f } }

namespace Stmt

/-- A statement with its temporaries renamed. -/
def rename (f : Nat → Nat) : Stmt → Stmt
  | .mark addr len delta => .mark addr len delta
  | .bind t value => .bind (f t) (value.rename f)
  | .put offset value => .put offset (value.rename f)
  | .store order addr value => .store order (addr.rename f) (value.rename f)
  | .exit guard kind target ipOffset => .exit (guard.rename f) kind target ipOffset
  | .loadLinked order t addr => .loadLinked order (f t) (addr.rename f)
  | .storeConditional order t addr value =>
      .storeConditional order (f t) (addr.rename f) (value.rename f)
  | .fence => .fence
  | .call c => .call (c.rename f)
  | .hint base len next => .hint (base.rename f) len (next.rename f)

theorem rename_shift {f : Nat → Nat} {k k' : Nat} (hf : ∀ t, f (k + t) = k' + t) (stmt : Stmt) :
    (stmt.shift k).rename f = stmt.shift k' := by
  cases stmt with
  | mark | fence => rfl
  | call c =>
      have hresult : (c.result.map (k + ·)).map f = c.result.map (k' + ·) := by
        rw [Option.map_map]
        exact congrArg (fun g => c.result.map g) (funext hf)
      simp only [shift, rename, EffectCall.shift, EffectCall.rename, Option.map_map, hresult,
        Function.comp_def, Expr.rename_shift hf, Expr.renameAll_shiftAll hf]
  | _ => simp only [shift, rename, hf, Expr.rename_shift hf]

/-- Behind `k` temporaries, code mentions none of them. -/
theorem le_of_mentions_shift {k t : Nat} {stmt : Stmt}
    (h : t ∈ (stmt.shift k).reads ∨ (stmt.shift k).target? = some t) : k ≤ t := by
  rw [reads_shift, target?_shift, List.mem_map, Option.map_eq_some_iff] at h
  rcases h with ⟨u, -, rfl⟩ | ⟨u, -, rfl⟩ <;> exact Nat.le_add_right k u

end Stmt

/-- The temporaries from `n` on get the numbers from `n'` on; those before keep theirs. -/
def renumber (n n' t : Nat) : Nat := if n ≤ t then t - n + n' else t

theorem renumber_add (n n' t : Nat) : renumber n n' (n + t) = n' + t := by
  rw [renumber, if_pos (Nat.le_add_right n t)]
  omega

/-! ## Branches that are followed -/

theorem Lift.exists_exec_of_bind {α β : Type} {env : Env} {p q : Progress} {x : Lift α}
    {f : α → Lift β} {b : β} (h : exec env p (x >>= f) = (.ok b, q)) :
    ∃ a q₁, exec env p x = (.ok a, q₁) ∧ exec env q₁ (f a) = (.ok b, q) := by
  rw [exec_bind] at h
  rcases hx : exec env p x with ⟨_ | a, q₁⟩
  · simp [hx] at h
  · rw [hx] at h
    exact ⟨a, q₁, rfl, h⟩

open Lift (exec)

variable {env : Env} {p q : Progress} {w : Insn}

/-- A branch is followed where the caller agrees. -/
theorem Branch.immediate_follows
    (hmay : env.mayResteer (target env w ((BitVec.ofNat 26 (w.li24 * 4)).signExtend 64)) = true)
    (h : exec env p (immediate w) = (.ok (), q)) : ∃ target, q.next = .resteer target := by
  have hlast : ∀ {target : BitVec 64} {q₁ : Progress},
      exec env q₁ (Lift.setNext (.resteer target)) = (.ok (), q) →
        ∃ target, q.next = .resteer target := by
    intro target q₁ h
    rw [Lift.exec_setNext, Prod.mk.injEq] at h
    exact ⟨target, h.2 ▸ rfl⟩
  unfold immediate at h
  obtain ⟨_, _, hread, h⟩ := Lift.exists_exec_of_bind h
  obtain ⟨rfl, rfl⟩ : env = _ ∧ p = _ := by simpa using Prod.mk.inj hread
  obtain ⟨_, _, -, h⟩ := Lift.exists_exec_of_bind h
  -- What comes before, the link and the hint, does not decide where control goes.
  simp only [hmay, if_true] at h
  split at h
  · obtain ⟨_, _, -, h⟩ := Lift.exists_exec_of_bind h
    split at h
    · obtain ⟨_, _, -, h⟩ := Lift.exists_exec_of_bind h
      exact hlast h
    · exact hlast h
  · exact hlast h

theorem Route.find?_branch (hword : w.opcode = 18) :
    Route.find? w = some ⟨.any, [], .branch⟩ :=
  find?_only (by rw [hword]; rfl)

theorem Lift.instruction_branch (hword : w.opcode = 18) :
    instruction w = read >>= fun _ => Branch.immediate w := by
  have hlift : Branch.lift w = Branch.immediate w := by
    unfold Branch.lift
    split <;> simp_all
  unfold instruction
  rw [Route.find?_branch hword, ← hlift]
  rfl

/-- A request does not start with a branch. -/
theorem Announced.scan_branch {code : ByteArray} {offset : Nat} {order : ByteOrder} (arch : Arch)
    (hfetch : Insn.fetch? code offset order = some w) (hword : w.opcode = 18) :
    scan code offset arch order = .absent := by
  have hstart : startsWith code offset order (Hook.preamble arch) = false := by
    obtain ⟨first, rest, hfirst, hne⟩ : ∃ first rest, Hook.preamble arch = first :: rest ∧
        (⟨first⟩ : Insn).opcode ≠ 18 := by
      cases arch <;> exact ⟨_, _, rfl, by decide⟩
    have hw : w ≠ ⟨first⟩ := fun heq => hne (heq ▸ hword)
    simp [hfirst, startsWith, hfetch, hw]
  rw [scan, hstart]
  rfl

namespace Placement

/-- Whether the word is a branch that the lifting behind the block follows. -/
def follows (P : Placement) : Bool := P.word.opcode == 18 && P.env.mayResteer P.destination

/-- What the lifting behind the block keeps of what the lifting alone has staged: all but the write
of the target of a branch that is followed. -/
def kept (P : Placement) (s : Stage) : Stage :=
  if P.follows then { s with stmts := s.stmts.pop } else s

/-- Where the lifting behind the block goes on. -/
def continuation (P : Placement) (next : Continuation) : Continuation :=
  if P.follows then .resteer P.destination else next

end Placement

/-- What is lifted behind a block is made of what is lifted alone. -/
theorem Ending.right_eq {P : Placement} {q q' : Progress} (h : Ending P () () q q')
    (hfollows : P.follows = true → ∃ target, q'.next = .resteer target) :
    q'.stage = (P.kept q.stage).on P.outer ∧ q'.next = P.continuation q.next := by
  unfold Placement.kept Placement.continuation
  cases h with
  | through s htogether hsound =>
      have hnot : ¬P.follows = true := by
        intro hf
        obtain ⟨target, htarget⟩ := hfollows hf
        rw [htogether.right_next] at htarget
        contradiction
      rw [if_neg hnot, if_neg hnot, htogether.left, htogether.right, htogether.left_next,
        htogether.right_next]
      exact ⟨rfl, rfl⟩
  | stop s kind e e' houter hsound he hkind hleft hright hnext hnext' =>
      have hnot : ¬P.follows = true := by
        intro hf
        obtain ⟨target, htarget⟩ := hfollows hf
        rw [hnext'] at htarget
        contradiction
      rw [if_neg hnot, if_neg hnot, hleft, hright, hnext, hnext', he.shift_eq]
      exact ⟨Stage.on_push _ _ (.put _ e), rfl⟩
  | followed s kind target houter hsound hkind hcut hmay hword hleft hright hnext hnext' =>
      have hyes : P.follows = true := by simp [Placement.follows, hword.1, ← hword.2, hmay]
      rw [if_pos hyes, if_pos hyes, hleft, hright, hnext', ← hword.2]
      exact ⟨by simp [Stage.push], rfl⟩

namespace Guest

variable {g : Guest} {code : ByteArray} {offset : Nat} {cia blockStart : BitVec 64} {block : Block}

theorem attempt_follows (hcheck : g.check = .ok ())
    (hfetch : Insn.fetch? code offset g.info.order = some w) {r : Nat × Option Hook}
    (h : g.attempt code offset cia blockStart block w = (.ok r, q))
    (hfollows : (placementAt hcheck code offset cia blockStart block w).follows = true) :
    ∃ target, q.next = .resteer target := by
  obtain ⟨hword, hmay⟩ : w.opcode = 18 ∧ g.mayResteer (Branch.target (g.env cia blockStart) w
      ((BitVec.ofNat 26 (w.li24 * 4)).signExtend 64)) = true := by
    rw [Placement.follows, Bool.and_eq_true, beq_iff_eq] at hfollows
    exact hfollows
  rw [attempt, Announced.scan_branch g.arch hfetch hword] at h
  obtain ⟨_, _, hread, h⟩ := Lift.exists_exec_of_bind h
  obtain ⟨_, _, -, h⟩ := Lift.exists_exec_of_bind h
  obtain ⟨_, _, hinstruction, h⟩ := Lift.exists_exec_of_bind h
  rw [Lift.instruction_branch hword] at hinstruction
  obtain ⟨_, _, -, himmediate⟩ := Lift.exists_exec_of_bind hinstruction
  obtain ⟨-, rfl⟩ := Prod.mk.inj h
  exact Branch.immediate_follows hmay himmediate

end Guest

/-! ## Two blocks -/

/-- What a lifting has added to a block: temporaries, and code that mentions those only. -/
structure Report.Adds (r : Report) (b : Block) (types : Array Ty) (stmts : Array Stmt) : Prop where
  block_eq : r.block = { b with types := b.types ++ types, stmts := b.stmts ++ stmts }
  own : ∀ stmt ∈ stmts, ∀ t, t ∈ stmt.reads ∨ stmt.target? = some t → b.types.size ≤ t

namespace Report.Adds

variable {r : Report} {b : Block}

theorem extended {s : Stage} (h : r.block = b.extended (s.on b.types)) :
    r.Adds b s.types (s.stmts.map (Stmt.shift b.types.size)) := by
  refine ⟨h, fun stmt hstmt t ht => ?_⟩
  obtain ⟨stmt, -, rfl⟩ := Array.mem_map.mp hstmt
  exact Stmt.le_of_mentions_shift ht

/-- A literal has no temporaries to be numbered. -/
theorem stopped {env : Env} (h : r.block = b.stopped env) :
    r.Adds b #[] (#[Stmt.put (Layout.specialOffset env.arch .cia) (env.imm env.cia)].map
      (Stmt.shift b.types.size)) := by
  constructor
  · simp [h, Block.stopped, Stmt.shift, Env.imm, Expr.shift]
  · simp [Stmt.shift, Stmt.reads, Stmt.target?, Env.imm, Expr.shift, Expr.temps]

end Report.Adds

theorem map_rename_shift (n n' : Nat) (stmts : Array Stmt) :
    (stmts.map (Stmt.shift n)).map (Stmt.rename (renumber n n')) = stmts.map (Stmt.shift n') := by
  rw [Array.map_map]
  exact congrArg (fun f => stmts.map f) (funext (Stmt.rename_shift (renumber_add n n')))

namespace Guest

/-- Lifted onto two blocks, one word gets one answer and adds the same temporaries and the same
code, up to the numbers of those temporaries. -/
theorem lift_renumbers (g : Guest) (hcheck : g.check = .ok ()) (hinjector : g.injector = none)
    (code : ByteArray) (offset : Nat) (hcode : offset + 4 ≤ code.size)
    (cia start start' : BitVec 64) (b b' : Block) :
    ∃ l types stmts,
      (g.lift code offset cia start b).result = .ok l ∧
      (g.lift code offset cia start' b').result = .ok l ∧
      (g.lift code offset cia start b).Adds b types stmts ∧
      (g.lift code offset cia start' b').Adds b' types
        (stmts.map (Stmt.rename (renumber b.types.size b'.types.size))) := by
  obtain ⟨w, hfetch⟩ := fetch?_isSome g.info.order hcode
  have hsingle : (Block.empty 0).types = #[] := rfl
  -- Both are compared with the lifting alone, which knows no block.
  have hfirst := attempt_outcome code offset w cia start b hcheck hinjector hsingle
  have hsecond := attempt_outcome code offset w cia start' b' hcheck hinjector hsingle
  generalize g.straight.attempt code offset cia cia (.empty 0) w = alone at hfirst hsecond
  generalize hright : g.attempt code offset cia start b w = right at hfirst
  generalize hright' : g.attempt code offset cia start' b' w = right' at hsecond
  cases hfirst with
  | gated raw ext q right h => exact absurd rfl h
  | refused r q q₁ =>
      obtain ⟨hresult, hblock⟩ := lift_of_refusal hcheck hfetch hright
      cases hsecond with
      | gated raw ext q right h => exact absurd rfl h
      | refused r q q₂ =>
          obtain ⟨hresult', hblock'⟩ := lift_of_refusal hcheck hfetch hright'
          refine ⟨_, _, _, hresult, hresult', .stopped hblock, ?_⟩
          rw [map_rename_shift]
          exact .stopped hblock'
  | @both r r₁ q q₁ hfirst =>
      obtain ⟨rfl, -, -, hending⟩ := hfirst
      obtain ⟨hresult, hblock⟩ := lift_of_success hcheck hfetch hright hending.right_outer
      obtain ⟨hstage, hnext⟩ := hending.right_eq (attempt_follows hcheck hfetch hright)
      cases hsecond with
      | @both _ r₂ _ q₂ hsecond =>
          obtain ⟨rfl, -, -, hending'⟩ := hsecond
          obtain ⟨hresult', hblock'⟩ := lift_of_success hcheck hfetch hright' hending'.right_outer
          obtain ⟨hstage', hnext'⟩ := hending'.right_eq (attempt_follows hcheck hfetch hright')
          refine ⟨_, _, _, hresult, ?_, .extended (hstage ▸ hblock), ?_⟩
          · rw [hresult', hnext, hnext']
            rfl
          · rw [map_rename_shift]
            exact .extended (hstage' ▸ hblock')

/-- A sum that records overflow, on an empty block and on one that has two temporaries. -/
theorem lift_renumbers_sum :
    let code : ByteArray := ⟨#[0x7C, 0x64, 0x2E, 0x15]⟩
    let g : Guest := { arch := .ppc64 }
    let b : Block := .empty 1280
    let b' : Block := { ipOffset := 1280, types := #[.i64, .i8] }
    g.check = .ok () ∧ ∃ l types stmts,
      (g.lift code 0 0x1004 0x1004 b).result = .ok l ∧
      (g.lift code 0 0x1004 0x1000 b').result = .ok l ∧
      (g.lift code 0 0x1004 0x1004 b).Adds b types stmts ∧
      (g.lift code 0 0x1004 0x1000 b').Adds b' types
        (stmts.map (Stmt.rename (renumber b.types.size b'.types.size))) := by
  intro code g b b'
  have hcheck : g.check = .ok () := by decide
  exact ⟨hcheck, lift_renumbers g hcheck rfl code 0 (by decide) 0x1004 0x1004 0x1000 b b'⟩

end Guest

end PowerLift
