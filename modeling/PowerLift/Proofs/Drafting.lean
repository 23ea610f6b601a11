import Mathlib.Data.List.Induction
import PowerLift.Proofs.Operations

/-!
# Drafts

A draft is a block and the stage of its next instruction. Operations add code to the stage; then
the stage is committed to the block, or dropped, and the next one starts. Whatever the order, the
code of the block is well typed and no temporary is bound twice.

A stage lets no temporary of its own be read before it is bound, but trusts those of the block, and
a commit does not ask whether the stage has bound all of its temporaries. One that it left unbound
may be read ever after, though nothing binds it any more. Such reads are the only ones that no
binding comes before.
-/

namespace PowerLift

/-- A block, and the stage of its next instruction. -/
structure Draft where
  block : Block
  stage : Stage

namespace Draft

/-- A draft of an empty block. -/
def start (ipOffset : Nat) : Draft := ⟨.empty ipOffset, .start (.empty ipOffset)⟩

/-- What one does to a draft. -/
inductive Action where
  | operate (o : Stage.Operation)
  | commit
  | drop

def step (d : Draft) : Action → Except Fault Draft
  | .operate o => do
      let stage ← o.apply d.stage
      return { d with stage }
  | .commit => do
      let block ← d.stage.commit d.block
      return ⟨block, .start block⟩
  | .drop => .ok ⟨d.block, .start d.block⟩

/-- The draft that actions make of an empty block. -/
def run (ipOffset : Nat) (actions : List Action) : Except Fault Draft :=
  actions.foldlM step (start ipOffset)

/-- A commit that brought the block to at most `i` statements left a temporary unbound. -/
def LeavesUnbound (ipOffset : Nat) (actions : List Action) (t i : Nat) : Prop :=
  ∃ before after d, actions = before ++ .commit :: after ∧ run ipOffset before = .ok d ∧
    d.stage.checkRead t = .error (.readUnbound t) ∧ d.block.stmts.size + d.stage.stmts.size ≤ i

variable {ipOffset : Nat} {actions : List Action} {a : Action} {d d' : Draft} {t i : Nat}

theorem run_snoc : run ipOffset (actions ++ [a]) = .ok d' ↔
    ∃ d, run ipOffset actions = .ok d ∧ d.step a = .ok d' := by
  simp only [run, List.foldlM_append, List.foldlM_cons, List.foldlM_nil, bind_eq_ok, pure_eq_ok,
    Except.ok.injEq, exists_eq_right]

namespace LeavesUnbound

theorem snoc (h : LeavesUnbound ipOffset actions t i) (a : Action) :
    LeavesUnbound ipOffset (actions ++ [a]) t i := by
  obtain ⟨before, after, d, rfl, hd⟩ := h
  exact ⟨before, after ++ [a], d, by simp, hd⟩

theorem later (h : LeavesUnbound ipOffset actions t i) {j : Nat} (hij : i ≤ j) :
    LeavesUnbound ipOffset actions t j := by
  obtain ⟨before, after, d, hsplit, hd, ht, hle⟩ := h
  exact ⟨before, after, d, hsplit, hd, ht, hle.trans hij⟩

/-- The last action left a temporary unbound, or one before did. -/
theorem snoc_cases (h : LeavesUnbound ipOffset (actions ++ [a]) t i) :
    LeavesUnbound ipOffset actions t i ∨ a = .commit ∧ ∃ d, run ipOffset actions = .ok d ∧
      d.stage.checkRead t = .error (.readUnbound t) := by
  obtain ⟨before, after, d, hsplit, hd, ht, hle⟩ := h
  rcases List.eq_nil_or_concat after with rfl | ⟨after, b, rfl⟩
  · obtain ⟨rfl, rfl⟩ : actions = before ∧ a = .commit := by simpa using hsplit
    exact .inr ⟨rfl, d, hd, ht⟩
  · rw [List.concat_eq_append, ← List.cons_append, ← List.append_assoc] at hsplit
    obtain ⟨rfl, -⟩ := List.append_inj' hsplit rfl
    exact .inl ⟨before, after, d, rfl, hd, ht, hle⟩

end LeavesUnbound

/-- A statement behind those of a block. -/
structure Behind (ipOffset : Nat) (actions : List Action) (types : Nat → Except Fault Ty)
    (ss : List Stmt) (stmt : Stmt) : Prop where
  checked : stmt.Checked types
  reads : ∀ t ∈ stmt.reads, t ∈ boundBy ss ∨ LeavesUnbound ipOffset actions t ss.length
  fresh : ∀ t, stmt.target? = some t → t ∉ boundBy ss

/-- What actions keep of a draft. -/
structure Kept (ipOffset : Nat) (actions : List Action) (d : Draft) : Prop where
  tracked : d.stage.Tracked
  outer : d.stage.outer = d.block.types
  code : Trail (Behind ipOffset actions d.block.tempTy) d.block.stmts.toList
  bound_lt : ∀ t ∈ boundBy d.block.stmts.toList, t < d.block.types.size
  bound_or : ∀ t < d.block.types.size, t ∈ boundBy d.block.stmts.toList ∨
    LeavesUnbound ipOffset actions t d.block.stmts.size
  unbound : ∀ t i, LeavesUnbound ipOffset actions t i →
    t < d.block.types.size ∧ t ∉ boundBy d.block.stmts.toList

namespace Kept

theorem start (ipOffset : Nat) : Kept ipOffset [] (start ipOffset) where
  tracked := .start _
  outer := rfl
  code := .nil
  bound_lt := by simp [Draft.start, Block.empty]
  bound_or := by simp [Draft.start, Block.empty]
  unbound := by simp [LeavesUnbound]

/-- An action that leaves the block alone. -/
theorem still (h : Kept ipOffset actions d) {s : Stage} (hs : s.Tracked)
    (houter : s.outer = d.block.types) (ha : a ≠ .commit) :
    Kept ipOffset (actions ++ [a]) ⟨d.block, s⟩ where
  tracked := hs
  outer := houter
  code := h.code.mono fun ss stmt hstmt =>
    ⟨hstmt.checked, fun t ht => (hstmt.reads t ht).imp_right fun hleft => hleft.snoc a, hstmt.fresh⟩
  bound_lt := h.bound_lt
  bound_or t ht := (h.bound_or t ht).imp_right fun hleft => hleft.snoc a
  unbound t i hleft := by
    rcases hleft.snoc_cases with hleft | ⟨hcommit, -⟩
    · exact h.unbound t i hleft
    · exact absurd hcommit ha

/-- What is typed in the stage is typed in the block that it is committed to. -/
theorem tempTy_commit (h : Kept ipOffset actions d) {τ : Ty} :
    (d.block.extended d.stage).tempTy t = .ok τ ↔ d.stage.tempTy t = .ok τ := by
  rw [Block.tempTy_eq_ok, Stage.tempTy_eq_ok, Block.extended, ← h.outer]
  split
  next hlt => rw [Array.getElem?_append_left hlt]
  next hlt => rw [Array.getElem?_append_right (Nat.not_lt.mp hlt)]; rfl

/-- What is typed in the block is typed in the stage. -/
theorem tempTy_stage (h : Kept ipOffset actions d) {τ : Ty} (ht : d.block.tempTy t = .ok τ) :
    d.stage.tempTy t = .ok τ := by
  rw [Block.tempTy_eq_ok, ← h.outer] at ht
  have hlt : t < d.stage.base := (Array.getElem?_eq_some_iff.mp ht).1
  rwa [Stage.tempTy_eq_ok, if_pos hlt]

/-- The statements of the stage, moved behind those of the block. -/
theorem code_commit (h : Kept ipOffset actions d) (a : Action) :
    Trail (Behind ipOffset (actions ++ [a]) (d.block.extended d.stage).tempTy)
      (d.block.extended d.stage).stmts.toList := by
  have hbase : d.stage.base = d.block.types.size := congrArg Array.size h.outer
  rw [Block.extended, Array.toList_append]
  refine .append (h.code.mono fun ss stmt hstmt => ?_) h.tracked.code fun ss stmt hstmt => ?_
  · exact ⟨hstmt.checked.extend fun t τ ht => h.tempTy_commit.mpr (h.tempTy_stage ht),
      fun t ht => (hstmt.reads t ht).imp_right fun hleft => hleft.snoc a, hstmt.fresh⟩
  · refine ⟨hstmt.checked.extend fun t τ ht => h.tempTy_commit.mpr ht, fun t ht => ?_,
      fun t ht => ?_⟩
    · rw [boundBy_append, List.mem_append, List.length_append]
      -- A temporary of the block is bound there, or was left unbound by an earlier commit.
      rcases hstmt.reads t ht with hlt | hmem
      · rcases h.bound_or t (hbase ▸ hlt) with hmem | hleft
        · exact .inl (.inl hmem)
        · exact .inr ((hleft.snoc a).later (by simp))
      · exact .inl (.inr hmem)
    · obtain ⟨hle, hfresh⟩ := hstmt.fresh t ht
      rw [boundBy_append, List.mem_append, not_or]
      exact ⟨fun hmem => absurd (h.bound_lt t hmem) (by omega), hfresh⟩

theorem commit (hd : run ipOffset actions = .ok d) (h : Kept ipOffset actions d) :
    Kept ipOffset (actions ++ [.commit])
      ⟨d.block.extended d.stage, .start (d.block.extended d.stage)⟩ := by
  have hbase : d.stage.base = d.block.types.size := congrArg Array.size h.outer
  have hbound : boundBy (d.block.extended d.stage).stmts.toList =
      boundBy d.block.stmts.toList ++ boundBy d.stage.stmts.toList := by
    rw [Block.extended, Array.toList_append, boundBy_append]
  have hsize : (d.block.extended d.stage).types.size = d.stage.fresh := by
    rw [Block.extended, Array.size_append, Stage.fresh, hbase]
  constructor
  · exact .start _
  · rfl
  · exact h.code_commit .commit
  · intro t ht
    rw [hsize]
    rcases List.mem_append.mp (hbound ▸ ht) with hmem | hmem
    · exact (h.bound_lt t hmem).trans_le (hbase ▸ Nat.le_add_right _ _)
    · exact (h.tracked.range_of_mem hmem).2
  · intro t ht
    rw [hsize] at ht
    rw [hbound, List.mem_append]
    by_cases hlt : t < d.stage.base
    · rcases h.bound_or t (hbase ▸ hlt) with hmem | hleft
      · exact .inl (.inl hmem)
      · exact .inr ((hleft.snoc _).later (by simp [Block.extended]))
    · by_cases hmem : t ∈ boundBy d.stage.stmts.toList
      · exact .inl (.inr hmem)
      · have hleft := h.tracked.checkRead_eq_readUnbound_iff.mpr ⟨Nat.not_lt.mp hlt, ht, hmem⟩
        exact .inr ⟨actions, [], d, rfl, hd, hleft, by simp [Block.extended]⟩
  · intro t i hleft
    rw [hsize, hbound, List.mem_append, not_or]
    rcases hleft.snoc_cases with hleft | ⟨-, d', hd', hleft⟩
    · obtain ⟨hlt, hnot⟩ := h.unbound t i hleft
      rw [← hbase] at hlt
      exact ⟨hlt.trans_le (Nat.le_add_right _ _), hnot,
        fun hmem => absurd (h.tracked.range_of_mem hmem).1 (Nat.not_le.mpr hlt)⟩
    · obtain rfl : d = d' := Except.ok.inj (hd.symm.trans hd')
      obtain ⟨hle, hlt, hnot⟩ := h.tracked.checkRead_eq_readUnbound_iff.mp hleft
      exact ⟨hlt, fun hmem => absurd (h.bound_lt t hmem) (by omega), hnot⟩

theorem of_run : ∀ {actions : List Action} {d : Draft}, run ipOffset actions = .ok d →
    Kept ipOffset actions d := by
  intro actions
  induction actions using List.reverseRecOn with
  | nil =>
      intro d hrun
      cases hrun
      exact start ipOffset
  | append_singleton actions a ih =>
      intro d' hrun
      obtain ⟨d, hd, hstep⟩ := run_snoc.mp hrun
      have h := ih hd
      cases a with
      | operate o =>
          obtain ⟨s, hs, hstep⟩ := bind_eq_ok.mp hstep
          cases hstep
          have hyields := Stage.Operation.apply_yields h.tracked.level hs
          exact h.still (h.tracked.of_yields hyields) (hyields.outer_eq.trans h.outer) nofun
      | commit =>
          rw [step, Stage.commit_eq h.outer] at hstep
          cases hstep
          exact h.commit hd
      | drop =>
          cases hstep
          exact h.still (.start d.block) rfl nofun

end Kept

/-- All code of a draft's block is typed, no temporary is bound twice, and what a statement reads is
bound before it, unless an earlier commit left it unbound and nothing ever binds it. -/
theorem run_built (hrun : run ipOffset actions = .ok d) :
    (∀ stmt ∈ d.block.stmts, stmt.Checked d.block.tempTy) ∧
    (∀ t, d.block.stmts.toList.countP (·.target? == some t) ≤ 1) ∧
    (∀ t < d.block.types.size, d.block.stmts.toList.countP (·.target? == some t) = 1 ∨
      LeavesUnbound ipOffset actions t d.block.stmts.size) ∧
    ∀ (i : Nat) (stmt : Stmt), d.block.stmts[i]? = some stmt → ∀ t ∈ stmt.reads,
      (∃ (j : Nat) (binder : Stmt),
        j < i ∧ d.block.stmts[j]? = some binder ∧ binder.target? = some t) ∨
      LeavesUnbound ipOffset actions t i ∧ ∀ binder ∈ d.block.stmts, binder.target? ≠ some t := by
  have h := Kept.of_run hrun
  have hnodup : (boundBy d.block.stmts.toList).Nodup := h.code.nodup_boundBy fun _ _ hs => hs.fresh
  have hbehind : ∀ (i : Nat) (stmt : Stmt), d.block.stmts[i]? = some stmt →
      Behind ipOffset actions d.block.tempTy (d.block.stmts.toList.take i) stmt :=
    fun i stmt hi => h.code.fits_take (by simpa using hi)
  refine ⟨fun stmt hmem => ?_, fun t => ?_, fun t ht => ?_, fun i stmt hi t ht => ?_⟩
  · obtain ⟨i, hi⟩ := Array.getElem?_of_mem hmem
    exact (hbehind i stmt hi).checked
  · rw [countP_target]
    exact List.nodup_iff_count.mp hnodup t
  · rw [countP_target]
    exact (h.bound_or t ht).imp_left fun hmem => by rw [hnodup.count, if_pos hmem]
  · refine ((hbehind i stmt hi).reads t ht).imp exists_binder fun hleft => ?_
    refine ⟨hleft.later (List.length_take_le ..), fun binder hmem htarget => ?_⟩
    exact (h.unbound t _ hleft).2
      (List.mem_filterMap.mpr ⟨binder, Array.mem_toList_iff.mpr hmem, htarget⟩)

/-- A temporary that is read by the next instruction, and one that is dropped. -/
theorem run_built_two_commits :
    let block : Block :=
      { types := #[.i32], stmts := #[.bind 0 (.u32 5), .put 16 (.tmp 0)], ipOffset := 1280 }
    run 1280 [.operate (.bind (.u32 5)), .commit, .operate (.newTemp .i64), .drop,
        .operate (.put 16 .i32 (.tmp 0)), .commit] = .ok ⟨block, .start block⟩ ∧
      ∀ t, block.stmts.toList.countP (·.target? == some t) ≤ 1 := by
  intro block
  have hrun : run 1280 [.operate (.bind (.u32 5)), .commit, .operate (.newTemp .i64), .drop,
      .operate (.put 16 .i32 (.tmp 0)), .commit] = .ok ⟨block, .start block⟩ := rfl
  exact ⟨hrun, (run_built hrun).2.1⟩

/-- A temporary that a commit left unbound is read, though no statement binds it. -/
theorem run_reads_unbound :
    let block : Block := { types := #[.i32], stmts := #[.put 0 (.tmp 0)], ipOffset := 1280 }
    run 1280 [.operate (.newTemp .i32), .commit, .operate (.put 0 .i32 (.tmp 0)), .commit] =
        .ok ⟨block, .start block⟩ ∧
      ¬∀ (i : Nat) (stmt : Stmt), block.stmts[i]? = some stmt → ∀ t ∈ stmt.reads,
        ∃ (j : Nat) (binder : Stmt),
          j < i ∧ block.stmts[j]? = some binder ∧ binder.target? = some t := by
  refine ⟨rfl, fun h => ?_⟩
  obtain ⟨j, _, hlt, -⟩ := h 0 (.put 0 (.tmp 0)) rfl 0 (by simp [Stmt.reads, Expr.temps])
  exact Nat.not_lt_zero j hlt

end Draft

end PowerLift
