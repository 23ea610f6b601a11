import PowerLift.Family.Basic
import PowerLift.Proofs.Staging

/-!
# Primitive steps of translators

What the steps do of which all translators are made: reading the configuration, refusing a word,
making and binding temporaries, and emitting statements.
-/

namespace PowerLift.Lift

open Stage (Next Before)

variable {P : Placement} {s : Stage} {pending : List Nat}

/-! ## Steps that stage nothing -/

theorem read_gives : Gives P s pending read read P.alone P.env :=
  fun _ _ _ hp => .both ⟨hp, rfl, rfl⟩

theorem ofExcept_gives {α : Type} {a a' : α} {r r' : Except Fault α} (h : r = .ok a)
    (h' : r' = .ok a') : Gives P s pending (ofExcept r) (ofExcept r') a a' := by
  subst h h'
  exact .pure ⟨rfl, rfl⟩

theorem refuse_runs {α : Type} {w : Insn} {reason : Reason}
    {K : α → α → Progress → Progress → Prop} :
    Runs P s pending (refuse w reason) (refuse w reason) K :=
  fun _ p p' _ => .refused ⟨w.raw, reason⟩ p p'

/-- Nothing runs behind a refusal. -/
theorem refuse_bind {α β : Type} {w : Insn} {reason : Reason} {f f' : α → Lift β}
    {K : β → β → Progress → Progress → Prop} :
    Runs P s pending (refuse w reason >>= f) (refuse w reason >>= f') K :=
  have h : Runs P s pending (refuse w reason : Lift α) (refuse w reason) fun _ _ _ _ => False :=
    refuse_runs
  h.andThen fun _ _ _ _ _ h => h.elim

theorem listed_gives {line line' : String} :
    Gives P s pending (listed line) (listed line') () () :=
  fun _ _ _ hp => .both ⟨⟨hp.outer, hp.left, hp.left_next, hp.right, hp.right_next⟩, rfl, rfl⟩

theorem logged_gives {severity : Severity} {text : String} :
    Gives P s pending (logged severity text) (logged severity text) () () :=
  fun _ _ _ hp => .both ⟨⟨hp.outer, hp.left, hp.left_next, hp.right, hp.right_next⟩, rfl, rfl⟩

theorem mode64_gives : Gives P s pending mode64 mode64 P.env.arch.is64 P.env.arch.is64 :=
  read_gives.give (.pure ⟨rfl, rfl⟩)

theorem word_gives : Gives P s pending word word P.env.arch.word P.env.arch.word :=
  read_gives.give (.pure ⟨rfl, rfl⟩)

theorem wordTy_gives : Gives P s pending wordTy wordTy P.gprTy P.gprTy := by
  refine read_gives.give (.pure ?_)
  cases h : P.env.arch <;>
    simp [Placement.gprTy, Env.gprTy, h, Arch.wordTy, Arch.word, Word.width, Width.ty]

theorem wordOp_gives {op : SizedOp} :
    Gives P s pending (wordOp op) (wordOp op) (op.atWidth P.env.arch.word.width)
      (op.atWidth P.env.arch.word.width) :=
  word_gives.give (.pure ⟨rfl, rfl⟩)

theorem imm_gives {v : BitVec 64} :
    Gives P s pending (imm v) (imm v) (P.env.imm v) (P.env.imm v) :=
  read_gives.give (.pure ⟨rfl, rfl⟩)

theorem imm_reads {v : BitVec 64} : Reads P s pending (imm v) (imm v) P.gprTy :=
  read_gives.give (.pure .imm)

theorem low32_gives {e e' : Expr} :
    Gives P s pending (low32 e) (low32 e') (P.env.low32 e) (P.env.low32 e') :=
  read_gives.give (.pure ⟨rfl, rfl⟩)

theorem to64_gives {e e' : Expr} {signed : Bool} :
    Gives P s pending (to64 e signed) (to64 e' signed) (P.env.to64 e signed)
      (P.env.to64 e' signed) :=
  read_gives.give (.pure ⟨rfl, rfl⟩)

theorem typeOf_gives {e e' : Expr} {τ : Ty} (he : Paired P s e e' τ) :
    Gives P s pending (typeOf e) (typeOf e') τ τ := by
  intro _ p p' hp
  obtain ⟨hleft, hright⟩ := he.typeOf_eq hp.outer
  rw [← hp.left] at hleft
  rw [← hp.right] at hright
  have heq : exec P.alone p (typeOf e) = (.ok τ, p) := by
    simp only [typeOf, exec_bind]
    change exec P.alone p (ofExcept (e.typeOf p.stage.tempTy)) = _
    rw [hleft]
    rfl
  have heq' : exec P.env p' (typeOf e') = (.ok τ, p') := by
    simp only [typeOf, exec_bind]
    change exec P.env p' (ofExcept (e'.typeOf p'.stage.tempTy)) = _
    rw [hright]
    rfl
  rw [heq, heq']
  exact .both ⟨hp, rfl, rfl⟩

/-- The types that can be widened to a general register. -/
inductive Widens (P : Placement) : Ty → Prop where
  | i1 : Widens P .i1
  | i8 : Widens P .i8
  | i16 : Widens P .i16
  | i32 : Widens P .i32
  | gpr (h64 : P.env.arch.is64 = true) : Widens P .i64

theorem widen_reads {e e' : Expr} {τ : Ty} {signed : Bool} (he : Paired P s e e' τ)
    (hτ : Widens P τ) : Reads P s pending (widen e signed) (widen e' signed) P.gprTy := by
  unfold widen
  refine (typeOf_gives he).give (wordTy_gives.give ?_)
  by_cases heq : τ = P.gprTy
  · simp only [heq, if_true]
    exact .pure (he.cast heq)
  · simp only [heq, if_false]
    have hregister : P.gprTy = .i32 ∨ P.gprTy = .i64 := Expr.gprTy_cases P.env
    cases hτ with
    | gpr h64 => exact absurd (Placement.gprTy_eq h64).symm heq
    | i32 =>
        rw [hregister.resolve_left (Ne.symm heq)]
        cases signed <;> exact .pure (.un rfl he)
    | i1 | i8 | i16 =>
        rcases hregister with h | h <;> rw [h] <;> cases signed <;> exact .pure (.un rfl he)

/-- The types to which the value of a general register can be narrowed. -/
inductive Narrows (P : Placement) : Ty → Prop where
  | i8 : Narrows P .i8
  | i16 : Narrows P .i16
  | i32 : Narrows P .i32
  | gpr (h64 : P.env.arch.is64 = true) : Narrows P .i64

theorem narrow_reads {e e' : Expr} {τ : Ty} (he : Paired P s e e' P.gprTy) (hτ : Narrows P τ) :
    Reads P s pending (narrow e τ) (narrow e' τ) τ := by
  unfold narrow
  refine (typeOf_gives he).give ?_
  by_cases heq : P.gprTy = τ
  · simp only [heq, if_true]
    exact .pure (he.cast heq)
  · simp only [heq, if_false]
    have hregister : P.gprTy = .i32 ∨ P.gprTy = .i64 := Expr.gprTy_cases P.env
    cases hτ with
    | gpr h64 => exact absurd (Placement.gprTy_eq h64) heq
    | i32 =>
        rw [hregister.resolve_left heq] at he ⊢
        exact .pure (.un rfl he)
    | i8 | i16 =>
        rcases hregister with h | h <;> rw [h] at he ⊢ <;> exact .pure (.un rfl he)

/-! ## Conditions -/

theorem reservedZero_guards {w : Insn} {field : Nat} {what : String} :
    Guards P s pending (reservedZero w field what) (reservedZero w field what) (field = 0) := by
  unfold reservedZero
  split
  · exact refuse_runs
  next h => exact .pure (by simpa using h)

theorem reservedClear_guards {w : Insn} {bit : Bool} {what : String} :
    Guards P s pending (reservedClear w bit what) (reservedClear w bit what) (bit = false) := by
  unfold reservedClear
  split
  · exact refuse_runs
  next h => exact .pure (by simpa using h)

theorem invalidIf_guards {w : Insn} {bad : Bool} {what : String} :
    Guards P s pending (invalidIf w bad what) (invalidIf w bad what) (bad = false) := by
  unfold invalidIf
  split
  · exact refuse_runs
  next h => exact .pure (by simpa using h)

theorem needMode64_guards {w : Insn} {what : String} :
    Guards P s pending (needMode64 w what) (needMode64 w what) (P.env.arch.is64 = true) := by
  unfold needMode64
  refine mode64_gives.give ?_
  split
  · exact refuse_runs
  next h => exact .pure (by simpa using h)

/-! ## Steps that stage code -/

theorem exec_get (env : Env) (p : Progress) : exec env p get = (.ok p, p) := rfl

theorem exec_modify (env : Env) (p : Progress) (f : Progress → Progress) :
    exec env p (modify f) = (.ok (), f p) := rfl

theorem exec_ofExcept {α : Type} (env : Env) (p : Progress) (a : α) :
    exec env p (ofExcept (.ok a)) = (.ok a, p) := rfl

theorem exec_onStage {env : Env} {p : Progress} {f : Stage → Except Fault Stage} {s₁ : Stage}
    (hf : f p.stage = .ok s₁) : exec env p (onStage f) = (.ok (), { p with stage := s₁ }) := by
  simp only [onStage, exec_bind, exec_get, hf, exec_ofExcept, exec_modify]

theorem onStage_kept {f f' : Stage → Except Fault Stage} {pending₁ : List Nat}
    {Q : Unit → Unit → Stage → Prop}
    (h : s.outer = #[] → s.Sound P pending →
      ∃ s₁, f s = .ok s₁ ∧ f' (s.on P.outer) = .ok (s₁.on P.outer) ∧ s₁.outer = #[] ∧
        s₁.Sound P pending₁ ∧ s.Grows s₁ ∧ Q () () s₁) :
    Runs P s pending (onStage f) (onStage f') (Kept P s pending₁ Q) := by
  intro hsound p p' hp
  obtain ⟨s₁, hf, hf', houter, hsound₁, hgrows, hQ⟩ := h hp.outer hsound
  rw [← hp.left] at hf
  rw [← hp.right] at hf'
  rw [exec_onStage hf, exec_onStage hf']
  exact .both ⟨s₁, ⟨houter, rfl, hp.left_next, rfl, hp.right_next⟩, hsound₁, hgrows, hQ⟩

/-- A step that adds a statement which binds nothing. -/
theorem push_kept {f f' : Stage → Except Fault Stage} {Q : Unit → Unit → Stage → Prop}
    (stmt : Stmt) (htarget : stmt.target? = none)
    (hfits : Fits P.env s.types s.stmts.toList stmt)
    (hoff : ¬P.word.IsBitLogic → stmt.OffFields P.env.arch)
    (hkeeps : stmt.Keeps P.env.arch P.word) (hQ : Q () () (s.push stmt))
    (h : s.outer = #[] → s.Sound P pending → f s = .ok (s.push stmt) ∧
      f' (s.on P.outer) = .ok ((s.on P.outer).push (stmt.shift P.outer.size))) :
    Runs P s pending (onStage f) (onStage f') (Kept P s pending Q) := by
  refine onStage_kept fun houter hsound => ?_
  obtain ⟨hf, hf'⟩ := h houter hsound
  rw [Stage.on_push] at hf'
  exact ⟨_, hf, hf', houter, hsound.push htarget hfits hoff hkeeps, .push stmt, hQ⟩

/-- A step that adds a statement which neither binds nor writes the record. -/
theorem push_outside {f f' : Stage → Except Fault Stage} {Q : Unit → Unit → Stage → Prop}
    (stmt : Stmt) (htarget : stmt.target? = none)
    (hfits : Fits P.env s.types s.stmts.toList stmt) (hput : ∀ offset e, stmt ≠ .put offset e)
    (hQ : Q () () (s.push stmt))
    (h : s.outer = #[] → s.Sound P pending → f s = .ok (s.push stmt) ∧
      f' (s.on P.outer) = .ok ((s.on P.outer).push (stmt.shift P.outer.size))) :
    Runs P s pending (onStage f) (onStage f') (Kept P s pending Q) :=
  push_kept stmt htarget hfits (fun _ => Stmt.offFields_of_ne_put hput)
    (Stmt.keeps_of_ne_put hput) hQ h

theorem put_emits {p : Layout.Place} {e e' : Expr}
    (hp : Layout.Accepts P.env.arch P.env.host s.stmts.toList e p)
    (hoff : ¬P.word.IsBitLogic → (Stmt.put p.offset e).OffFields P.env.arch)
    (hkeeps : (Stmt.put p.offset e).Keeps P.env.arch P.word) (he : Paired P s e e' p.ty) :
    Emits P s pending (onStage (·.put p.offset p.ty e)) (onStage (·.put p.offset p.ty e')) := by
  refine push_kept (.put p.offset e) rfl (.put p e hp he.hasTy) hoff hkeeps trivial
    fun houter hsound => ?_
  obtain ⟨hleft, hright⟩ := he.check_eq houter hsound
  simp [Stage.put, hleft, hright, ← he.shift_eq, Stmt.shift]

theorem store_emits {a a' e e' : Expr} {τ : Ty} (ha : Paired P s a a' P.gprTy)
    (he : Paired P s e e' τ) (hτ : τ ≠ .i1) :
    Emits P s pending (onStage (·.store P.env.host a e)) (onStage (·.store P.env.host a' e')) := by
  refine push_outside (.store P.env.host a e) rfl (.store a e τ ha.hasTy he.hasTy hτ) nofun
    trivial fun houter hsound => ?_
  obtain ⟨hleft, hright⟩ := he.check_eq houter hsound
  obtain ⟨haddr, haddr'⟩ := ha.checkAddress_eq houter hsound
  simp [Stage.store, hleft, hright, haddr, haddr', hτ, ← ha.shift_eq, ← he.shift_eq, Stmt.shift]

/-- An exit; one for an error comes before all effects and leads back to the instruction. -/
theorem exit_kept {guard guard' : Expr} {kind : JumpKind} {target : BitVec 64}
    (hguard : Paired P s guard guard' .i1)
    (hfault : kind = .sigBus ∨ kind = .sigTrap → target = P.env.cia ∧ s.Quiet)
    (haligned : P.env.cia % 4 = 0 → target % 4 = 0) :
    Runs P s pending
      (onStage (·.exit guard kind (P.env.address (P.env.cutAddress target))
        (Layout.specialOffset P.env.arch .cia)))
      (onStage (·.exit guard' kind (P.env.address (P.env.cutAddress target))
        (Layout.specialOffset P.env.arch .cia)))
      (Kept P s pending fun _ _ s₁ => s.Quiet → s₁.Quiet) := by
  refine push_outside (.exit guard kind _ _) rfl
    (.exit guard kind target hguard.hasTy ?_ haligned) nofun
    (fun hquiet => hquiet.push rfl) fun houter hsound => ?_
  · intro hkind
    obtain ⟨htarget, hquiet⟩ := hfault hkind
    exact ⟨htarget, fun stmt hstmt => hquiet stmt (by simpa using hstmt)⟩
  · obtain ⟨hleft, hright⟩ := hguard.check_eq houter hsound
    have haddress : (P.env.address (P.env.cutAddress target)).isAddress = true := by
      unfold Env.address
      split <;> rfl
    simp [Stage.exit, hleft, hright, haddress, ← hguard.shift_eq, Stmt.shift]

theorem fence_emits :
    Emits P s pending (onStage fun s => .ok s.fence) (onStage fun s => .ok s.fence) :=
  push_outside .fence rfl .fence nofun trivial fun _ _ => ⟨rfl, rfl⟩

theorem hint_emits {a a' next next' : Expr} {len : Nat} (ha : Paired P s a a' P.gprTy)
    (hnext : Paired P s next next' P.gprTy) :
    Emits P s pending (onStage (·.hint a len next)) (onStage (·.hint a' len next')) := by
  refine push_outside (.hint a len next) rfl (.hint a len next ha.hasTy hnext.hasTy) nofun
    trivial fun houter hsound => ?_
  obtain ⟨haddr, haddr'⟩ := ha.checkAddress_eq houter hsound
  obtain ⟨hleft, hright⟩ := hnext.checkAddress_eq houter hsound
  simp [Stage.hint, haddr, haddr', hleft, hright, ← ha.shift_eq, ← hnext.shift_eq, Stmt.shift]

/-! ## Temporaries -/

theorem exec_bind_temp {env : Env} {p : Progress} {e : Expr} {s₁ : Stage} {t : Nat}
    (h : p.stage.bind e = .ok (s₁, t)) :
    exec env p (bind e) = (.ok (.tmp t), { p with stage := s₁ }) := by
  simp only [bind, bindIndex, exec_bind, exec_get, h, exec_ofExcept, exec_modify, exec_pure]

/-- Binding a fresh temporary to an expression. -/
theorem bind_kept {e e' : Expr} {τ : Ty} (he : Paired P s e e' τ) :
    Runs P s pending (bind e) (bind e') (Kept P s pending fun a a' s₁ =>
      Paired P s₁ a a' τ ∧ (s.Quiet → s₁.Quiet) ∧
        (∀ mask, Bounded P s e mask → Bounded P s₁ a mask) ∧ a.asConst? = none) := by
  intro hsound p p' hp
  obtain ⟨hleft, hright⟩ := he.check_eq hp.outer hsound
  -- The checks have passed, so what both stages become can be written down.
  let grown : Stage := { s with types := s.types.push τ, bound := s.bound.push true }
  let s₁ := grown.push (.bind s.types.size e)
  have hbind : p.stage.bind e = .ok (s₁, s.types.size) := by
    simp [Stage.bind, hp.left, hleft, Stage.base, hp.outer, s₁, grown]
  have hbind' : p'.stage.bind e' = .ok (s₁.on P.outer, P.outer.size + s.types.size) := by
    rw [← Stage.on_push, Stmt.shift, ← he.shift_eq]
    simp only [Stage.bind, hp.right, hright, ok_bind]
    rfl
  have hstmts : s₁.stmts.toList = s.stmts.toList ++ [.bind s.types.size e] := Stage.push_stmts _
  have hgrows : s.Grows s₁ := by
    constructor
    · intro t ty ht
      exact Stage.getElem?_push_of_some ht
    · rw [hstmts]
      exact List.prefix_append _ _
  have hbounded : ∀ mask, Bounded P s e mask → Bounded P s₁ (.tmp s.types.size) mask :=
    fun _ h => .tmp (hstmts ▸ List.prefix_rfl) h
  rw [exec_bind_temp hbind, exec_bind_temp hbind']
  refine .both ⟨s₁, ⟨hp.outer, rfl, hp.left_next, rfl, hp.right_next⟩, hsound.bind he.hasTy,
    hgrows, ⟨rfl, scopeOf_eq_some.mpr ⟨?_, ?_⟩⟩, fun hquiet => hquiet.push rfl, hbounded, rfl⟩
  · rw [Stage.push_stmts, boundBy_append]
    exact List.mem_append_right _ List.mem_cons_self
  · exact Array.getElem?_push_size

theorem bind_computes {e e' : Expr} {τ : Ty} (he : Paired P s e e' τ) :
    Computes P s pending (bind e) (bind e') τ := by
  refine (bind_kept he).mono ?_
  rintro _ _ _ _ ⟨s₁, htogether, hsound, hgrows, h, -⟩
  exact ⟨s₁, htogether, hsound, hgrows, h⟩

/-- A temporary keeps to the bits of its expression. -/
theorem bind_bounded {e e' : Expr} {τ : Ty} (mask : Nat) (he : Paired P s e e' τ)
    (hmask : Bounded P s e mask) :
    Runs P s pending (bind e) (bind e') (Kept P s pending fun a a' s₁ =>
      Paired P s₁ a a' τ ∧ Bounded P s₁ a mask) := by
  refine (bind_kept he).mono ?_
  rintro _ _ _ _ ⟨s₁, htogether, hsound, hgrows, h, -, hbounded, -⟩
  exact ⟨s₁, htogether, hsound, hgrows, h, hbounded mask hmask⟩

/-- A temporary is no literal. -/
theorem bind_temp {e e' : Expr} {τ : Ty} (he : Paired P s e e' τ) :
    Runs P s pending (bind e) (bind e') (Kept P s pending fun a a' s₁ =>
      Paired P s₁ a a' τ ∧ a.asConst? = none) := by
  refine (bind_kept he).mono ?_
  rintro _ _ _ _ ⟨s₁, htogether, hsound, hgrows, h, -, -, htemp⟩
  exact ⟨s₁, htogether, hsound, hgrows, h, htemp⟩

/-- A value that is read and then held in a temporary. -/
theorem hold_runs {β : Type} {x x' : Lift Expr} {f f' : Expr → Lift β} {τ : Ty}
    {K : β → β → Progress → Progress → Prop} (hx : Reads P s pending x x' τ)
    (hf : ∀ a a' (s₁ : Stage) [Next s s₁], Paired P s₁ a a' τ → Runs P s₁ pending (f a) (f' a') K) :
    Runs P s pending (x >>= fun e => bind e >>= f) (x' >>= fun e => bind e >>= f') K :=
  hx.read fun _ _ he => (bind_computes he).bind hf

/-- A temporary of a type that is numbered on from the block. -/
structure Owed (P : Placement) (s : Stage) (t t' : Nat) (τ : Ty) : Prop where
  shift_eq : t' = P.outer.size + t
  ty_eq : s.types[t]? = some τ

theorem Owed.up {s' : Stage} [h : Before s s'] {t t' : Nat} {τ : Ty} (ht : Owed P s t t' τ) :
    Owed P s' t t' τ :=
  ⟨ht.shift_eq, h.grows.types t τ ht.ty_eq⟩

/-- A temporary that is to be bound later. -/
theorem newTemp_kept {τ : Ty} :
    Runs P s pending (newTemp τ) (newTemp τ) (Kept P s (s.types.size :: pending)
      fun t t' s₁ => t = s.types.size ∧ Owed P s₁ t t' τ) := by
  intro hsound p p' hp
  have hleft : exec P.alone p (newTemp τ) =
      (.ok s.types.size, { p with stage := (s.newTemp τ).1 }) := by
    simp only [newTemp, exec_bind, exec_get, exec_modify, exec_pure, hp.left, Stage.newTemp,
      Stage.base, hp.outer, Array.size_empty, Nat.zero_add]
  have hright : exec P.env p' (newTemp τ) =
      (.ok (P.outer.size + s.types.size), { p' with stage := (s.newTemp τ).1.on P.outer }) := by
    simp only [newTemp, exec_bind, exec_get, exec_modify, exec_pure, hp.right]
    rfl
  have hgrows : s.Grows (s.newTemp τ).1 := ⟨fun t ty ht => Stage.getElem?_push_of_some ht, List.prefix_rfl⟩
  rw [hleft, hright]
  exact .both ⟨(s.newTemp τ).1, ⟨hp.outer, rfl, hp.left_next, rfl, hp.right_next⟩,
    hsound.newTemp τ, hgrows, rfl, rfl, Array.getElem?_push_size⟩

/-- A step that binds a pending temporary. -/
theorem settle_kept {f f' : Stage → Except Fault Stage} {t t' : Nat} {τ : Ty}
    (ht : Owed P s t t' τ) (stmt : Stmt) (htarget : stmt.target? = some t)
    (hfits : t ∉ boundBy s.stmts.toList → Fits P.env s.types s.stmts.toList stmt)
    (h : s.outer = #[] → s.Sound P (t :: pending) →
      f s = (s.markBound t).map (·.push stmt) ∧
      f' (s.on P.outer) =
        ((s.on P.outer).markBound t').map (·.push (stmt.shift P.outer.size))) :
    Runs P s (t :: pending) (onStage f) (onStage f')
      (Kept P s pending fun _ _ s₁ => Paired P s₁ (.tmp t) (.tmp t') τ) := by
  refine onStage_kept fun houter hsound => ?_
  obtain ⟨hf, hf'⟩ := h houter hsound
  have hfalse : s.bound[t]? = some false := (hsound.pending_iff t).mpr List.mem_cons_self
  have hnot : t ∉ boundBy s.stmts.toList := by
    rw [← hsound.bound_iff, hfalse]
    simp
  obtain ⟨hmark, hmark'⟩ := s.markBound_on P.outer houter t hfalse
  refine ⟨{ s with bound := s.bound.setIfInBounds t true }.push stmt, by rw [hf, hmark]; rfl, ?_,
    houter, hsound.settle htarget (hfits hnot), ?_, ?_, ?_⟩
  · rw [hf', ht.shift_eq, hmark', ← Stage.on_push]
    rfl
  · refine ⟨fun _ _ h => h, ?_⟩
    rw [Stage.push_stmts]
    exact List.prefix_append _ _
  · rw [ht.shift_eq]
    rfl
  · refine scopeOf_eq_some.mpr ⟨?_, ht.ty_eq⟩
    rw [Stage.push_stmts, boundBy_append, boundBy_single, htarget]
    exact List.mem_append_right _ List.mem_cons_self

theorem assign_kept {t t' : Nat} {e e' : Expr} {τ : Ty} (ht : Owed P s t t' τ)
    (he : Paired P s e e' τ) :
    Runs P s (t :: pending) (assign t e) (assign t' e')
      (Kept P s pending fun _ _ s₁ => Paired P s₁ (.tmp t) (.tmp t') τ) := by
  refine settle_kept ht (.bind t e) rfl (.bind t e τ he.hasTy ht.ty_eq) fun houter hsound => ?_
  obtain ⟨hleft, hright⟩ := he.check_eq houter hsound
  obtain ⟨hty, hty'⟩ := s.tempTy_on P.outer houter t τ ht.ty_eq
  rw [← ht.shift_eq] at hty'
  constructor
  · simp only [Stage.assign, hleft, hty, ok_bind, ne_eq, not_true, if_false]
    cases s.markBound t <;> rfl
  · simp only [Stage.assign, hright, hty', ok_bind, ne_eq, not_true, if_false, Stmt.shift,
      ← he.shift_eq, ← ht.shift_eq]
    cases (s.on P.outer).markBound t' <;> rfl

theorem loadLinked_kept {t t' : Nat} {a a' : Expr} {τ : Ty} (ht : Owed P s t t' τ)
    (hτ : τ.isInt = true) (ha : Paired P s a a' P.gprTy) :
    Runs P s (t :: pending) (onStage (·.loadLinked P.env.host t a))
      (onStage (·.loadLinked P.env.host t' a'))
      (Kept P s pending fun _ _ s₁ => Paired P s₁ (.tmp t) (.tmp t') τ) := by
  refine settle_kept ht (.loadLinked P.env.host t a) rfl
    (.loadLinked t a τ ha.hasTy ht.ty_eq hτ) fun houter hsound => ?_
  obtain ⟨hleft, hright⟩ := ha.checkAddress_eq houter hsound
  obtain ⟨hty, hty'⟩ := s.tempTy_on P.outer houter t τ ht.ty_eq
  rw [← ht.shift_eq] at hty'
  constructor
  · simp only [Stage.loadLinked, hleft, hty, ok_bind, hτ, Bool.not_true, Bool.false_eq_true,
      if_false]
    cases s.markBound t <;> rfl
  · simp only [Stage.loadLinked, hright, hty', ok_bind, hτ, Bool.not_true, Bool.false_eq_true,
      if_false, Stmt.shift, ← ha.shift_eq, ← ht.shift_eq]
    cases (s.on P.outer).markBound t' <;> rfl

theorem storeConditional_kept {t t' : Nat} {a a' e e' : Expr} {τ : Ty} (ht : Owed P s t t' .i1)
    (ha : Paired P s a a' P.gprTy) (he : Paired P s e e' τ) (hτ : τ ≠ .i1) :
    Runs P s (t :: pending) (onStage (·.storeConditional P.env.host t a e))
      (onStage (·.storeConditional P.env.host t' a' e'))
      (Kept P s pending fun _ _ s₁ => Paired P s₁ (.tmp t) (.tmp t') .i1) := by
  refine settle_kept ht (.storeConditional P.env.host t a e) rfl
    (.storeConditional t a e τ ha.hasTy he.hasTy hτ ht.ty_eq) fun houter hsound => ?_
  obtain ⟨haddr, haddr'⟩ := ha.checkAddress_eq houter hsound
  obtain ⟨hleft, hright⟩ := he.check_eq houter hsound
  obtain ⟨hty, hty'⟩ := s.tempTy_on P.outer houter t .i1 ht.ty_eq
  rw [← ht.shift_eq] at hty'
  constructor
  · simp only [Stage.storeConditional, haddr, hleft, hty, ok_bind, ne_eq, not_true, if_false]
    cases s.markBound t <;> rfl
  · simp only [Stage.storeConditional, haddr', hright, hty', ok_bind, ne_eq, not_true, if_false,
      Stmt.shift, ← ha.shift_eq, ← he.shift_eq, ← ht.shift_eq]
    cases (s.on P.outer).markBound t' <;> rfl

theorem timeBase_kept {t t' : Nat} (ht : Owed P s t t' .i64) :
    Runs P s (t :: pending)
      (onStage (·.call ⟨.readTimeBase, .u1 true, [], some t, none, []⟩))
      (onStage (·.call ⟨.readTimeBase, .u1 true, [], some t', none, []⟩))
      (Kept P s pending fun _ _ s₁ => Paired P s₁ (.tmp t) (.tmp t') .i64) := by
  refine settle_kept ht (.call ⟨.readTimeBase, .u1 true, [], some t, none, []⟩) rfl
    (.timeBase t ht.ty_eq) fun houter hsound => ?_
  have hguard : Paired P s (.u1 true) (.u1 true) .i1 := .u1
  obtain ⟨hleft, hright⟩ := hguard.check_eq houter hsound
  constructor
  · simp only [Stage.call, hleft, ok_bind, ne_eq, not_true, if_false]
    cases s.markBound t <;> rfl
  · simp only [Stage.call, hright, ok_bind, ne_eq, not_true, if_false, Stmt.shift, ht.shift_eq]
    cases (s.on P.outer).markBound (P.outer.size + t) <;> rfl

/-! ## Repetition -/

/-- A loop whose body may stage code. -/
theorem forM_emits {α : Type} {l : List α} {f f' : α → Lift Unit}
    (h : ∀ a ∈ l, ∀ (s₁ : Stage) [Next s s₁], Emits P s₁ pending (f a) (f' a)) :
    Emits P s pending (l.forM f) (l.forM f') := by
  induction l generalizing s with
  | nil => exact .done trivial
  | cons a l ih =>
      have : Next s s := ⟨.refl s⟩
      refine Runs.seq (h a List.mem_cons_self s) fun s₁ hs₁ => ?_
      refine (ih fun b hb s₂ hs₂ => ?_).last
      have : Next s s₂ := ⟨hs₁.grows.trans hs₂.grows⟩
      exact h b (List.mem_cons_of_mem a hb) s₂

theorem foldlM_reads {α : Type} {l : List α} {f f' : Expr → α → Lift Expr} {e e' : Expr} {τ : Ty}
    (he : Paired P s e e' τ)
    (h : ∀ a ∈ l, ∀ e e', Paired P s e e' τ → Reads P s pending (f e a) (f' e' a) τ) :
    Reads P s pending (l.foldlM f e) (l.foldlM f' e') τ := by
  induction l generalizing e e' with
  | nil => exact .pure he
  | cons a l ih =>
      rw [List.foldlM_cons, List.foldlM_cons]
      refine .read (h a List.mem_cons_self e e' he) fun _ _ he₁ => ?_
      exact ih he₁ fun b hb => h b (List.mem_cons_of_mem a hb)

theorem foldlM_computes {α : Type} {l : List α} {f f' : Expr → α → Lift Expr} {e e' : Expr}
    {τ : Ty} (he : Paired P s e e' τ)
    (h : ∀ a ∈ l, ∀ (s₁ : Stage) [Next s s₁] (e e' : Expr), Paired P s₁ e e' τ →
      Computes P s₁ pending (f e a) (f' e' a) τ) :
    Computes P s pending (l.foldlM f e) (l.foldlM f' e') τ := by
  induction l generalizing s e e' with
  | nil => exact .done he
  | cons a l ih =>
      have : Next s s := ⟨.refl s⟩
      rw [List.foldlM_cons, List.foldlM_cons]
      refine .bind (h a List.mem_cons_self s e e' he) fun _ _ s₁ hs₁ he₁ => ?_
      refine (ih he₁ fun b hb s₂ hs₂ => ?_).last
      have : Next s s₂ := ⟨hs₁.grows.trans hs₂.grows⟩
      exact h b (List.mem_cons_of_mem a hb) s₂

theorem mapM_kept {n : Nat} {es es' : List Expr} {f f' : Expr → Lift Expr} {τ τ₁ : Ty}
    (hes : PairedList P s es es' (List.replicate n τ))
    (h : ∀ (s₁ : Stage) [Next s s₁] (e e' : Expr), Paired P s₁ e e' τ →
      Computes P s₁ pending (f e) (f' e') τ₁) :
    Runs P s pending (es.mapM f) (es'.mapM f')
      (Kept P s pending fun fs fs' s₁ => PairedList P s₁ fs fs' (List.replicate n τ₁)) := by
  induction n generalizing s es es' with
  | zero =>
      obtain ⟨rfl, rfl⟩ := hes.eq_nil
      exact .done .nil
  | succ n ih =>
      have : Next s s := ⟨.refl s⟩
      obtain ⟨e, e', fs, fs', rfl, rfl, he, hfs⟩ := hes.exists_cons
      rw [List.mapM_cons, List.mapM_cons]
      refine .bind (h s e e' he) fun _ _ s₁ hs₁ he₁ => ?_
      refine .bind (ih hfs.up fun s₂ hs₂ => ?_) fun _ _ s₃ _ hfs₃ => .done (.cons he₁.up hfs₃)
      have : Next s s₂ := ⟨hs₁.grows.trans hs₂.grows⟩
      exact h s₂

end PowerLift.Lift
