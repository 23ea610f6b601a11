import PowerLift.Proofs.Operations

/-!
# Atomic operations

An operation checks its operands, makes or marks a temporary and adds its statement, one after the
other, on a stage that keeps whatever was done before a fault. Here the operations run in these
steps. A temporary that was made or marked before a check that fails would show in the stage that
the fault leaves; no operation leaves such a trace, whatever has happened to the stage before.
-/

namespace PowerLift

namespace Stage

/-- A run on a stage. A fault keeps what was done before it. -/
abbrev Stepwise := EStateM Fault Stage

/-- What is left of a state once a run on it has ended, well or not. -/
def leftover {σ α : Type} : EStateM.Result Fault σ α → σ
  | .ok _ s => s
  | .error _ s => s

/-- The outcome of a run that leaves `s` as it is where it fails. -/
def allOrNothing {σ : Type} (s : σ) : Except Fault σ → EStateM.Result Fault σ Unit
  | .ok s' => .ok () s'
  | .error f => .error f s

/-! ## Steps -/

namespace Stepwise

/-- Asks something of the stage. -/
def ask {α : Type} (question : Stage → Except Fault α) : Stepwise α := fun s =>
  match question s with
  | .ok a => .ok a s
  | .error f => .error f s

/-- Goes on only where `p` holds. -/
def ensure (p : Prop) [Decidable p] (f : Fault) : Stepwise Unit := do
  if ¬p then throw f

/-- Makes a temporary: its type first, then the flag that tells that it is not bound. -/
def newTemp (ty : Ty) : Stepwise Nat := do
  let t := (← get).fresh
  modify fun s => { s with types := s.types.push ty }
  modify fun s => { s with bound := s.bound.push false }
  return t

/-- Binds a staged temporary that is not bound yet. -/
def settle (t : Nat) : Stepwise Unit := do
  let s ← get
  ensure (s.base ≤ t) (.foreignTemp t)
  let some flag := s.bound[t - s.base]? | throw (.indexRange s.bound.size (t - s.base))
  ensure (flag = false) (.boundTwice t)
  modify fun s => { s with bound := s.bound.setIfInBounds (t - s.base) true }

/-- Adds a statement. -/
def emit (stmt : Stmt) : Stepwise Unit := modify fun s => s.push stmt

variable {α β : Type}

/-- What follows runs on the stage that is left, unless there was a fault. -/
theorem bind_run (run : Stepwise α) (next : α → Stepwise β) (s : Stage) :
    (run >>= next) s = match run s with
      | .ok a s' => next a s'
      | .error f s' => .error f s' := by
  change EStateM.bind run next s = _
  rw [EStateM.bind]
  cases run s <;> rfl

/-- Nothing is marked unless all is well with the temporary. -/
theorem settle_run (t : Nat) (s : Stage) : settle t s = allOrNothing s (s.markBound t) := by
  change (ensure (s.base ≤ t) (.foreignTemp t) >>= fun _ => _) s = _
  unfold markBound
  by_cases hlt : t < s.base
  · rw [if_pos hlt, ensure, if_pos (Nat.not_le.mpr hlt)]
    rfl
  · rw [if_neg hlt, ensure, if_neg (not_not.mpr (Nat.not_lt.mp hlt))]
    cases s.bound[t - s.base]? with
    | none => rfl
    | some flag => cases flag <;> rfl

/-- Questions about one argument after the other are one question. -/
theorem forM_ask (question : α → Stage → Except Fault Unit) (args : List α) :
    (args.forM fun arg => ask (question arg)) =
      ask fun s => args.forM fun arg => question arg s := by
  funext s
  induction args with
  | nil => rfl
  | cons arg args ih =>
      change (ask (question arg) >>= fun _ => args.forM fun arg => ask (question arg)) s =
        ask (fun s => question arg s >>= fun _ => args.forM fun arg => question arg s) s
      rw [bind_run, ask, ask]
      cases question arg s with
      | error f => rfl
      | ok u => exact ih

/-- The answer to a question need not be kept. -/
theorem discard_ask (question : Stage → Except Fault α) :
    discard (ask question) = ask fun s => discard (question s) := by
  funext s
  change EStateM.map _ (ask question) s = _
  rw [EStateM.map, ask, ask]
  cases question s <;> rfl

end Stepwise

open Stepwise

/-- An operation step by step. -/
def Operation.perform : Operation → Stepwise Unit
  | .newTemp ty => discard (Stepwise.newTemp ty)
  | .assign t e => do
      let ty ← ask (·.check e)
      let want ← ask (·.tempTy t)
      ensure (want = ty) (.assignTy t want ty)
      settle t
      emit (.bind t e)
  | .bind e => do
      let ty ← ask (·.check e)
      let t ← Stepwise.newTemp ty
      settle t
      emit (.bind t e)
  | .mark addr len delta => emit (.mark addr len delta)
  | .put offset ty e => do
      let got ← ask (·.check e)
      ensure (got = ty) (.putTy got ty offset)
      emit (.put offset e)
  | .store order addr value => do
      ask (·.checkAddress addr)
      let ty ← ask (·.check value)
      ensure (ty ≠ .i1) .storeTruth
      emit (.store order addr value)
  | .exit guard kind target ipOffset => do
      let ty ← ask (·.check guard)
      ensure (ty = .i1) (.exitGuard ty)
      ensure target.isAddress (.exitTarget target)
      emit (.exit guard kind target ipOffset)
  | .loadLinked order t addr => do
      ask (·.checkAddress addr)
      let ty ← ask (·.tempTy t)
      ensure ty.isInt .linkedResult
      settle t
      emit (.loadLinked order t addr)
  | .storeConditional order t addr value => do
      ask (·.checkAddress addr)
      let _ ← ask (·.check value)
      let ty ← ask (·.tempTy t)
      ensure (ty = .i1) (.conditionalResult ty)
      settle t
      emit (.storeConditional order t addr value)
  | .fence => emit .fence
  | .call c => do
      let ty ← ask (·.check c.guard)
      ensure (ty = .i1) (.callGuard ty)
      c.args.forM fun arg => discard (ask (·.check arg))
      if let some m := c.memory then ask (·.checkAddress m.addr)
      if let some t := c.result then settle t
      emit (.call c)
  | .hint addr len next => do
      ask (·.checkAddress addr)
      ask (·.checkAddress next)
      emit (.hint addr len next)

/-! ## What an operation adds -/

/-- The statement that an operation adds; a new temporary alone comes without one. -/
def Operation.stmt? (s : Stage) : Operation → Option Stmt
  | .newTemp _ => none
  | .assign t e => some (.bind t e)
  | .bind e => some (.bind s.fresh e)
  | .mark addr len delta => some (.mark addr len delta)
  | .put offset _ e => some (.put offset e)
  | .store order addr value => some (.store order addr value)
  | .exit guard kind target ipOffset => some (.exit guard kind target ipOffset)
  | .loadLinked order t addr => some (.loadLinked order t addr)
  | .storeConditional order t addr value => some (.storeConditional order t addr value)
  | .fence => some .fence
  | .call c => some (.call c)
  | .hint addr len next => some (.hint addr len next)

/-- The type of the temporary that an operation makes. -/
def Operation.made? (s : Stage) : Operation → Option Ty
  | .newTemp ty => some ty
  | .bind e => (s.check e).toOption
  | _ => none

/-- A stage behind an operation that did all that it should, and nothing else. -/
structure Operation.Adds (o : Operation) (s s' : Stage) : Prop where
  outer : s'.outer = s.outer
  types : s'.types = s.types ++ (o.made? s).toArray
  stmts : s'.stmts = s.stmts ++ (o.stmt? s).toArray
  level : s'.bound.size = s'.types.size
  /-- What the new statement binds is bound now, and nothing else has become so. -/
  bound : ∀ i : Nat, s'.bound[i]? = some true ↔
    s.bound[i]? = some true ∨ (o.stmt? s).bind Stmt.target? = some (s.base + i)
  /-- What the new statement binds is the stage's own and was not bound before. -/
  fresh : ∀ t, (o.stmt? s).bind Stmt.target? = some t →
    s.base ≤ t ∧ s.bound[t - s.base]? ≠ some true

variable {s s' : Stage} {o : Operation}

theorem Operation.Adds.of_push {stmt : Stmt} (hs : s.Level) (hstmt : o.stmt? s = some stmt)
    (htarget : stmt.target? = none) (hmade : o.made? s = none) : o.Adds s (s.push stmt) where
  outer := rfl
  types := by simp [hmade, push]
  stmts := by simp [hstmt, push]
  level := hs
  bound i := by simp [hstmt, htarget, push]
  fresh := by simp [hstmt, htarget]

theorem Operation.Adds.of_settle {stmt : Stmt} {t : Nat} {marked : Stage} (hs : s.Level)
    (hstmt : o.stmt? s = some stmt) (htarget : stmt.target? = some t) (hmade : o.made? s = none)
    (hmarked : s.markBound t = .ok marked) : o.Adds s (marked.push stmt) := by
  obtain ⟨hle, hfalse, rfl⟩ := markBound_eq_ok.mp hmarked
  obtain ⟨hlt, -⟩ := Array.getElem?_eq_some_iff.mp hfalse
  constructor
  · rfl
  · simp [hmade, push]
  · simp [hstmt, push]
  · simpa [push, Level] using hs
  · intro i
    simp only [push, Array.getElem?_setIfInBounds, hstmt, Option.bind_some, htarget,
      Option.some.injEq]
    split
    next heq => simp [← heq, hlt, Nat.add_sub_cancel' hle]
    next hne => simp [show t ≠ s.base + i by omega]
  · simp [hstmt, htarget, hle, hfalse]

theorem Operation.Adds.newTemp (hs : s.Level) (ty : Ty) :
    (Operation.newTemp ty).Adds s (s.newTemp ty).1 where
  outer := rfl
  types := by simp [Operation.made?, Stage.newTemp]
  stmts := by simp [Operation.stmt?, Stage.newTemp]
  level := by simpa [Stage.newTemp, Level] using hs
  bound i := by
    simp only [Stage.newTemp, Operation.stmt?, Array.getElem?_push, Option.bind_none, reduceCtorEq,
      or_false]
    split
    next heq => simp [heq]
    next => rfl
  fresh := by simp [Operation.stmt?]

theorem Operation.Adds.bind (hs : s.Level) {e : Expr} {ty : Ty} (he : s.check e = .ok ty) :
    (Operation.bind e).Adds s (s.withTemp e ty) where
  outer := rfl
  types := by simp [Operation.made?, he, withTemp, push, Except.toOption]
  stmts := by simp [Operation.stmt?, withTemp, push]
  level := by simpa [withTemp, push, Level] using hs
  bound i := by
    have hsize : s.bound.size = s.types.size := hs
    simp only [withTemp, push, Operation.stmt?, Array.getElem?_push, Option.bind_some, Stmt.target?,
      Option.some.injEq, Stage.fresh, Nat.add_left_cancel_iff, hsize]
    split
    next heq => simp [heq]
    next hne => simp [Ne.symm hne]
  fresh := by
    have hsize : s.bound.size = s.types.size := hs
    simp [Operation.stmt?, Stmt.target?, Stage.fresh, ← hsize]

/-! ## What an operation asks for -/

/-- A temporary of the stage that may be bound. -/
def Free (s : Stage) (t : Nat) : Prop := s.base ≤ t ∧ s.bound[t - s.base]? = some false

/-- The conditions of an operation, in no order. -/
def Operation.Allowed (s : Stage) : Operation → Prop
  | .newTemp _ | .mark _ _ _ | .fence => True
  | .assign t e => (∃ τ, s.check e = .ok τ ∧ s.tempTy t = .ok τ) ∧ s.Free t
  | .bind e => ∃ τ, s.check e = .ok τ
  | .put _ ty e => s.check e = .ok ty
  | .store _ addr value =>
      s.checkAddress addr = .ok () ∧ ∃ τ, s.check value = .ok τ ∧ τ ≠ .i1
  | .exit guard _ target _ => s.check guard = .ok .i1 ∧ target.isAddress = true
  | .loadLinked _ t addr =>
      s.checkAddress addr = .ok () ∧ (∃ τ, s.tempTy t = .ok τ ∧ τ.isInt = true) ∧ s.Free t
  | .storeConditional _ t addr value =>
      s.checkAddress addr = .ok () ∧ (∃ τ, s.check value = .ok τ) ∧ s.tempTy t = .ok .i1 ∧
        s.Free t
  | .call c =>
      s.check c.guard = .ok .i1 ∧ (∀ arg ∈ c.args, ∃ τ, s.check arg = .ok τ) ∧
        (∀ m, c.memory = some m → s.checkAddress m.addr = .ok ()) ∧
        ∀ t, c.result = some t → s.Free t
  | .hint addr _ next => s.checkAddress addr = .ok () ∧ s.checkAddress next = .ok ()

theorem exists_markBound_iff {t : Nat} : (∃ s', s.markBound t = .ok s') ↔ s.Free t := by
  simp only [markBound_eq_ok, Free]
  exact ⟨fun ⟨_, hle, hfalse, _⟩ => ⟨hle, hfalse⟩, fun ⟨hle, hfalse⟩ => ⟨_, hle, hfalse, rfl⟩⟩

/-- A call takes its statement where all that it names is in order. -/
theorem exists_call_iff {c : EffectCall} :
    (∃ s', s.call c = .ok s') ↔ (Operation.call c).Allowed s := by
  have hargs : c.args.forM (fun arg => discard (s.check arg)) = .ok () ↔
      ∀ arg ∈ c.args, ∃ τ, s.check arg = .ok τ :=
    ⟨fun h arg harg => discard_eq_ok.mp (eq_ok_of_forM h arg harg),
      fun h => forM_eq_ok fun arg harg => discard_eq_ok.mpr (h arg harg)⟩
  simp only [call, bind_eq_ok, unless_eq_ok, not_not, Operation.Allowed, ← hargs,
    ← exists_markBound_iff]
  cases c.memory <;> cases c.result <;> simp [bind_eq_ok, Unique.exists_iff]

theorem Operation.apply_bind (s : Stage) (e : Expr) :
    (Operation.bind e).apply s = s.check e >>= fun ty => .ok (s.withTemp e ty) := by
  change (s.bind e >>= fun p => .ok p.1) = _
  rw [Stage.bind]
  cases s.check e <;> rfl

/-- An operation succeeds where its conditions hold. -/
theorem Operation.exists_apply_iff : (∃ s', o.apply s = .ok s') ↔ o.Allowed s := by
  cases o with
  | newTemp | mark | fence => exact ⟨fun _ => trivial, fun _ => ⟨_, rfl⟩⟩
  | assign t e =>
      simp only [apply, Stage.assign, bind_eq_ok, unless_eq_ok, not_not, Allowed,
        ← exists_markBound_iff]
      constructor
      · rintro ⟨_, ty, he, _, ht, rfl, marked, hmarked, -⟩
        exact ⟨⟨_, he, ht⟩, marked, hmarked⟩
      · rintro ⟨⟨τ, he, ht⟩, marked, hmarked⟩
        exact ⟨_, τ, he, τ, ht, rfl, marked, hmarked, rfl⟩
  | bind e =>
      simp only [apply_bind, bind_eq_ok, Allowed]
      constructor
      · rintro ⟨_, τ, he, -⟩
        exact ⟨τ, he⟩
      · rintro ⟨τ, he⟩
        exact ⟨_, τ, he, rfl⟩
  | put offset ty e =>
      simp only [apply, Stage.put, bind_eq_ok, unless_eq_ok, not_not, Allowed]
      constructor
      · rintro ⟨_, _, he, rfl, -⟩
        exact he
      · exact fun he => ⟨_, ty, he, rfl, rfl⟩
  | store order addr value =>
      simp only [apply, Stage.store, bind_eq_ok, unless_eq_ok, Allowed]
      constructor
      · rintro ⟨_, _, haddr, ty, hvalue, hty, -⟩
        exact ⟨haddr, ty, hvalue, hty⟩
      · rintro ⟨haddr, ty, hvalue, hty⟩
        exact ⟨_, (), haddr, ty, hvalue, hty, rfl⟩
  | exit guard kind target ipOffset =>
      simp only [apply, Stage.exit, bind_eq_ok, unless_eq_ok, not_not, Allowed]
      constructor
      · rintro ⟨_, _, hguard, rfl, htarget, -⟩
        exact ⟨hguard, by simpa using htarget⟩
      · rintro ⟨hguard, htarget⟩
        exact ⟨_, _, hguard, rfl, by simpa using htarget, rfl⟩
  | loadLinked order t addr =>
      simp only [apply, Stage.loadLinked, bind_eq_ok, unless_eq_ok, Allowed,
        ← exists_markBound_iff]
      constructor
      · rintro ⟨_, _, haddr, ty, ht, hty, marked, hmarked, -⟩
        exact ⟨haddr, ⟨ty, ht, by simpa using hty⟩, marked, hmarked⟩
      · rintro ⟨haddr, ⟨ty, ht, hty⟩, marked, hmarked⟩
        exact ⟨_, (), haddr, ty, ht, by simpa using hty, marked, hmarked, rfl⟩
  | storeConditional order t addr value =>
      simp only [apply, Stage.storeConditional, bind_eq_ok, unless_eq_ok, not_not, Allowed,
        ← exists_markBound_iff]
      constructor
      · rintro ⟨_, _, haddr, ty, hvalue, _, ht, rfl, marked, hmarked, -⟩
        exact ⟨haddr, ⟨ty, hvalue⟩, ht, marked, hmarked⟩
      · rintro ⟨haddr, ⟨ty, hvalue⟩, ht, marked, hmarked⟩
        exact ⟨_, (), haddr, ty, hvalue, _, ht, rfl, marked, hmarked, rfl⟩
  | call c => exact exists_call_iff
  | hint addr len next =>
      simp only [apply, Stage.hint, bind_eq_ok, Allowed]
      constructor
      · rintro ⟨_, _, haddr, _, hnext, -⟩
        exact ⟨haddr, hnext⟩
      · rintro ⟨haddr, hnext⟩
        exact ⟨_, (), haddr, (), hnext, rfl⟩

/-! ## All or nothing -/

/-- A run ends as `r` says, leaves the stage as it is if that is a fault, and otherwise makes of it
what `goal` asks for. -/
structure Does (run : Stepwise Unit) (s : Stage) (r : Except Fault Stage) (goal : Stage → Prop) :
    Prop where
  run_eq : run s = allOrNothing s r
  holds : ∀ s', r = .ok s' → goal s'

namespace Does

variable {goal : Stage → Prop}

/-- A question leaves the stage alone, so what follows is asked of the same stage. -/
theorem ask_bind {α : Type} {question : Stage → Except Fault α} {run : α → Stepwise Unit}
    {r : α → Except Fault Stage} (h : ∀ a, question s = .ok a → Does (run a) s (r a) goal) :
    Does (ask question >>= run) s (question s >>= r) goal := by
  cases hq : question s with
  | error f =>
      refine ⟨?_, nofun⟩
      rw [bind_run, ask, hq]
      rfl
  | ok a =>
      obtain ⟨hrun, hgoal⟩ := h a hq
      refine ⟨?_, hgoal⟩
      rw [bind_run, ask, hq]
      exact hrun

/-- A check looks at what is known already. -/
theorem ensure_bind {p q : Prop} [Decidable p] [Decidable q] {f : Fault}
    {run : Unit → Stepwise Unit} {r : Unit → Except Fault Stage} (hq : q ↔ ¬p)
    (h : p → Does (run ()) s (r ()) goal) :
    Does (ensure p f >>= run) s (if q then throw f >>= r else r ()) goal := by
  by_cases hp : p
  · rw [ensure, if_neg (not_not.mpr hp), if_neg (fun h => hq.mp h hp)]
    exact h hp
  · rw [ensure, if_pos hp, if_pos (hq.mpr hp)]
    exact ⟨rfl, nofun⟩

theorem emit {stmt : Stmt} (hgoal : goal (s.push stmt)) :
    Does (Stepwise.emit stmt) s (.ok (s.push stmt)) goal :=
  ⟨rfl, by rintro _ ⟨⟩; exact hgoal⟩

theorem settle_bind {t : Nat} {stmt : Stmt}
    (hgoal : ∀ marked, s.markBound t = .ok marked → goal (marked.push stmt)) :
    Does (settle t >>= fun _ => Stepwise.emit stmt) s
      (s.markBound t >>= fun marked => .ok (marked.push stmt)) goal := by
  constructor
  · rw [bind_run, settle_run]
    cases s.markBound t <;> rfl
  · intro s' h
    obtain ⟨marked, hmarked, h⟩ := bind_eq_ok.mp h
    cases h
    exact hgoal marked hmarked

end Does

theorem Operation.performs_bind (hs : s.Level) (e : Expr) :
    Does (perform (.bind e)) s ((Operation.bind e).apply s) ((Operation.bind e).Adds s) := by
  rw [apply_bind]
  refine .ask_bind fun ty he => ⟨?_, by rintro _ ⟨⟩; exact .bind hs he⟩
  -- The check of the new temporary comes after it is made, but it cannot fail.
  have hsettle : (settle s.fresh >>= fun _ => emit (.bind s.fresh e)) (s.newTemp ty).1 =
      .ok () (s.withTemp e ty) := by
    rw [bind_run, settle_run, markBound_newTemp hs]
    rfl
  exact hsettle

theorem Operation.performs_call (hs : s.Level) (c : EffectCall) :
    Does (perform (.call c)) s ((Operation.call c).apply s) ((Operation.call c).Adds s) := by
  refine .ask_bind fun ty _ => .ensure_bind Iff.rfl fun _ => ?_
  simp only [discard_ask, forM_ask]
  refine .ask_bind fun _ _ => ?_
  -- The statement comes last, and only what it binds may still be refused then.
  cases hresult : c.result with
  | none =>
      have hlast : Does (emit (.call c)) s (.ok (s.push (.call c))) ((Operation.call c).Adds s) :=
        .emit (.of_push hs rfl hresult rfl)
      cases c.memory with
      | none => exact hlast
      | some m => exact .ask_bind fun _ _ => hlast
  | some t =>
      have hlast : Does (settle t >>= fun _ => emit (.call c)) s
          (s.markBound t >>= fun marked => .ok (marked.push (.call c)))
          ((Operation.call c).Adds s) :=
        .settle_bind fun _ => .of_settle hs rfl hresult rfl
      cases c.memory with
      | none => exact hlast
      | some m => exact .ask_bind fun _ _ => hlast

/-- What an operation does in steps is what it does at once, and all of it or nothing. -/
theorem Operation.performs (hs : s.Level) : ∀ o : Operation,
    Does o.perform s (o.apply s) (o.Adds s)
  | .newTemp ty => ⟨rfl, by rintro _ ⟨⟩; exact .newTemp hs ty⟩
  | .assign t e => by
      refine .ask_bind fun ty _ => .ask_bind fun want _ => .ensure_bind Iff.rfl fun _ => ?_
      exact .settle_bind fun _ => .of_settle hs rfl rfl rfl
  | .bind e => performs_bind hs e
  | .mark addr len delta => .emit (.of_push hs rfl rfl rfl)
  | .put offset ty e => by
      refine .ask_bind fun got _ => .ensure_bind Iff.rfl fun _ => ?_
      exact .emit (.of_push hs rfl rfl rfl)
  | .store order addr value => by
      refine .ask_bind fun _ _ => .ask_bind fun ty _ => .ensure_bind not_not.symm fun _ => ?_
      exact .emit (.of_push hs rfl rfl rfl)
  | .exit guard kind target ipOffset => by
      refine .ask_bind fun ty _ => .ensure_bind Iff.rfl fun _ => .ensure_bind (by simp) fun _ => ?_
      exact .emit (.of_push hs rfl rfl rfl)
  | .loadLinked order t addr => by
      refine .ask_bind fun _ _ => .ask_bind fun ty _ => .ensure_bind (by simp) fun _ => ?_
      exact .settle_bind fun _ => .of_settle hs rfl rfl rfl
  | .storeConditional order t addr value => by
      refine .ask_bind fun _ _ => .ask_bind fun _ _ => .ask_bind fun ty _ =>
        .ensure_bind Iff.rfl fun _ => ?_
      exact .settle_bind fun _ => .of_settle hs rfl rfl rfl
  | .fence => .emit (.of_push hs rfl rfl rfl)
  | .call c => performs_call hs c
  | .hint addr len next =>
      .ask_bind fun _ _ => .ask_bind fun _ _ => .emit (.of_push hs rfl rfl rfl)

/-! ## Runs of operations -/

/-- The stage after operations on an empty one, each on whatever the one before it left. -/
def attempts (block : Block) (past : List Operation) : Stage :=
  past.foldl (fun s o => leftover (o.perform s)) (start block)

/-- Whatever an operation comes to, its stage stays one of the block and in good order. -/
theorem Tracked.leftover (h : s.Tracked) (o : Operation) :
    (leftover (o.perform s)).Tracked ∧ (leftover (o.perform s)).outer = s.outer := by
  obtain ⟨hrun, hadds⟩ := o.performs h.level
  rw [hrun]
  cases happly : o.apply s with
  | error f => exact ⟨h, rfl⟩
  | ok s' => exact ⟨.of_yields (Operation.apply_yields h.level happly) h, (hadds s' happly).outer⟩

theorem attempts_tracked (block : Block) (past : List Operation) :
    (attempts block past).Tracked ∧ (attempts block past).outer = block.types := by
  have hfold : ∀ s : Stage, s.Tracked →
      let s' := past.foldl (fun s o => Stage.leftover (o.perform s)) s
      s'.Tracked ∧ s'.outer = s.outer := by
    induction past with
    | nil => exact fun s hs => ⟨hs, rfl⟩
    | cons o past ih =>
        intro s hs
        obtain ⟨hleft, houter⟩ := hs.leftover o
        exact ⟨(ih _ hleft).1, (ih _ hleft).2.trans houter⟩
  exact hfold _ (.start block)

/-! ## Commits -/

/-- A commit step by step: the temporaries come before the statements. -/
def commitSteps (s : Stage) : EStateM Fault Block Unit := do
  let size := (← get).types.size
  if size ≠ s.base then throw (.blockChanged size s.base)
  modify fun block => { block with types := block.types ++ s.types }
  modify fun block => { block with stmts := block.stmts ++ s.stmts }

theorem commitSteps_run (s : Stage) (block : Block) :
    s.commitSteps block = allOrNothing block (s.commit block) := by
  unfold commit
  by_cases hsize : block.types.size = s.base
  · rw [if_pos hsize]
    change (if _ then _ else _ : EStateM Fault Block Unit) block = _
    rw [if_neg (not_not.mpr hsize)]
    rfl
  · rw [if_neg hsize]
    change (if _ then _ else _ : EStateM Fault Block Unit) block = _
    rw [if_pos hsize]
    rfl

/-- Whatever has been tried on a stage, an operation then either adds its one statement, marks what
that binds and changes nothing else, or faults and leaves the stage as it is, the former where its
conditions hold; only a new temporary comes without a statement. A commit adds the temporaries and
statements of the stage to the block, or faults and leaves the block as it is; the latter where the
temporaries of the stage would not continue those of the block. -/
theorem operations_atomic (block : Block) (past : List Operation) :
    let s := attempts block past
    (∀ o : Operation,
      o.Allowed s ∧ (∃ s', o.perform s = .ok () s' ∧ o.apply s = .ok s' ∧ o.Adds s s') ∨
        ¬o.Allowed s ∧ ∃ f, o.perform s = .error f s ∧ o.apply s = .error f) ∧
    (∀ o : Operation, o.stmt? s = none ↔ ∃ ty, o = .newTemp ty) ∧
    ∀ target : Block,
      if target.types.size = block.types.size then
        s.commitSteps target = .ok () (target.extended s) ∧
          s.commit target = .ok (target.extended s)
      else ∃ f, s.commitSteps target = .error f target ∧ s.commit target = .error f := by
  intro s
  obtain ⟨hs, houter⟩ : s.Tracked ∧ s.outer = block.types := attempts_tracked block past
  refine ⟨fun o => ?_, fun o => ?_, fun target => ?_⟩
  · obtain ⟨hrun, hadds⟩ := o.performs hs.level
    rw [hrun, ← Operation.exists_apply_iff]
    cases happly : o.apply s with
    | error f => exact .inr ⟨nofun, f, rfl, rfl⟩
    | ok s' => exact .inl ⟨⟨s', rfl⟩, s', rfl, rfl, hadds s' happly⟩
  · cases o <;> simp [Operation.stmt?]
  · have hbase : s.base = block.types.size := by rw [base, houter]
    rw [commitSteps_run, commit, hbase]
    split
    · exact ⟨rfl, rfl⟩
    · exact ⟨_, rfl, rfl⟩

end Stage

end PowerLift
