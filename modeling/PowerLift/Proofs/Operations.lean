import PowerLift.Proofs.Effect
import PowerLift.Proofs.WellFormed

/-!
# Operations of a stage

An operation that succeeds adds a temporary to the stage, or a statement that is well typed and
reads only what may be read, and marks what the statement binds. So a stage knows at all times which
of its temporaries its code has bound.
-/

namespace PowerLift

/-- A result in two steps. -/
theorem bind_eq_ok {ε α β : Type} {x : Except ε α} {f : α → Except ε β} {b : β} :
    (x >>= f) = .ok b ↔ ∃ a, x = .ok a ∧ f a = .ok b := by
  cases x with
  | error e => exact ⟨nofun, nofun⟩
  | ok a => simp

/-- A check that must not fire. -/
theorem unless_eq_ok {α : Type} {p : Prop} [Decidable p] {f : Fault} {k : Unit → Except Fault α}
    {a : α} : (if p then throw f >>= k else k ()) = .ok a ↔ ¬p ∧ k () = .ok a := by
  by_cases hp : p
  · rw [if_pos hp]
    exact ⟨nofun, fun h => absurd hp h.1⟩
  · rw [if_neg hp]
    exact ⟨fun h => ⟨hp, h⟩, fun h => h.2⟩

/-! ## Typed statements -/

namespace Expr

variable {types types' : Nat → Except Fault Ty}

mutual

/-- An expression that type-checks does so where more temporaries have types. -/
theorem check_extend (h : ∀ t τ, types t = .ok τ → types' t = .ok τ) :
    ∀ (e : Expr) (τ : Ty), e.check types = .ok τ → e.check types' = .ok τ
  | .get _ _, _, he | .const _, _, he => he
  | .tmp t, τ, he => h t τ he
  | .apply op args, τ, he => by
      unfold check at he ⊢
      split at he
      · cases he
      · rename_i harity
        obtain ⟨_, hargs, hret⟩ := bind_eq_ok.mp he
        rw [if_neg harity]
        exact bind_eq_ok.mpr ⟨(), checkOperands_extend h op 0 _ args hargs, hret⟩
  | .load _ _ addr, τ, he => by
      unfold check at he ⊢
      obtain ⟨got, haddr, hret⟩ := bind_eq_ok.mp he
      exact bind_eq_ok.mpr ⟨got, check_extend h addr got haddr, hret⟩
  | .ite cond yes no, τ, he => by
      unfold check at he ⊢
      obtain ⟨c, hcond, he⟩ := bind_eq_ok.mp he
      refine bind_eq_ok.mpr ⟨c, check_extend h cond c hcond, ?_⟩
      split at he
      · cases he
      · rename_i hc
        rw [if_neg hc]
        obtain ⟨a, hyes, he⟩ := bind_eq_ok.mp he
        obtain ⟨b, hno, he⟩ := bind_eq_ok.mp he
        exact bind_eq_ok.mpr ⟨a, check_extend h yes a hyes,
          bind_eq_ok.mpr ⟨b, check_extend h no b hno, he⟩⟩
  | .call _ _ args, τ, he => by
      unfold check at he ⊢
      obtain ⟨_, hargs, hret⟩ := bind_eq_ok.mp he
      exact bind_eq_ok.mpr ⟨(), checkEach_extend h args hargs, hret⟩

theorem checkOperands_extend (h : ∀ t τ, types t = .ok τ → types' t = .ok τ) (op : Op) (i : Nat) :
    ∀ (wants : List Ty) (args : List Expr), checkOperands types op i wants args = .ok () →
      checkOperands types' op i wants args = .ok ()
  | want :: wants, arg :: args, hargs => by
      unfold checkOperands at hargs ⊢
      obtain ⟨got, harg, hargs⟩ := bind_eq_ok.mp hargs
      refine bind_eq_ok.mpr ⟨got, check_extend h arg got harg, ?_⟩
      split at hargs
      · cases hargs
      · rename_i hgot
        rw [if_neg hgot]
        exact checkOperands_extend h op (i + 1) wants args hargs
  | [], _, _ => by unfold checkOperands; rfl
  | _ :: _, [], _ => by unfold checkOperands; rfl

theorem checkEach_extend (h : ∀ t τ, types t = .ok τ → types' t = .ok τ) :
    ∀ (args : List Expr), checkEach types args = .ok () → checkEach types' args = .ok ()
  | [], _ => rfl
  | arg :: args, hargs => by
      unfold checkEach at hargs ⊢
      obtain ⟨τ, harg, hargs⟩ := bind_eq_ok.mp hargs
      exact bind_eq_ok.mpr ⟨τ, check_extend h arg τ harg, checkEach_extend h args hargs⟩

end

/-- An expression that has the type of an address. -/
def IsAddress (types : Nat → Except Fault Ty) (e : Expr) : Prop :=
  e.check types = .ok .i32 ∨ e.check types = .ok .i64

theorem IsAddress.extend (h : ∀ t τ, types t = .ok τ → types' t = .ok τ) {e : Expr}
    (he : e.IsAddress types) : e.IsAddress types' :=
  he.imp (check_extend h e _) (check_extend h e _)

end Expr

namespace Stmt

variable {types types' : Nat → Except Fault Ty}

/-- Statements that type-check, whichever guest they are for. -/
def Checked (types : Nat → Except Fault Ty) : Stmt → Prop
  | .mark _ _ _ | .fence => True
  | .bind t value => ∃ τ, value.check types = .ok τ ∧ types t = .ok τ
  | .put _ value => ∃ τ, value.check types = .ok τ
  | .store _ addr value => addr.IsAddress types ∧ ∃ τ, value.check types = .ok τ ∧ τ ≠ .i1
  | .exit guard _ target _ => guard.check types = .ok .i1 ∧ target.isAddress = true
  | .loadLinked _ t addr => addr.IsAddress types ∧ ∃ τ, types t = .ok τ ∧ τ.isInt = true
  | .storeConditional _ t addr value =>
      addr.IsAddress types ∧ (∃ τ, value.check types = .ok τ) ∧ types t = .ok .i1
  | .call c =>
      c.guard.check types = .ok .i1 ∧ Expr.checkEach types c.args = .ok () ∧
        (∀ m, c.memory = some m → m.addr.IsAddress types) ∧
        ∀ t, c.result = some t → ∃ τ, types t = .ok τ
  | .hint base _ next => base.IsAddress types ∧ next.IsAddress types

theorem Checked.extend (h : ∀ t τ, types t = .ok τ → types' t = .ok τ) {stmt : Stmt}
    (hstmt : stmt.Checked types) : stmt.Checked types' := by
  have hcheck : ∀ {e : Expr} {τ : Ty}, e.check types = .ok τ → e.check types' = .ok τ :=
    fun {e τ} he => Expr.check_extend h e τ he
  cases stmt with
  | mark | fence => trivial
  | bind t value =>
      obtain ⟨τ, hvalue, ht⟩ := hstmt
      exact ⟨τ, hcheck hvalue, h t τ ht⟩
  | put offset value =>
      obtain ⟨τ, hvalue⟩ := hstmt
      exact ⟨τ, hcheck hvalue⟩
  | store order addr value =>
      obtain ⟨haddr, τ, hvalue, hτ⟩ := hstmt
      exact ⟨haddr.extend h, τ, hcheck hvalue, hτ⟩
  | exit guard kind target ipOffset => exact ⟨hcheck hstmt.1, hstmt.2⟩
  | loadLinked order t addr =>
      obtain ⟨haddr, τ, ht, hτ⟩ := hstmt
      exact ⟨haddr.extend h, τ, h t τ ht, hτ⟩
  | storeConditional order t addr value =>
      obtain ⟨haddr, ⟨τ, hvalue⟩, ht⟩ := hstmt
      exact ⟨haddr.extend h, ⟨τ, hcheck hvalue⟩, h t .i1 ht⟩
  | call c =>
      obtain ⟨hguard, hargs, hmemory, hresult⟩ := hstmt
      refine ⟨hcheck hguard, Expr.checkEach_extend h c.args hargs,
        fun m hm => (hmemory m hm).extend h, fun t ht => ?_⟩
      obtain ⟨τ, hτ⟩ := hresult t ht
      exact ⟨τ, h t τ hτ⟩
  | hint base len next => exact ⟨hstmt.1.extend h, hstmt.2.extend h⟩

end Stmt

/-! ## Operations of a stage -/

namespace Stage

/-- An operation of a stage. -/
inductive Operation where
  | newTemp (ty : Ty)
  | assign (t : Nat) (e : Expr)
  | bind (e : Expr)
  | mark (addr : BitVec 64) (len delta : Nat)
  | put (offset : Nat) (ty : Ty) (e : Expr)
  | store (order : ByteOrder) (addr value : Expr)
  | exit (guard : Expr) (kind : JumpKind) (target : Const) (ipOffset : Nat)
  | loadLinked (order : ByteOrder) (t : Nat) (addr : Expr)
  | storeConditional (order : ByteOrder) (t : Nat) (addr value : Expr)
  | fence
  | call (c : EffectCall)
  | hint (addr : Expr) (len : Nat) (next : Expr)

/-- The stage behind an operation; the number of a new temporary is not kept. -/
def Operation.apply (s : Stage) : Operation → Except Fault Stage
  | .newTemp ty => .ok (s.newTemp ty).1
  | .assign t e => s.assign t e
  | .bind e => do
      let (s, _) ← s.bind e
      return s
  | .mark addr len delta => .ok (s.mark addr len delta)
  | .put offset ty e => s.put offset ty e
  | .store order addr value => s.store order addr value
  | .exit guard kind target ipOffset => s.exit guard kind target ipOffset
  | .loadLinked order t addr => s.loadLinked order t addr
  | .storeConditional order t addr value => s.storeConditional order t addr value
  | .fence => .ok s.fence
  | .call c => s.call c
  | .hint addr len next => s.hint addr len next

variable {s s' : Stage}

/-- A statement that type-checks and reads only what may be read. -/
structure Admits (s : Stage) (stmt : Stmt) : Prop where
  checked : stmt.Checked s.tempTy
  reads : ∀ t ∈ stmt.reads, s.checkRead t = .ok ()

/-- What one operation makes of a stage. -/
inductive Yields : Stage → Stage → Prop where
  | temp (s : Stage) (ty : Ty) : Yields s (s.newTemp ty).1
  | push {s : Stage} {stmt : Stmt} (hstmt : s.Admits stmt) (htarget : stmt.target? = none) :
      Yields s (s.push stmt)
  | settle {s marked : Stage} {stmt : Stmt} {t : Nat} (hstmt : s.Admits stmt)
      (htarget : stmt.target? = some t) (hmarked : s.markBound t = .ok marked) :
      Yields s (marked.push stmt)
  /-- A temporary is made and bound at once. -/
  | bind {s s' : Stage} {ty : Ty} (h : Yields (s.newTemp ty).1 s') : Yields s s'

theorem checkAddress_eq_ok {e : Expr} {u : Unit} : s.checkAddress e = .ok u ↔
    (∀ t ∈ e.temps, s.checkRead t = .ok ()) ∧ e.IsAddress s.tempTy := by
  simp only [checkAddress, bind_eq_ok, check_eq_ok, Expr.IsAddress]
  constructor
  · rintro ⟨ty, ⟨hreads, hty⟩, h⟩
    split at h
    next hcases =>
      obtain rfl | rfl := hcases
      · exact ⟨hreads, .inl hty⟩
      · exact ⟨hreads, .inr hty⟩
    next => cases h
  · rintro ⟨hreads, hty | hty⟩ <;> exact ⟨_, ⟨hreads, hty⟩, rfl⟩

theorem markBound_eq_ok {t : Nat} : s.markBound t = .ok s' ↔
    s.base ≤ t ∧ s.bound[t - s.base]? = some false ∧
      s' = { s with bound := s.bound.setIfInBounds (t - s.base) true } := by
  unfold markBound
  by_cases hlt : t < s.base
  · simp [hlt, Nat.not_le.mpr hlt]
  · rw [if_neg hlt]
    have hle : s.base ≤ t := by omega
    cases s.bound[t - s.base]? with
    | none => simp
    | some b => cases b <;> simp [hle, eq_comm]

theorem discard_eq_ok {α : Type} {x : Except Fault α} : discard x = .ok () ↔ ∃ a, x = .ok a := by
  cases x with
  | error f => exact ⟨nofun, nofun⟩
  | ok a => exact ⟨fun _ => ⟨a, rfl⟩, fun _ => rfl⟩

/-- Arguments that pass one by one pass together. -/
theorem checkEach_eq_ok : ∀ {args : List Expr}, (∀ arg ∈ args, ∃ τ, s.check arg = .ok τ) →
    (∀ t ∈ Expr.tempsOf args, s.checkRead t = .ok ()) ∧ Expr.checkEach s.tempTy args = .ok ()
  | [], _ => ⟨by simp [Expr.tempsOf], rfl⟩
  | arg :: args, h => by
      obtain ⟨⟨τ, harg⟩, hargs⟩ := List.forall_mem_cons.mp h
      obtain ⟨hreads, harg⟩ := check_eq_ok.mp harg
      obtain ⟨hreads', hargs⟩ := checkEach_eq_ok hargs
      exact ⟨List.forall_mem_append.mpr ⟨hreads, hreads'⟩, bind_eq_ok.mpr ⟨τ, harg, hargs⟩⟩

/-- A temporary that was just made can be bound. -/
theorem markBound_newTemp (hs : s.Level) (ty : Ty) : (s.newTemp ty).1.markBound s.fresh =
    .ok { s with types := s.types.push ty, bound := s.bound.push true } := by
  rw [markBound_eq_ok, fresh, ← hs]
  simp [Stage.newTemp, base, Array.setIfInBounds, Array.set_push]

/-- Binding a fresh temporary is making one and assigning to it. -/
theorem bind_yields (hs : s.Level) {e : Expr} {t : Nat} (h : s.bind e = .ok (s', t)) :
    Yields s s' := by
  obtain ⟨ty, he, h⟩ := bind_eq_ok.mp h
  have hkeep : ∀ (u : Nat) (τ : Ty), s.check (.tmp u) = .ok τ →
      (s.newTemp ty).1.check (.tmp u) = .ok τ :=
    fun _ _ hu => check_tmp_mono hu (s.newTemp ty).1 rfl (fun _ => getElem?_push_of_some)
      fun _ _ => getElem?_push_of_some
  obtain ⟨hreads, he⟩ := check_eq_ok.mp (check_mono hs hkeep he)
  have hfresh : (s.newTemp ty).1.tempTy (s.base + s.types.size) = .ok ty := by
    simp [tempTy, Stage.newTemp, base]
  cases h
  exact .bind (.settle ⟨⟨ty, he, hfresh⟩, hreads⟩ rfl (markBound_newTemp hs ty))

theorem tempTy_eq_ok {t : Nat} {τ : Ty} : s.tempTy t = .ok τ ↔
    if t < s.base then s.outer[t]? = some τ else s.types[t - s.base]? = some τ := by
  unfold tempTy
  split
  · cases s.outer[t]? <;> simp
  · cases s.types[t - s.base]? <;> simp

/-- What is known to be bound or not has a type. -/
theorem tempTy_of_markBound (hs : s.Level) {t : Nat} (h : s.markBound t = .ok s') :
    ∃ τ, s.tempTy t = .ok τ := by
  obtain ⟨hle, hbound, -⟩ := markBound_eq_ok.mp h
  have hlt : t - s.base < s.types.size := hs ▸ (Array.getElem?_eq_some_iff.mp hbound).1
  refine ⟨s.types[t - s.base], ?_⟩
  rw [tempTy, if_neg (Nat.not_lt.mpr hle), Array.getElem?_eq_getElem hlt]

theorem call_yields (hs : s.Level) {c : EffectCall} (h : s.call c = .ok s') : Yields s s' := by
  simp only [call, bind_eq_ok, unless_eq_ok, not_not] at h
  obtain ⟨ty, hguard, rfl, _, hargs, h⟩ := h
  obtain ⟨hreads, hguard⟩ := check_eq_ok.mp hguard
  obtain ⟨hreads', hargs⟩ := checkEach_eq_ok fun a ha =>
    discard_eq_ok.mp (eq_ok_of_forM hargs a ha)
  -- The address of the memory range is checked only where there is one.
  obtain ⟨hmemory, h⟩ : (∀ m, c.memory = some m → s.checkAddress m.addr = .ok ()) ∧
      c.result.elim (.ok (s.push (.call c)))
        (fun t => s.markBound t >>= fun s => .ok (s.push (.call c))) = .ok s' := by
    cases hm : c.memory with
    | none =>
        rw [hm] at h
        refine ⟨fun _ hm' => (by cases hm'), ?_⟩
        cases hr : c.result <;> rw [hr] at h <;> exact h
    | some m =>
        rw [hm] at h
        obtain ⟨_, haddr, h⟩ := bind_eq_ok.mp h
        refine ⟨fun _ hm' => (by cases hm'; exact haddr), ?_⟩
        cases hr : c.result <;> rw [hr] at h <;> exact h
  have hreads'' : ∀ t ∈ (Stmt.call c).reads, s.checkRead t = .ok () := by
    refine List.forall_mem_append.mpr ⟨List.forall_mem_append.mpr ⟨hreads, hreads'⟩, ?_⟩
    cases hm : c.memory with
    | none => simp
    | some m => exact (checkAddress_eq_ok.mp (hmemory m hm)).1
  have haddress : ∀ m, c.memory = some m → m.addr.IsAddress s.tempTy :=
    fun m hm => (checkAddress_eq_ok.mp (hmemory m hm)).2
  cases hresult : c.result with
  | none =>
      rw [hresult] at h
      cases h
      exact .push ⟨⟨hguard, hargs, haddress, by simp [hresult]⟩, hreads''⟩ hresult
  | some t =>
      rw [hresult] at h
      obtain ⟨marked, hmarked, h⟩ := bind_eq_ok.mp h
      cases h
      refine .settle ⟨⟨hguard, hargs, haddress, fun t' ht' => ?_⟩, hreads''⟩ hresult hmarked
      obtain rfl : t = t' := by simpa [hresult] using ht'
      exact tempTy_of_markBound hs hmarked

/-- An operation that succeeds adds a temporary, or a statement that the stage admits. -/
theorem Operation.apply_yields (hs : s.Level) {o : Operation} (h : o.apply s = .ok s') :
    Yields s s' := by
  cases o with
  | newTemp ty =>
      cases h
      exact .temp s ty
  | assign t e =>
      simp only [apply, Stage.assign, bind_eq_ok, unless_eq_ok, check_eq_ok, not_not] at h
      obtain ⟨ty, ⟨hreads, he⟩, _, ht, rfl, marked, hmarked, h⟩ := h
      cases h
      exact .settle ⟨⟨_, he, ht⟩, hreads⟩ rfl hmarked
  | bind e =>
      obtain ⟨⟨s'', t⟩, hbind, h⟩ := bind_eq_ok.mp h
      cases h
      exact bind_yields hs hbind
  | mark addr len delta =>
      cases h
      exact .push ⟨trivial, by simp [Stmt.reads]⟩ rfl
  | put offset ty e =>
      simp only [apply, Stage.put, bind_eq_ok, unless_eq_ok, check_eq_ok] at h
      obtain ⟨got, ⟨hreads, he⟩, -, h⟩ := h
      cases h
      exact .push ⟨⟨got, he⟩, hreads⟩ rfl
  | store order addr value =>
      simp only [apply, Stage.store, bind_eq_ok, unless_eq_ok, check_eq_ok, checkAddress_eq_ok] at h
      obtain ⟨_, ⟨hreads, haddr⟩, ty, ⟨hreads', hvalue⟩, hty, h⟩ := h
      cases h
      exact .push ⟨⟨haddr, ty, hvalue, hty⟩, List.forall_mem_append.mpr ⟨hreads, hreads'⟩⟩ rfl
  | exit guard kind target ipOffset =>
      simp only [apply, Stage.exit, bind_eq_ok, unless_eq_ok, check_eq_ok, not_not] at h
      obtain ⟨_, ⟨hreads, hguard⟩, rfl, htarget, h⟩ := h
      cases h
      exact .push ⟨⟨hguard, by simpa using htarget⟩, hreads⟩ rfl
  | loadLinked order t addr =>
      simp only [apply, Stage.loadLinked, bind_eq_ok, unless_eq_ok, checkAddress_eq_ok] at h
      obtain ⟨_, ⟨hreads, haddr⟩, ty, ht, hty, marked, hmarked, h⟩ := h
      cases h
      exact .settle ⟨⟨haddr, ty, ht, by simpa using hty⟩, hreads⟩ rfl hmarked
  | storeConditional order t addr value =>
      simp only [apply, Stage.storeConditional, bind_eq_ok, unless_eq_ok, check_eq_ok,
        checkAddress_eq_ok, not_not] at h
      obtain ⟨_, ⟨hreads, haddr⟩, ty, ⟨hreads', hvalue⟩, _, ht, rfl, marked, hmarked, h⟩ := h
      cases h
      exact .settle ⟨⟨haddr, ⟨ty, hvalue⟩, ht⟩, List.forall_mem_append.mpr ⟨hreads, hreads'⟩⟩ rfl
        hmarked
  | fence =>
      cases h
      exact .push ⟨trivial, by simp [Stmt.reads]⟩ rfl
  | call c => exact call_yields hs h
  | hint addr len next =>
      simp only [apply, Stage.hint, bind_eq_ok, checkAddress_eq_ok] at h
      obtain ⟨_, ⟨hreads, haddr⟩, _, ⟨hreads', hnext⟩, h⟩ := h
      cases h
      exact .push ⟨⟨haddr, hnext⟩, List.forall_mem_append.mpr ⟨hreads, hreads'⟩⟩ rfl

theorem Yields.outer_eq (h : Yields s s') : s'.outer = s.outer := by
  induction h with
  | temp | push => rfl
  | settle _ _ hmarked =>
      obtain ⟨-, -, rfl⟩ := markBound_eq_ok.mp hmarked
      rfl
  | bind _ ih => exact ih

/-! ## What the operations keep -/

/-- A statement behind those of a stage that starts its numbers at `base`. -/
structure Placed (base : Nat) (types : Nat → Except Fault Ty) (ss : List Stmt) (stmt : Stmt) :
    Prop where
  checked : stmt.Checked types
  reads : ∀ t ∈ stmt.reads, t < base ∨ t ∈ boundBy ss
  fresh : ∀ t, stmt.target? = some t → base ≤ t ∧ t ∉ boundBy ss

/-- A stage that knows which of its temporaries its code has bound. -/
structure Tracked (s : Stage) : Prop where
  level : s.Level
  code : Trail (Placed s.base s.tempTy) s.stmts.toList
  bound_iff : ∀ t, s.base ≤ t → (s.bound[t - s.base]? = some true ↔ t ∈ boundBy s.stmts.toList)

namespace Tracked

theorem start (block : Block) : (Stage.start block).Tracked where
  level := rfl
  code := .nil
  bound_iff := by simp [Stage.start]

theorem reads_of_checkRead (h : s.Tracked) {t : Nat} (ht : s.checkRead t = .ok ()) :
    t < s.base ∨ t ∈ boundBy s.stmts.toList := by
  unfold checkRead at ht
  by_cases hlt : t < s.base
  · exact .inl hlt
  · rw [if_neg hlt] at ht
    refine .inr ((h.bound_iff t (Nat.not_lt.mp hlt)).mp ?_)
    split at ht
    next hbound => exact hbound
    all_goals cases ht

theorem newTemp (h : s.Tracked) (ty : Ty) : (s.newTemp ty).1.Tracked where
  level := by simpa [Stage.newTemp, Level] using h.level
  code := by
    refine h.code.mono fun ss stmt hstmt => ⟨hstmt.checked.extend fun t τ ht => ?_, hstmt.reads,
      hstmt.fresh⟩
    rw [tempTy_eq_ok] at ht ⊢
    change if t < s.base then _ else _
    split at ht
    next hlt => rwa [if_pos hlt]
    next hlt =>
      rw [if_neg hlt]
      exact getElem?_push_of_some ht
  bound_iff t ht := by
    change s.base ≤ t at ht
    refine Iff.trans ?_ (h.bound_iff t ht)
    change (s.bound.push false)[t - s.base]? = some true ↔ _
    rw [Array.getElem?_push]
    split
    next heq => simp [heq]
    next => rfl

theorem push (h : s.Tracked) {stmt : Stmt} (hstmt : s.Admits stmt)
    (htarget : stmt.target? = none) : (s.push stmt).Tracked where
  level := h.level
  code := by
    rw [push_stmts]
    exact .snoc h.code ⟨hstmt.checked, fun t ht => h.reads_of_checkRead (hstmt.reads t ht),
      by simp [htarget]⟩
  bound_iff t ht := by
    rw [push_stmts, boundBy_append, boundBy_single, htarget, Option.toList_none, List.append_nil]
    exact h.bound_iff t ht

theorem settle (h : s.Tracked) {marked : Stage} {stmt : Stmt} {t : Nat} (hstmt : s.Admits stmt)
    (htarget : stmt.target? = some t) (hmarked : s.markBound t = .ok marked) :
    (marked.push stmt).Tracked := by
  obtain ⟨hle, hfalse, rfl⟩ := markBound_eq_ok.mp hmarked
  obtain ⟨hlt, -⟩ := Array.getElem?_eq_some_iff.mp hfalse
  constructor
  · simpa [Level] using h.level
  · rw [push_stmts]
    refine .snoc h.code ⟨hstmt.checked, fun t ht => h.reads_of_checkRead (hstmt.reads t ht), ?_⟩
    intro t' ht'
    obtain rfl : t = t' := by simpa [htarget] using ht'
    refine ⟨hle, fun hmem => ?_⟩
    rw [← h.bound_iff t hle, hfalse] at hmem
    cases hmem
  · intro t' ht'
    change s.base ≤ t' at ht'
    rw [push_stmts, push_bound, boundBy_append, boundBy_single, htarget, List.mem_append,
      ← h.bound_iff t' ht', Array.getElem?_setIfInBounds]
    have hbase : ({ s with bound := s.bound.setIfInBounds (t - s.base) true }.push stmt).base =
        s.base := rfl
    rw [hbase]
    by_cases heq : t = t'
    · simp [← heq, hlt]
    · rw [if_neg (by omega)]
      simp [Ne.symm heq]

/-- What the code of a stage binds are its own temporaries. -/
theorem range_of_mem (h : s.Tracked) {t : Nat} (ht : t ∈ boundBy s.stmts.toList) :
    s.base ≤ t ∧ t < s.fresh := by
  obtain ⟨stmt, hmem, htarget⟩ := List.mem_filterMap.mp ht
  obtain ⟨i, hi⟩ := List.getElem?_of_mem hmem
  have hle : s.base ≤ t := ((h.code.fits_take hi).fresh t htarget).1
  have hlevel : s.bound.size = s.types.size := h.level
  obtain ⟨hlt, -⟩ := Array.getElem?_eq_some_iff.mp ((h.bound_iff t hle).mpr ht)
  exact ⟨hle, by unfold fresh; omega⟩

/-- The temporaries that may not be read are those of the stage that its code does not bind. -/
theorem checkRead_eq_readUnbound_iff (h : s.Tracked) {t : Nat} :
    s.checkRead t = .error (.readUnbound t) ↔
      s.base ≤ t ∧ t < s.fresh ∧ t ∉ boundBy s.stmts.toList := by
  unfold checkRead
  by_cases hlt : t < s.base
  · simp [hlt, Nat.not_le.mpr hlt]
  · have hle : s.base ≤ t := Nat.not_lt.mp hlt
    have hlevel : s.bound.size = s.types.size := h.level
    have hfresh : t < s.fresh ↔ t - s.base < s.bound.size := by unfold fresh; omega
    rw [if_neg hlt, ← h.bound_iff t hle, hfresh]
    by_cases hget : t - s.base < s.bound.size
    · rw [Array.getElem?_eq_getElem hget]
      cases s.bound[t - s.base] <;> simp [hle, hget]
    · simp [hget]

theorem of_yields (hyields : Yields s s') (h : s.Tracked) : s'.Tracked := by
  induction hyields with
  | temp s ty => exact h.newTemp ty
  | push hstmt htarget => exact h.push hstmt htarget
  | settle hstmt htarget hmarked => exact h.settle hstmt htarget hmarked
  | bind _ ih => exact ih (h.newTemp _)

end Tracked

end Stage

end PowerLift
