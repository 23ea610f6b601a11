import PowerLift.Proofs.Lifting

/-!
# Well-formed blocks

A block is well formed when each of its temporaries is bound by one statement, is read by later
statements only, and all its code type-checks. Blocks that are made by lifting are well formed,
whatever words they were made of.
-/

namespace PowerLift

/-! ## What a well-formed block is -/

namespace Layout

/-- A place of some register: a slot, or the floating-point half of one. -/
inductive Holds (arch : Arch) (p : Place) : Prop where
  | slot (s : Slot) (hp : locate arch s = .ok p)
  | half (i : Nat) (host : ByteOrder) (hp : fpr arch i host = .ok p)

theorem Register.holds {arch : Arch} {host : ByteOrder} {p : Place} (h : Register arch host p) :
    Holds arch p := by
  cases h with
  | slot s hs hp => exact .slot s hp
  | half i hp => exact .half i host hp

end Layout

namespace Stmt

/-- The temporaries that a statement reads. -/
def reads : Stmt → List Nat
  | .mark _ _ _ | .fence => []
  | .bind _ value | .put _ value => value.temps
  | .store _ addr value | .storeConditional _ _ addr value => addr.temps ++ value.temps
  | .exit guard _ _ _ => guard.temps
  | .loadLinked _ _ addr => addr.temps
  | .call c =>
      c.guard.temps ++ Expr.tempsOf c.args ++ (c.memory.map fun m => m.addr.temps).getD []
  | .hint base _ next => base.temps ++ next.temps

/-- Statements that type-check: operands fit, and results fit the temporaries that they are bound
to and the slots that they are written to. -/
def WellTyped (arch : Arch) (types : Nat → Except Fault Ty) : Stmt → Prop
  | .mark _ _ _ | .fence => True
  | .bind t value => ∃ τ, value.check types = .ok τ ∧ types t = .ok τ
  | .put offset value => ∃ τ, value.check types = .ok τ ∧ Layout.Holds arch ⟨offset, τ⟩
  | .store _ addr value =>
      addr.check types = .ok arch.wordTy ∧ ∃ τ, value.check types = .ok τ ∧ τ ≠ .i1
  | .exit guard _ target _ => guard.check types = .ok .i1 ∧ target.ty = arch.wordTy
  | .loadLinked _ t addr =>
      addr.check types = .ok arch.wordTy ∧ ∃ τ, types t = .ok τ ∧ τ.isInt = true
  | .storeConditional _ t addr value =>
      addr.check types = .ok arch.wordTy ∧ (∃ τ, value.check types = .ok τ ∧ τ ≠ .i1) ∧
        types t = .ok .i1
  | .call c =>
      c.guard.check types = .ok .i1 ∧ Expr.checkEach types c.args = .ok () ∧
        (∀ m, c.memory = some m → m.addr.check types = .ok arch.wordTy) ∧
        ∀ t, c.result = some t → ∃ τ, types t = .ok τ
  | .hint base _ next =>
      base.check types = .ok arch.wordTy ∧ next.check types = .ok arch.wordTy

end Stmt

/-- Blocks in which every temporary is bound once, before it is read, and all code is typed. -/
structure Block.WellFormed (arch : Arch) (b : Block) : Prop where
  temps_lt : ∀ stmt ∈ b.stmts, ∀ t, t ∈ stmt.reads ∨ stmt.target? = some t → t < b.types.size
  bound_once : ∀ t < b.types.size, b.stmts.toList.countP (·.target? == some t) = 1
  bound_before : ∀ (i : Nat) (stmt : Stmt), b.stmts[i]? = some stmt → ∀ t ∈ stmt.reads,
    ∃ (j : Nat) (binder : Stmt), j < i ∧ b.stmts[j]? = some binder ∧ binder.target? = some t
  typed : ∀ stmt ∈ b.stmts, stmt.WellTyped arch b.tempTy

/-- The blocks that lifting makes of empty ones, for guests of one variant. -/
inductive Block.Grown (arch : Arch) : Block → Prop where
  | empty (ipOffset : Nat) : Grown arch (.empty ipOffset)
  -- Guests may differ from call to call in all but their variant.
  | lift {b : Block} (hb : Grown arch b) (g : Guest) (harch : g.arch = arch)
      (hcheck : g.check = .ok ()) (hinjector : g.injector = none) (code : ByteArray) (offset : Nat)
      (hcode : offset + 4 ≤ code.size) (cia blockStart : BitVec 64) :
      Grown arch (g.lift code offset cia blockStart b).block

/-! ## Code depends on the temporaries that it mentions -/

namespace Stmt

variable {arch : Arch} {types types' : Nat → Except Fault Ty}

theorem WellTyped.congr {stmt : Stmt}
    (h : ∀ t, t ∈ stmt.reads ∨ stmt.target? = some t → types t = types' t)
    (hstmt : stmt.WellTyped arch types) : stmt.WellTyped arch types' := by
  -- Every expression of a statement is checked over temporaries that the statement reads.
  have hreads : ∀ e : Expr, (∀ t ∈ e.temps, t ∈ stmt.reads) → e.check types = e.check types' :=
    fun e he => e.check_congr fun t ht => h t (.inl (he t ht))
  cases stmt with
  | mark | fence => trivial
  | bind t value =>
      rw [WellTyped, ← hreads value (by simp [reads]), ← h t (.inr rfl)]
      exact hstmt
  | put offset value =>
      rw [WellTyped, ← hreads value (by simp [reads])]
      exact hstmt
  | store order addr value | hint addr len value =>
      rw [WellTyped, ← hreads addr (by simp +contextual [reads]),
        ← hreads value (by simp +contextual [reads])]
      exact hstmt
  | exit guard kind target ipOffset =>
      rw [WellTyped, ← hreads guard (by simp [reads])]
      exact hstmt
  | loadLinked order t addr =>
      rw [WellTyped, ← hreads addr (by simp [reads]), ← h t (.inr rfl)]
      exact hstmt
  | storeConditional order t addr value =>
      rw [WellTyped, ← hreads addr (by simp +contextual [reads]),
        ← hreads value (by simp +contextual [reads]), ← h t (.inr rfl)]
      exact hstmt
  | call c =>
      obtain ⟨hguard, hargs, hmemory, hresult⟩ := hstmt
      refine ⟨?_, ?_, fun m hm => ?_, fun t ht => ?_⟩
      · rw [← hguard, hreads c.guard (by simp +contextual [reads])]
      · rw [← hargs, Expr.checkEach_congr c.args fun t ht => h t (.inl (by simp [reads, ht]))]
      · rw [← hmemory m hm, hreads m.addr (by simp +contextual [reads, hm])]
      · rw [← h t (.inr ht)]
        exact hresult t ht

/-! ## Renumbered statements -/

theorem target?_shift (k : Nat) (stmt : Stmt) :
    (stmt.shift k).target? = stmt.target?.map (k + ·) := by
  cases stmt <;> rfl

theorem reads_shift (k : Nat) (stmt : Stmt) : (stmt.shift k).reads = stmt.reads.map (k + ·) := by
  cases stmt with
  | call c =>
      cases hmemory : c.memory <;>
        simp [shift, EffectCall.shift, reads, hmemory, Expr.temps_shift, Expr.tempsOf_shiftAll]
  | _ => simp [shift, reads, Expr.temps_shift]

theorem wellTyped_shift {k : Nat} {stmt : Stmt} (h : stmt.WellTyped arch fun t => types (k + t)) :
    (stmt.shift k).WellTyped arch types := by
  cases stmt with
  | call c =>
      obtain ⟨hguard, hargs, hmemory, hresult⟩ := h
      refine ⟨?_, ?_, fun m hm => ?_, fun t ht => ?_⟩
      · rwa [EffectCall.shift, Expr.check_shift]
      · rwa [EffectCall.shift, Expr.checkEach_shiftAll]
      · obtain ⟨m, hm', rfl⟩ := Option.map_eq_some_iff.mp hm
        rw [Expr.check_shift]
        exact hmemory m hm'
      · obtain ⟨t, ht', rfl⟩ := Option.map_eq_some_iff.mp ht
        exact hresult t ht'
  | mark | fence => trivial
  | _ => simpa only [shift, WellTyped, Expr.check_shift] using h

end Stmt

theorem boundBy_shift (k : Nat) (ss : List Stmt) :
    boundBy (ss.map (Stmt.shift k)) = (boundBy ss).map (k + ·) := by
  simp only [boundBy, List.filterMap_map, List.map_filterMap, Function.comp_def,
    Stmt.target?_shift]

namespace Fits

variable {env : Env} {types : Array Ty} {ss : List Stmt} {stmt : Stmt}

theorem mem_scope {e : Expr} {τ : Ty} (he : e.HasTy env (scopeOf types ss) τ) :
    ∀ t ∈ e.temps, t ∈ boundBy ss := by
  intro t ht
  obtain ⟨ty, hty⟩ := he.mem_temps t ht
  exact (scopeOf_eq_some.mp hty).1

theorem reads_bound (h : Fits env types ss stmt) : ∀ t ∈ stmt.reads, t ∈ boundBy ss := by
  cases h with
  | mark | fence => simp [Stmt.reads]
  | timeBase => simp [Stmt.reads, Expr.u1, Expr.temps, Expr.tempsOf]
  | bind t e τ he hty ht => exact mem_scope he
  | put p e hp he => exact mem_scope he
  | exit guard kind target hguard hfault => exact mem_scope hguard
  | loadLinked t a τ ha hty hτ ht => exact mem_scope ha
  | store a e τ ha he hτ => exact List.forall_mem_append.mpr ⟨mem_scope ha, mem_scope he⟩
  | storeConditional t a e τ ha he hτ hty ht =>
      exact List.forall_mem_append.mpr ⟨mem_scope ha, mem_scope he⟩
  | hint a len next ha hnext => exact List.forall_mem_append.mpr ⟨mem_scope ha, mem_scope hnext⟩

theorem target_fresh (h : Fits env types ss stmt) :
    ∀ t, stmt.target? = some t → t ∉ boundBy ss := by
  cases h with
  | mark | put | store | exit | fence | hint => simp [Stmt.target?]
  | bind t e τ he hty ht | loadLinked t a τ ha hty hτ ht | timeBase t hty ht
  | storeConditional t a e τ ha he hτ hty ht => simpa [Stmt.target?] using ht

theorem wellTyped {lookup : Nat → Except Fault Ty} (h : Fits env types ss stmt)
    (hlookup : ∀ (t : Nat) (τ : Ty), types[t]? = some τ → lookup t = .ok τ) :
    stmt.WellTyped env.arch lookup := by
  have hcheck : ∀ {e : Expr} {τ : Ty}, e.HasTy env (scopeOf types ss) τ →
      e.check lookup = .ok τ :=
    fun he => he.check_eq fun t ty ht => hlookup t ty (scopeOf_eq_some.mp ht).2
  have haddress : ∀ {e : Expr}, e.HasTy env (scopeOf types ss) env.gprTy →
      e.check lookup = .ok env.arch.wordTy := by
    intro e he
    rw [hcheck he, Arch.wordTy_eq]
  cases h with
  | mark | fence => trivial
  | bind t e τ he hty ht => exact ⟨τ, hcheck he, hlookup t τ hty⟩
  | put p e hp he => exact ⟨p.ty, hcheck he, hp.register.holds⟩
  | store a e τ ha he hτ => exact ⟨haddress ha, τ, hcheck he, hτ⟩
  | exit guard kind target hguard hfault =>
      exact ⟨hcheck hguard, by rw [env.address_ty, Arch.wordTy_eq]⟩
  | loadLinked t a τ ha hty hτ ht => exact ⟨haddress ha, τ, hlookup t τ hty, hτ⟩
  | storeConditional t a e τ ha he hτ hty ht =>
      exact ⟨haddress ha, ⟨τ, hcheck he, hτ⟩, hlookup t .i1 hty⟩
  | timeBase t hty ht =>
      refine ⟨rfl, rfl, by simp, fun t' ht' => ?_⟩
      obtain rfl : t = t' := by simpa using ht'
      exact ⟨.i64, hlookup t .i64 hty⟩
  | hint a len next ha hnext => exact ⟨haddress ha, haddress hnext⟩

end Fits

/-! ## Lifting keeps blocks well formed -/

/-- Statements that fit those before them in a block. -/
structure Sits (arch : Arch) (types : Nat → Except Fault Ty) (ss : List Stmt) (stmt : Stmt) :
    Prop where
  typed : stmt.WellTyped arch types
  reads : ∀ t ∈ stmt.reads, t ∈ boundBy ss
  fresh : ∀ t, stmt.target? = some t → t ∉ boundBy ss

namespace Trail

variable {fits : List Stmt → Stmt → Prop} {ss : List Stmt}

/-- Where no statement binds what one before it has bound, nothing is bound twice. -/
theorem nodup_boundBy (h : Trail fits ss)
    (hfresh : ∀ ss stmt, fits ss stmt → ∀ t, stmt.target? = some t → t ∉ boundBy ss) :
    (boundBy ss).Nodup := by
  induction h with
  | nil => exact .nil
  | @snoc ss s _ hs ih =>
      rw [boundBy_append, boundBy_single]
      cases htarget : s.target? with
      | none => simpa using ih
      | some t =>
          refine List.nodup_append.mpr ⟨ih, by simp, fun t' ht' u hu => ?_⟩
          obtain rfl : u = t := List.mem_singleton.mp hu
          exact fun heq => hfresh ss s hs u htarget (heq ▸ ht')

end Trail

section

variable {arch : Arch} {types types' : Nat → Except Fault Ty}

theorem Trail.congr_types (h : Trail (Sits arch types) ss)
    (htypes : ∀ t ∈ boundBy ss, types t = types' t) : Trail (Sits arch types') ss := by
  induction h with
  | nil => exact .nil
  | @snoc ss s _ hs ih =>
      -- What a statement reads is bound by then, so it is among the temporaries that agree.
      rw [boundBy_append, List.forall_mem_append, boundBy_single] at htypes
      refine .snoc (ih htypes.1) ⟨hs.typed.congr fun t ht => ?_, hs.reads, hs.fresh⟩
      rcases ht with hread | htarget
      · exact htypes.1 t (hs.reads t hread)
      · exact htypes.2 t (by simp [htarget])

end

theorem countP_target (ss : List Stmt) (t : Nat) :
    ss.countP (·.target? == some t) = (boundBy ss).count t := by
  rw [List.count, boundBy, List.countP_filterMap]
  congr 1
  funext stmt
  cases stmt.target? <;> simp

/-- What the first statements bind, one of them binds. -/
theorem exists_binder {stmts : Array Stmt} {i t : Nat} (h : t ∈ boundBy (stmts.toList.take i)) :
    ∃ (j : Nat) (binder : Stmt), j < i ∧ stmts[j]? = some binder ∧ binder.target? = some t := by
  obtain ⟨binder, hmem, htarget⟩ := List.mem_filterMap.mp h
  obtain ⟨j, hj⟩ := List.getElem?_of_mem hmem
  rw [List.getElem?_take] at hj
  split at hj
  next hlt => exact ⟨j, binder, hlt, by simpa using hj, htarget⟩
  next => contradiction

/-- The statements of an instruction, moved behind those of a block. -/
theorem Trail.append_shifted {env : Env} {lookup : Nat → Except Fault Ty} {types : Array Ty}
    {old new : List Stmt} {k : Nat} (hold : Trail (Sits env.arch lookup) old)
    (hlt : ∀ t ∈ boundBy old, t < k)
    (hlookup : ∀ (t : Nat) (τ : Ty), types[t]? = some τ → lookup (k + t) = .ok τ)
    (hnew : Trail (Fits env types) new) :
    Trail (Sits env.arch lookup) (old ++ new.map (Stmt.shift k)) := by
  induction hnew with
  | nil => simpa using hold
  | @snoc ss s _ hs ih =>
      rw [List.map_append, ← List.append_assoc]
      refine .snoc ih ⟨Stmt.wellTyped_shift (hs.wellTyped hlookup), ?_, ?_⟩
      · rw [Stmt.reads_shift, boundBy_append, boundBy_shift]
        intro t ht
        obtain ⟨u, hu, rfl⟩ := List.mem_map.mp ht
        exact List.mem_append_right _ (List.mem_map_of_mem (hs.reads_bound u hu))
      · rw [Stmt.target?_shift, boundBy_append, boundBy_shift]
        intro t ht
        obtain ⟨u, hu, rfl⟩ := Option.map_eq_some_iff.mp ht
        intro hmem
        rcases List.mem_append.mp hmem with hmem | hmem
        -- The temporaries of the block are numbered below all those of the instruction.
        · exact absurd (hlt _ hmem) (by omega)
        · obtain ⟨v, hv, heq⟩ := List.mem_map.mp hmem
          obtain rfl : v = u := by omega
          exact hs.target_fresh v hu hv

/-- A sound stage without pending temporaries has bound them all. -/
theorem Stage.Sound.mem_boundBy {P : Placement} {s : Stage} (h : s.Sound P []) {t : Nat} :
    t ∈ boundBy s.stmts.toList ↔ t < s.types.size := by
  rw [← h.bound_iff, ← h.bound_size]
  constructor
  · intro ht
    exact (Array.getElem?_eq_some_iff.mp ht).1
  · intro ht
    have hpending := h.pending_iff t
    rw [Array.getElem?_eq_getElem ht] at hpending ⊢
    simpa using hpending

/-- What lifting keeps of a block. -/
structure Block.Built (arch : Arch) (b : Block) : Prop where
  code : Trail (Sits arch b.tempTy) b.stmts.toList
  bound_iff : ∀ t, t ∈ boundBy b.stmts.toList ↔ t < b.types.size

namespace Block

variable {arch : Arch} {b : Block}

theorem Built.sits (h : b.Built arch) {i : Nat} {stmt : Stmt} (hi : b.stmts[i]? = some stmt) :
    Sits arch b.tempTy (b.stmts.toList.take i) stmt :=
  h.code.fits_take (by simpa using hi)

theorem Built.wellFormed (h : b.Built arch) : b.WellFormed arch where
  temps_lt stmt hmem t ht := by
    obtain ⟨i, hi⟩ := Array.getElem?_of_mem hmem
    rw [← h.bound_iff]
    rcases ht with hread | htarget
    · have hbound := (h.sits hi).reads t hread
      rw [← List.take_append_drop i b.stmts.toList, boundBy_append]
      exact List.mem_append_left _ hbound
    · exact List.mem_filterMap.mpr ⟨stmt, Array.mem_toList_iff.mpr hmem, htarget⟩
  bound_once t ht := by
    rw [countP_target, (h.code.nodup_boundBy fun _ _ hs => hs.fresh).count,
      if_pos ((h.bound_iff t).mpr ht)]
  bound_before i stmt hi t ht := exists_binder ((h.sits hi).reads t ht)
  typed stmt hmem := by
    obtain ⟨i, hi⟩ := Array.getElem?_of_mem hmem
    exact (h.sits hi).typed

theorem Built.empty (ipOffset : Nat) : (Block.empty ipOffset).Built arch :=
  ⟨.nil, by simp [Block.empty]⟩

theorem tempTy_eq_ok {t : Nat} {τ : Ty} : b.tempTy t = .ok τ ↔ b.types[t]? = some τ := by
  unfold tempTy
  cases b.types[t]? <;> simp

theorem tempTy_extended_left (s : Stage) {t : Nat} (ht : t < b.types.size) :
    b.tempTy t = (b.extended s).tempTy t := by
  have hget : b.types[t]? = some (b.types[t]) := Array.getElem?_eq_getElem ht
  have hget' : (b.extended s).types[t]? = some (b.types[t]) := by
    rw [extended, Array.getElem?_append_left ht, hget]
  rw [tempTy_eq_ok.mpr hget, tempTy_eq_ok.mpr hget']

theorem tempTy_extended_right {s : Stage} {t : Nat} {τ : Ty} (ht : s.types[t]? = some τ) :
    (b.extended s).tempTy (b.types.size + t) = .ok τ := by
  refine tempTy_eq_ok.mpr ?_
  rw [extended, Array.getElem?_append_right (by omega), Nat.add_sub_cancel_left, ht]

/-- A statement that binds nothing. -/
theorem Built.push (h : b.Built arch) {stmt : Stmt} (htarget : stmt.target? = none)
    (htyped : stmt.WellTyped arch b.tempTy) (hreads : ∀ t ∈ stmt.reads, t < b.types.size) :
    ({ b with stmts := b.stmts.push stmt }).Built arch where
  code := by
    rw [Array.toList_push]
    refine .snoc h.code ⟨htyped, fun t ht => (h.bound_iff t).mpr (hreads t ht), ?_⟩
    simp [htarget]
  bound_iff t := by simpa [boundBy_single, htarget] using h.bound_iff t

/-- The code of an instruction. -/
theorem Built.extended {P : Placement} {s : Stage} (h : b.Built P.env.arch)
    (hs : s.Sound P []) : (b.extended (s.on b.types)).Built P.env.arch where
  code := by
    have hold : Trail (Sits P.env.arch (b.extended (s.on b.types)).tempTy) b.stmts.toList :=
      h.code.congr_types fun t ht => tempTy_extended_left _ ((h.bound_iff t).mp ht)
    simpa [Block.extended, Stage.on] using hold.append_shifted
      (fun t ht => (h.bound_iff t).mp ht) (fun t τ ht => tempTy_extended_right ht) hs.code
  bound_iff t := by
    simp only [Block.extended, Stage.on, Array.toList_append, Array.toList_map, boundBy_append,
      boundBy_shift, List.mem_append, h.bound_iff, List.mem_map, hs.mem_boundBy, Array.size_append]
    constructor
    · rintro (ht | ⟨u, hu, rfl⟩) <;> omega
    · intro ht
      by_cases hlt : t < b.types.size
      · exact .inl hlt
      · exact .inr ⟨t - b.types.size, by omega, by omega⟩

/-- A write of the instruction address. -/
theorem Built.putCia (h : b.Built arch) {e : Expr} (he : e.check b.tempTy = .ok arch.wordTy)
    (hreads : ∀ t ∈ e.temps, t < b.types.size) :
    ({ b with stmts := b.stmts.push (.put (Layout.specialOffset arch .cia) e) }).Built arch :=
  h.push rfl ⟨_, he, .slot (.special .cia) rfl⟩ hreads

theorem Built.ending {P : Placement} {q q' : Progress} (h : b.Built P.env.arch)
    (houter : P.outer = b.types) (hending : Ending P () () q q') :
    (b.extended q'.stage).Built P.env.arch := by
  cases hending with
  | through s htogether hsound =>
      rw [htogether.right, houter]
      exact h.extended hsound
  | followed s kind target _ hsound hkind hcut hmay hword hleft hright hnext hnext' =>
      rw [hright, houter]
      exact h.extended hsound
  | stop s kind e e' _ hsound he hkind hleft hright hnext hnext' =>
      have hbuilt := h.extended hsound
      have htypes : ∀ t ty, s.scope t = some ty →
          (b.extended (s.on b.types)).tempTy (b.types.size + t) = .ok ty :=
        fun t ty ht => tempTy_extended_right (scopeOf_eq_some.mp ht).2
      have hpush : ∀ stmt, b.extended ((s.on b.types).push stmt) =
          { b.extended (s.on b.types) with
            stmts := (b.extended (s.on b.types)).stmts.push stmt } := by
        simp [Block.extended, Stage.push, Array.push_append]
      rw [hright, houter, hpush, he.shift_eq, houter]
      refine hbuilt.putCia ?_ fun t ht => ?_
      · rw [Expr.check_shift, he.hasTy.check_eq htypes, Arch.wordTy_eq]
      · rw [Expr.temps_shift] at ht
        obtain ⟨u, hu, rfl⟩ := List.mem_map.mp ht
        obtain ⟨ty, hty⟩ := he.hasTy.mem_temps u hu
        have hlt := hsound.mem_boundBy.mp (scopeOf_eq_some.mp hty).1
        simpa [Block.extended] using hlt

theorem Grown.built (h : Grown arch b) : b.Built arch := by
  induction h with
  | empty ipOffset => exact .empty ipOffset
  | @lift b _ g harch hcheck hinjector code offset hcode cia blockStart ih =>
      subst harch
      obtain ⟨w, hanswers⟩ :=
        Guest.exists_answers hcheck hinjector hcode (show (Block.empty 0).types = #[] from rfl)
      cases hanswers with
      | lifted q q' hook hmarked hending hleft hleft_block hright hright_block =>
          rw [hright_block]
          exact ih.ending rfl hending
      | refused hleft hleft_block hright hright_block =>
          rw [hright_block]
          refine ih.putCia ?_ (by simp [Env.imm, Expr.temps])
          rw [Env.imm, Expr.check, Env.address_ty]
          exact congrArg Except.ok (Arch.wordTy_eq _).symm

/-- Lifting makes well-formed blocks only. -/
theorem wellFormed_of_grown (h : Grown arch b) : b.WellFormed arch := h.built.wellFormed

/-- A sum that records overflow, and behind it a conditional store. -/
theorem wellFormed_of_grown_sum_store :
    let code : ByteArray := ⟨#[0x7C, 0x64, 0x2E, 0x15, 0x7C, 0x60, 0x21, 0xAD]⟩
    let sum := (Guest.lift { arch := .ppc64 } code 0 0x1000 0x1000 (.empty 1280)).block
    (Guest.lift { arch := .ppc64 } code 4 0x1004 0x1000 sum).block.WellFormed .ppc64 := by
  intro code sum
  have hsum : Grown .ppc64 sum :=
    .lift (.empty 1280) { arch := .ppc64 } rfl rfl rfl code 0 (by decide) 0x1000 0x1000
  exact wellFormed_of_grown
    (hsum.lift { arch := .ppc64 } rfl rfl rfl code 4 (by decide) 0x1004 0x1000)

end Block

end PowerLift
