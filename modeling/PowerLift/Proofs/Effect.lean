import PowerLift.Proofs.Meaning
import PowerLift.Proofs.Registers

/-!
# What emitted code does

Code without exits takes machines to machines. A lifting that emits such code is described by the
result that it ends with and by what its code does, wherever the code stands.
-/

namespace PowerLift

/-! ## Checks of a stage -/

namespace Stage

variable {s : Stage}

/-- Every staged temporary is known to be bound or not to be. -/
def Level (s : Stage) : Prop := s.bound.size = s.types.size

/-- The index of the next temporary. -/
def fresh (s : Stage) : Nat := s.base + s.types.size

theorem eq_ok_of_forM {α : Type} {f : α → Except Fault Unit} {l : List α} (h : l.forM f = .ok ()) :
    ∀ a ∈ l, f a = .ok () := by
  induction l with
  | nil => simp
  | cons a l ih =>
      change (f a >>= fun _ => l.forM f) = .ok () at h
      cases ha : f a with
      | error e =>
          rw [ha] at h
          cases h
      | ok _ =>
          rw [ha] at h
          exact List.forall_mem_cons.mpr ⟨ha, ih h⟩

theorem check_eq_ok {e : Expr} {τ : Ty} : s.check e = .ok τ ↔
    (∀ t ∈ e.temps, s.checkRead t = .ok ()) ∧ e.check s.tempTy = .ok τ := by
  unfold check
  constructor
  · intro h
    cases hreads : e.temps.forM s.checkRead with
    | error f =>
        rw [hreads] at h
        cases h
    | ok _ =>
        rw [hreads] at h
        exact ⟨eq_ok_of_forM hreads, h⟩
  · rintro ⟨hreads, h⟩
    rw [forM_eq_ok hreads]
    exact h

theorem check_un {op : Op} {a : Expr} {τ τ₁ : Ty} (hop : op.signature = .unary τ τ₁)
    (ha : s.check a = .ok τ₁) : s.check (.un op a) = .ok τ := by
  rw [check_eq_ok] at ha ⊢
  obtain ⟨hreads, ha⟩ := ha
  refine ⟨by simpa [Expr.un, Expr.temps, Expr.tempsOf] using hreads, ?_⟩
  simp [Expr.un, Expr.check, Expr.checkOperands, hop, Signature.arity, ha]

theorem check_bin {op : Op} {a b : Expr} {τ τ₁ τ₂ : Ty} (hop : op.signature = .binary τ τ₁ τ₂)
    (ha : s.check a = .ok τ₁) (hb : s.check b = .ok τ₂) : s.check (.bin op a b) = .ok τ := by
  rw [check_eq_ok] at ha hb ⊢
  obtain ⟨hreads, ha⟩ := ha
  obtain ⟨hreads', hb⟩ := hb
  constructor
  · intro t ht
    simp only [Expr.bin, Expr.temps, Expr.tempsOf, List.append_nil, List.mem_append] at ht
    exact ht.elim (hreads t) (hreads' t)
  · simp [Expr.bin, Expr.check, Expr.checkOperands, hop, Signature.arity, ha, hb]

/-- The stage with one more temporary, bound to an expression. -/
def withTemp (s : Stage) (e : Expr) (τ : Ty) : Stage :=
  { s with types := s.types.push τ, bound := s.bound.push true }.push (.bind s.fresh e)

theorem bind_eq {e : Expr} {τ : Ty} (he : s.check e = .ok τ) :
    s.bind e = .ok (s.withTemp e τ, s.fresh) := by
  simp only [bind, he, ok_bind]
  rfl

/-- A temporary may be read if the block has it, or if it is staged and bound. -/
theorem check_tmp_iff {t : Nat} {τ : Ty} : s.check (.tmp t) = .ok τ ↔
    if t < s.base then s.outer[t]? = some τ
    else s.bound[t - s.base]? = some true ∧ s.types[t - s.base]? = some τ := by
  simp only [check_eq_ok, Expr.temps, List.mem_singleton, forall_eq, Expr.check, checkRead, tempTy]
  by_cases hlt : t < s.base
  · simp only [hlt, if_true, true_and]
    cases s.outer[t]? <;> simp
  · simp only [hlt, if_false]
    refine and_congr ?_ ?_
    · cases s.bound[t - s.base]? with
      | none => simp
      | some b => cases b <;> simp
    · cases s.types[t - s.base]? <;> simp

theorem fresh_lt_withTemp (e : Expr) (τ : Ty) : s.fresh < (s.withTemp e τ).fresh := by
  simp [fresh, withTemp, push, base]

theorem check_fresh (hs : s.Level) (e : Expr) (τ : Ty) :
    (s.withTemp e τ).check (.tmp s.fresh) = .ok τ := by
  have hbound : (s.bound.push true)[s.types.size]? = some true := by
    rw [← hs]
    exact Array.getElem?_push_size
  simp [check_tmp_iff, withTemp, fresh, push, base, hbound]

/-- Temporaries keep their types while more are made and bound. -/
theorem check_tmp_mono {t : Nat} {τ : Ty} (h : s.check (.tmp t) = .ok τ) (s' : Stage)
    (houter : s'.outer = s.outer)
    (hbound : ∀ i : Nat, s.bound[i]? = some true → s'.bound[i]? = some true)
    (htypes : ∀ (i : Nat) (τ : Ty), s.types[i]? = some τ → s'.types[i]? = some τ) :
    s'.check (.tmp t) = .ok τ := by
  have hbase : s'.base = s.base := by rw [base, base, houter]
  rw [check_tmp_iff] at h ⊢
  rw [hbase, houter]
  by_cases hlt : t < s.base
  · rw [if_pos hlt] at h ⊢
    exact h
  · rw [if_neg hlt] at h ⊢
    exact ⟨hbound _ h.1, htypes _ _ h.2⟩

/-- A temporary that may be read is not the new one. -/
theorem check_tmp_withTemp {e : Expr} {τ τ' : Ty} {t : Nat} (h : s.check (.tmp t) = .ok τ') :
    (s.withTemp e τ).check (.tmp t) = .ok τ' :=
  check_tmp_mono h (s.withTemp e τ) rfl (fun _ => getElem?_push_of_some)
    fun _ _ => getElem?_push_of_some

/-- What may be read has a type. -/
theorem exists_check_tmp (hs : s.Level) {t : Nat} (h : s.checkRead t = .ok ()) :
    ∃ τ, s.check (.tmp t) = .ok τ := by
  simp only [check_tmp_iff]
  unfold checkRead at h
  by_cases hlt : t < s.base
  · simp only [hlt, if_true]
    exact ⟨_, Array.getElem?_eq_getElem hlt⟩
  · simp only [hlt, if_false] at h ⊢
    cases hbound : s.bound[t - s.base]? with
    | none => simp [hbound] at h
    | some b =>
        cases b with
        | false => simp [hbound] at h
        | true =>
            have hsize : t - s.base < s.types.size := hs ▸ (Array.getElem?_eq_some_iff.mp hbound).1
            exact ⟨_, rfl, Array.getElem?_eq_getElem hsize⟩

/-- Expressions keep their types where temporaries do. -/
theorem check_mono {s' : Stage} (hs : s.Level)
    (h : ∀ t τ, s.check (.tmp t) = .ok τ → s'.check (.tmp t) = .ok τ) {e : Expr} {τ : Ty}
    (he : s.check e = .ok τ) : s'.check e = .ok τ := by
  rw [check_eq_ok] at he ⊢
  obtain ⟨hreads, hcheck⟩ := he
  have htemp : ∀ t ∈ e.temps, s'.checkRead t = .ok () ∧ s.tempTy t = s'.tempTy t := by
    intro t ht
    obtain ⟨τ', hold⟩ := exists_check_tmp hs (hreads t ht)
    have hnew := check_eq_ok.mp (h t τ' hold)
    exact ⟨hnew.1 t (by simp [Expr.temps]), (check_eq_ok.mp hold).2.trans hnew.2.symm⟩
  exact ⟨fun t ht => (htemp t ht).1,
    (Expr.check_congr e fun t ht => (htemp t ht).2).symm.trans hcheck⟩

/-- A later stage of one lifting. -/
structure Follows (s s' : Stage) : Prop where
  level : s'.Level
  fresh_le : s.fresh ≤ s'.fresh
  check : ∀ e τ, s.check e = .ok τ → s'.check e = .ok τ

namespace Follows

theorem refl (h : s.Level) : s.Follows s := ⟨h, Nat.le_refl _, fun _ _ h => h⟩

theorem trans {s' s'' : Stage} (h : s.Follows s') (h' : s'.Follows s'') : s.Follows s'' where
  level := h'.level
  fresh_le := Nat.le_trans h.fresh_le h'.fresh_le
  check e τ he := h'.check e τ (h.check e τ he)

end Follows

end Stage

/-! ## Effects -/

namespace Lift

variable {M : Type} {I : Interp M} {env : Env} {p p₁ p₂ : Progress}

/-- Behind `p`, the lifting `x` ends at `p'` with `a`, and its code takes machines as `F` does. -/
structure Does {M α : Type} (env : Env) (I : Interp M) (p : Progress) (x : Lift α) (a : α)
    (p' : Progress) (F : Machine M → Machine M) : Prop where
  exec_eq : exec env p x = (.ok a, p')
  next_eq : p'.next = p.next
  follows : p.stage.Follows p'.stage
  code : ∃ ss, p'.stage.stmts.toList = p.stage.stmts.toList ++ ss ∧
    ∀ types m, runAll I types ss m = .behind (F m)

namespace Does

variable {α β : Type} {x : Lift α} {a : α} {b : β} {F G : Machine M → Machine M}

/-- A lifting that emits nothing. -/
theorem still (hp : p.stage.Level) (h : exec env p x = (.ok a, p)) : Does env I p x a p id :=
  ⟨h, rfl, .refl hp, [], (List.append_nil _).symm, fun _ _ => rfl⟩

theorem andThen {f : α → Lift β} (hx : Does env I p x a p₁ F) (hf : Does env I p₁ (f a) b p₂ G) :
    Does env I p (x >>= f) b p₂ (G ∘ F) where
  exec_eq := by
    rw [exec_bind, hx.exec_eq]
    exact hf.exec_eq
  next_eq := hf.next_eq.trans hx.next_eq
  follows := hx.follows.trans hf.follows
  code := by
    obtain ⟨ss, hss, hrun⟩ := hx.code
    obtain ⟨ss', hss', hrun'⟩ := hf.code
    refine ⟨ss ++ ss', by rw [hss', hss, List.append_assoc], fun types m => ?_⟩
    rw [runAll_append, hrun]
    exact hrun' types (F m)

end Does

theorem listed_does (hp : p.stage.Level) (line : String) :
    Does env I p (listed line) () { p with listing := p.listing.push line } id :=
  ⟨rfl, rfl, .refl hp, [], (List.append_nil _).symm, fun _ _ => rfl⟩

/-- A fresh temporary holds the value that its expression has. -/
theorem bind_does (hp : p.stage.Level) {e : Expr} {τ : Ty} (he : p.stage.check e = .ok τ) :
    Does env I p (bind e) (.tmp p.stage.fresh) { p with stage := p.stage.withTemp e τ }
      fun m => m.bind p.stage.fresh (e.eval I m) where
  exec_eq := exec_bind_temp (Stage.bind_eq he)
  next_eq := rfl
  follows := by
    refine ⟨?_, Nat.le_of_lt (Stage.fresh_lt_withTemp e τ), fun e' τ' he' =>
      Stage.check_mono hp (fun _ _ => Stage.check_tmp_withTemp) he'⟩
    simpa [Stage.Level, Stage.withTemp, Stage.push] using hp
  code := ⟨[.bind p.stage.fresh e], Stage.push_stmts _, fun _ _ => rfl⟩

/-- A step that writes a place of the guest state. -/
theorem putPlace_does (hp : p.stage.Level) {x : Lift Unit} {q : Layout.Place} {e : Expr}
    (hx : exec env p x = exec env p (putPlace (.ok q) e)) (he : p.stage.check e = .ok q.ty) :
    Does env I p x () { p with stage := p.stage.push (.put q.offset e) }
      fun m => { m with state := m.state.write I.order q.offset (e.eval I m) } where
  exec_eq := by
    rw [hx]
    change exec env p (onStage (·.put q.offset q.ty e)) = _
    exact exec_onStage (by simp [Stage.put, he])
  next_eq := rfl
  follows := ⟨hp, Nat.le_refl _, fun _ _ h => h⟩
  code := ⟨[.put q.offset e], Stage.push_stmts _, fun _ _ => rfl⟩

theorem exec_putSlot_eq {slot : Slot} {q : Layout.Place} {e : Expr}
    (hq : Layout.locate env.layout slot = .ok q) :
    exec env p (putSlot slot e) = exec env p (putPlace (.ok q) e) := by
  rw [← hq]
  rfl

theorem putSlot_does (hp : p.stage.Level) {slot : Slot} {q : Layout.Place} {e : Expr}
    (hq : Layout.locate env.layout slot = .ok q) (he : p.stage.check e = .ok q.ty) :
    Does env I p (putSlot slot e) () { p with stage := p.stage.push (.put q.offset e) }
      fun m => { m with state := m.state.write I.order q.offset (e.eval I m) } :=
  putPlace_does hp (exec_putSlot_eq hq) he

theorem exec_getSlot {slot : Slot} {q : Layout.Place}
    (hq : Layout.locate env.layout slot = .ok q) :
    exec env p (getSlot slot) = (.ok (.get q.offset q.ty), p) := by
  rw [getSlot, exec_bind]
  change exec env p (getPlace (Layout.locate env.layout slot)) = _
  rw [hq]
  rfl

/-- A fold whose steps emit nothing. -/
theorem exec_foldlM {α : Type} {f : Expr → α → Lift Expr} {g : Expr → α → Expr} {l : List α}
    (h : ∀ e, ∀ a ∈ l, exec env p (f e a) = (.ok (g e a), p)) (e : Expr) :
    exec env p (l.foldlM f e) = (.ok (l.foldl g e), p) := by
  induction l generalizing e with
  | nil => rfl
  | cons a l ih =>
      rw [List.foldlM_cons, exec_bind, h e a List.mem_cons_self]
      exact ih (fun e a ha => h e a (List.mem_cons_of_mem _ ha)) (g e a)

end Lift

end PowerLift
