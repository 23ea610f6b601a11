import PowerLift.Proofs.Pairing

/-!
# Staging keeps stages sound

The operations of a stage succeed on code that is typed, leave the stage sound, and do the same, up
to the numbers of temporaries, to a stage behind a block.
-/

namespace PowerLift

namespace Stage

variable {P : Placement} {s : Stage} {pending : List Nat}

@[simp] theorem push_types (stmt : Stmt) : (s.push stmt).types = s.types := rfl
@[simp] theorem push_bound (stmt : Stmt) : (s.push stmt).bound = s.bound := rfl
@[simp] theorem push_outer (stmt : Stmt) : (s.push stmt).outer = s.outer := rfl
@[simp] theorem push_stmts (stmt : Stmt) :
    (s.push stmt).stmts.toList = s.stmts.toList ++ [stmt] := by simp [push]

theorem Grows.push (stmt : Stmt) : s.Grows (s.push stmt) :=
  ⟨fun _ _ h => h, by simp⟩

theorem Quiet.push (h : s.Quiet) {stmt : Stmt} (hstmt : stmt.isQuiet = true) :
    (s.push stmt).Quiet := by
  intro t ht
  rw [Stage.push, Array.mem_push] at ht
  rcases ht with ht | rfl
  · exact h t ht
  · exact hstmt

/-- A further temporary leaves what is known of the others alone. -/
theorem getElem?_push_of_some {α : Type} {known : Array α} {t : Nat} {a b : α}
    (ht : known[t]? = some a) : (known.push b)[t]? = some a := by
  obtain ⟨hlt, -⟩ := Array.getElem?_eq_some_iff.mp ht
  rw [Array.getElem?_push_lt hlt, ← Array.getElem?_eq_getElem hlt, ht]

namespace Sound

/-- A statement that binds nothing. -/
theorem push (h : s.Sound P pending) {stmt : Stmt} (htarget : stmt.target? = none)
    (hfits : Fits P.env s.types s.stmts.toList stmt)
    (hoff : ¬P.word.IsBitLogic → stmt.OffFields P.env.arch)
    (hkeeps : stmt.Keeps P.env.arch P.word) : (s.push stmt).Sound P pending where
  bound_size := h.bound_size
  code := by rw [push_stmts]; exact .snoc h.code hfits
  head := by simp [h.head]
  fields hw := by rw [push_stmts]; exact .other (h.fields hw) (hoff hw)
  sticky := by
    rw [push_stmts, List.forall_mem_append]
    exact ⟨h.sticky, List.forall_mem_singleton.mpr hkeeps⟩
  bound_iff t := by simpa [boundBy_single, htarget] using h.bound_iff t
  pending_iff := h.pending_iff
  pending_nodup := h.pending_nodup

/-- The two bytes of a condition field. -/
theorem pushField (h : s.Sound P pending) {f : Nat} {p q : Layout.Place} {a b : Expr}
    (hp : Layout.locate P.env.arch (.cr321 f) = .ok p)
    (hq : Layout.locate P.env.arch (.cr0 f) = .ok q)
    (hfits : Fits P.env s.types s.stmts.toList (.put p.offset a))
    (hfits' : Fits P.env s.types (s.stmts.toList ++ [.put p.offset a]) (.put q.offset b)) :
    ((s.push (.put p.offset a)).push (.put q.offset b)).Sound P pending where
  bound_size := h.bound_size
  code := by
    rw [push_stmts, push_stmts]
    exact .snoc (.snoc h.code hfits) hfits'
  head := by simp [h.head]
  fields hw := by
    rw [push_stmts, push_stmts, List.append_assoc]
    exact .field (h.fields hw) f hp hq
  sticky := by
    rw [push_stmts, push_stmts, List.forall_mem_append, List.forall_mem_append]
    refine ⟨⟨h.sticky, List.forall_mem_singleton.mpr ?_⟩, List.forall_mem_singleton.mpr ?_⟩
    · exact Stmt.keeps_slot hp nofun
    · exact Stmt.keeps_slot hq nofun
  bound_iff t := by simpa [boundBy, Stmt.target?] using h.bound_iff t
  pending_iff := h.pending_iff
  pending_nodup := h.pending_nodup

/-- A statement that binds a pending temporary. -/
theorem settle {t : Nat} (h : s.Sound P (t :: pending)) {stmt : Stmt}
    (htarget : stmt.target? = some t) (hfits : Fits P.env s.types s.stmts.toList stmt) :
    ({ s with bound := s.bound.setIfInBounds t true }.push stmt).Sound P pending := by
  have hfalse : s.bound[t]? = some false := (h.pending_iff t).mpr List.mem_cons_self
  obtain ⟨hlt, -⟩ := Array.getElem?_eq_some_iff.mp hfalse
  -- A temporary that was listed twice would stay pending once it is bound.
  obtain ⟨hnot, hnodup⟩ := List.nodup_cons.mp h.pending_nodup
  constructor
  · simpa using h.bound_size
  · rw [push_stmts]
    exact .snoc h.code hfits
  · simp [h.head]
  · intro hw
    rw [push_stmts]
    refine .other (h.fields hw) (Stmt.offFields_of_target htarget)
  · rw [push_stmts, List.forall_mem_append]
    exact ⟨h.sticky, List.forall_mem_singleton.mpr (Stmt.keeps_of_target htarget)⟩
  · intro t'
    rw [push_stmts, push_bound, boundBy_append, boundBy_single, htarget, List.mem_append,
      ← h.bound_iff t', Array.getElem?_setIfInBounds]
    by_cases ht : t = t'
    · simp [← ht, hlt]
    · simp [ht, eq_comm]
  · intro t'
    rw [push_bound, Array.getElem?_setIfInBounds]
    by_cases ht : t = t'
    · simp [← ht, hlt, hnot]
    · simp [ht, h.pending_iff t', eq_comm]
  · exact hnodup

/-- A temporary that is to be bound later. -/
theorem newTemp (h : s.Sound P pending) (ty : Ty) :
    (s.newTemp ty).1.Sound P (s.types.size :: pending) := by
  have hsize := h.bound_size
  -- Every pending temporary is below the size, which is the number of the new one.
  have hnot : s.types.size ∉ pending := by
    intro hmem
    have hfalse := (h.pending_iff _).mpr hmem
    rw [← hsize, Array.getElem?_size] at hfalse
    contradiction
  constructor
  · simp [Stage.newTemp, hsize]
  · exact h.code.mono fun _ _ hfits => hfits.mono fun _ _ => getElem?_push_of_some
  · exact h.head
  · exact h.fields
  · exact h.sticky
  · intro t
    simp only [Stage.newTemp, Array.getElem?_push, hsize, ← h.bound_iff t]
    split
    next ht => simp [ht, ← hsize]
    next => rfl
  · intro t
    simp only [Stage.newTemp, Array.getElem?_push, hsize, List.mem_cons, ← h.pending_iff t]
    split
    next ht => simp [ht]
    next ht => simp [ht]
  · exact List.nodup_cons.mpr ⟨hnot, h.pending_nodup⟩

/-- A temporary that is bound at once. -/
theorem bind (h : s.Sound P pending) {ty : Ty} {e : Expr} (he : e.HasTy P.env s.scope ty) :
    ({ s with types := s.types.push ty, bound := s.bound.push true }.push
      (.bind s.types.size e)).Sound P pending := by
  have hsize := h.bound_size
  have hnot : s.types.size ∉ boundBy s.stmts.toList := by
    rw [← h.bound_iff, ← hsize, Array.getElem?_size]
    simp
  -- Binding at once is making a temporary and settling it.
  have hbound : s.bound.push true = (s.bound.push false).setIfInBounds s.types.size true := by
    rw [← hsize]
    simp [Array.setIfInBounds, Array.set_push]
  rw [hbound]
  refine (h.newTemp ty).settle rfl (.bind _ e ty ?_ (by simp [Stage.newTemp]) hnot)
  refine he.mono fun t τ ht => ?_
  obtain ⟨hmem, hτ⟩ := scopeOf_eq_some.mp ht
  exact scopeOf_eq_some.mpr ⟨hmem, getElem?_push_of_some hτ⟩

end Sound

end Stage

theorem forM_eq_ok {α : Type} {f : α → Except Fault Unit} {l : List α}
    (h : ∀ a ∈ l, f a = .ok ()) : l.forM f = .ok () := by
  induction l with
  | nil => rfl
  | cons a l ih =>
      have htail := ih fun b hb => h b (List.mem_cons_of_mem a hb)
      simpa [List.forM_cons, h a List.mem_cons_self] using htail

section Paired

variable {P : Placement} {s : Stage} {pending : List Nat} {e e' : Expr} {τ : Ty}

/-- A typed expression passes the checks of both stages. -/
theorem Paired.check_eq (houter : s.outer = #[]) (hsound : s.Sound P pending)
    (he : Paired P s e e' τ) :
    s.check e = .ok τ ∧ (s.on P.outer).check e' = .ok τ := by
  obtain ⟨rfl, hty⟩ := he
  have hread : ∀ t ∈ e.temps, s.bound[t]? = some true := by
    intro t ht
    obtain ⟨ty, hscope⟩ := hty.mem_temps t ht
    exact (hsound.bound_iff t).mpr (scopeOf_eq_some.mp hscope).1
  have htypes : ∀ t ty, s.scope t = some ty →
      s.tempTy t = .ok ty ∧ (s.on P.outer).tempTy (P.outer.size + t) = .ok ty :=
    fun t ty ht => s.tempTy_on P.outer houter t ty (scopeOf_eq_some.mp ht).2
  constructor
  · have hforM : e.temps.forM s.checkRead = .ok () :=
      forM_eq_ok fun t ht => (s.checkRead_on P.outer houter t (hread t ht)).1
    simp only [Stage.check, hforM, ok_bind]
    exact hty.check_eq fun t ty ht => (htypes t ty ht).1
  · have hforM : (e.shift P.outer.size).temps.forM (s.on P.outer).checkRead = .ok () := by
      refine forM_eq_ok fun t ht => ?_
      rw [Expr.temps_shift, List.mem_map] at ht
      obtain ⟨u, hu, rfl⟩ := ht
      exact (s.checkRead_on P.outer houter u (hread u hu)).2
    simp only [Stage.check, hforM, ok_bind, Expr.check_shift]
    exact hty.check_eq fun t ty ht => (htypes t ty ht).2

theorem Paired.checkAddress_eq (houter : s.outer = #[]) (hsound : s.Sound P pending)
    (he : Paired P s e e' P.gprTy) :
    s.checkAddress e = .ok () ∧ (s.on P.outer).checkAddress e' = .ok () := by
  obtain ⟨hleft, hright⟩ := he.check_eq houter hsound
  have hty := Expr.gprTy_cases P.env
  constructor <;> simp [Stage.checkAddress, *]

theorem Paired.typeOf_eq (houter : s.outer = #[]) (he : Paired P s e e' τ) :
    e.typeOf s.tempTy = .ok τ ∧ e'.typeOf (s.on P.outer).tempTy = .ok τ := by
  obtain ⟨rfl, hty⟩ := he
  have htypes : ∀ t ty, s.scope t = some ty →
      s.tempTy t = .ok ty ∧ (s.on P.outer).tempTy (P.outer.size + t) = .ok ty :=
    fun t ty ht => s.tempTy_on P.outer houter t ty (scopeOf_eq_some.mp ht).2
  rw [Expr.typeOf_shift]
  exact ⟨hty.typeOf_eq fun t ty ht => (htypes t ty ht).1,
    hty.typeOf_eq fun t ty ht => (htypes t ty ht).2⟩

end Paired

end PowerLift
