import PowerLift.Proofs.Effect

/-!
# Temporaries that are bound later

A temporary may be made before it is known what it will hold. Until a statement binds it, it is
open: it cannot be read, and further temporaries leave it open. Binding it disturbs no other.
-/

namespace PowerLift

open Lift (Does exec)

variable {M : Type} {I : Interp M} {env : Env} {p : Progress} {s : Stage} {t : Nat} {τ : Ty}

namespace Stage

/-- A staged temporary that no statement binds yet. -/
structure Open (s : Stage) (t : Nat) (τ : Ty) : Prop where
  base_le : s.base ≤ t
  bound : s.bound[t - s.base]? = some false
  ty : s.types[t - s.base]? = some τ

/-- Temporaries that may be read were made before the next one. -/
theorem lt_fresh_of_check (h : s.check (.tmp t) = .ok τ) : t < s.fresh := by
  rw [check_tmp_iff] at h
  unfold fresh
  split at h
  next hlt => omega
  next hge =>
    obtain ⟨hlt, -⟩ := Array.getElem?_eq_some_iff.mp h.2
    omega

namespace Open

theorem not_check (ht : s.Open t τ) {τ' : Ty} : s.check (.tmp t) ≠ .ok τ' := by
  intro h
  rw [check_tmp_iff, if_neg (Nat.not_lt.mpr ht.base_le), ht.bound] at h
  simp at h

theorem withTemp (ht : s.Open t τ) (e : Expr) (τ' : Ty) : (s.withTemp e τ').Open t τ where
  base_le := ht.base_le
  bound := getElem?_push_of_some ht.bound
  ty := getElem?_push_of_some ht.ty

theorem newTemp (ht : s.Open t τ) (τ' : Ty) : (s.newTemp τ').1.Open t τ where
  base_le := ht.base_le
  bound := getElem?_push_of_some ht.bound
  ty := getElem?_push_of_some ht.ty

theorem tempTy_eq (ht : s.Open t τ) : s.tempTy t = .ok τ := by
  simp only [tempTy, Nat.not_lt.mpr ht.base_le, ht.ty, if_false]

end Open

/-- The stage with an open temporary marked as bound. -/
def marked (s : Stage) (t : Nat) : Stage :=
  { s with bound := s.bound.setIfInBounds (t - s.base) true }

namespace Open

theorem markBound_eq (ht : s.Open t τ) : s.markBound t = .ok (s.marked t) := by
  simp only [markBound, Nat.not_lt.mpr ht.base_le, ht.bound, if_false]
  rfl

theorem marked_bound (ht : s.Open t τ) : (s.marked t).bound[t - s.base]? = some true := by
  obtain ⟨hlt, -⟩ := Array.getElem?_eq_some_iff.mp ht.bound
  simp [marked, hlt]

/-- A temporary that was open may be read. -/
theorem check_marked (ht : s.Open t τ) (stmt : Stmt) :
    ((s.marked t).push stmt).check (.tmp t) = .ok τ := by
  have hbase : ((s.marked t).push stmt).base = s.base := rfl
  rw [check_tmp_iff, hbase, if_neg (Nat.not_lt.mpr ht.base_le)]
  exact ⟨ht.marked_bound, ht.ty⟩

theorem follows_marked (ht : s.Open t τ) (hs : s.Level) (stmt : Stmt) :
    s.Follows ((s.marked t).push stmt) := by
  refine ⟨?_, Nat.le_refl _, fun e τ' he => check_mono hs (fun _ _ h =>
    check_tmp_mono h ((s.marked t).push stmt) rfl (fun i hi => ?_) fun _ _ h => h) he⟩
  · simpa [Level, marked, push] using hs
  · by_cases heq : i = t - s.base
    · rw [heq]
      exact ht.marked_bound
    · simpa [marked, push, Array.getElem?_setIfInBounds, Ne.symm heq] using hi

end Open

end Stage

theorem newTemp_does (hp : p.stage.Level) (τ : Ty) :
    Does env I p (Lift.newTemp τ) p.stage.fresh { p with stage := (p.stage.newTemp τ).1 } id where
  exec_eq := rfl
  next_eq := rfl
  follows := by
    refine ⟨?_, ?_, fun e τ' he => Stage.check_mono hp (fun _ _ h =>
      Stage.check_tmp_mono h (p.stage.newTemp τ).1 rfl (fun _ => Stage.getElem?_push_of_some)
        fun _ _ => Stage.getElem?_push_of_some) he⟩
    · simpa [Stage.Level, Stage.newTemp] using hp
    · simp [Stage.fresh, Stage.newTemp, Stage.base]
  code := ⟨[], (List.append_nil _).symm, fun _ _ => rfl⟩

theorem newTemp_open (hp : p.stage.Level) (τ : Ty) :
    (p.stage.newTemp τ).1.Open p.stage.fresh τ where
  base_le := Nat.le_add_right _ _
  bound := by
    simp only [Stage.newTemp, Stage.fresh, Stage.base, Nat.add_sub_cancel_left]
    rw [← hp]
    exact Array.getElem?_push_size
  ty := by
    simp only [Stage.newTemp, Stage.fresh, Stage.base, Nat.add_sub_cancel_left]
    exact Array.getElem?_push_size

/-- An open temporary is bound. -/
theorem assign_does (hp : p.stage.Level) (ht : p.stage.Open t τ) {e : Expr}
    (he : p.stage.check e = .ok τ) :
    Does env I p (Lift.assign t e) () { p with stage := (p.stage.marked t).push (.bind t e) }
      fun m => m.bind t (e.eval I m) where
  exec_eq := by
    have hassign : p.stage.assign t e = .ok ((p.stage.marked t).push (.bind t e)) := by
      simp only [Stage.assign, he, ht.tempTy_eq, ht.markBound_eq, ok_bind]
      exact if_neg (not_not_intro rfl)
    change exec env p (Lift.onStage fun s => s.assign t e) = _
    exact Lift.exec_onStage hassign
  next_eq := rfl
  follows := ht.follows_marked hp _
  code := ⟨[.bind t e], Stage.push_stmts _, fun _ _ => rfl⟩

end PowerLift
