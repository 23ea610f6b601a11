import PowerLift.Lift.Basic
import PowerLift.Proofs.FlagBits
import PowerLift.Proofs.Relocation

/-!
# Typing of emitted expressions

The expressions that translators build are better behaved than the checks of a stage ask for: they
read whole registers, never the instruction address, and read memory at word-sized addresses in one
byte order. Their typing says so, relative to the temporaries that may be read.
-/

namespace PowerLift

@[simp] theorem ok_bind {ε α β : Type} (a : α) (f : α → Except ε β) :
    (Except.ok a >>= f) = f a := rfl

@[simp] theorem pure_eq_ok {ε α : Type} (a : α) : (pure a : Except ε α) = .ok a := rfl

/-- The type of a general register. -/
abbrev Env.gprTy (env : Env) : Ty := env.arch.word.width.ty

theorem Arch.wordTy_eq (arch : Arch) : arch.wordTy = arch.word.width.ty := by cases arch <;> rfl

theorem Env.address_ty (env : Env) (v : BitVec 64) : (env.address v).ty = env.gprTy := by
  cases h : env.arch <;> simp [address, h, Arch.is64, Const.ty, gprTy, Arch.word, Word.width,
    Width.ty]

namespace Expr

mutual

/-- Expressions of a type, over the temporaries that `scope` knows. -/
def HasTy (env : Env) (scope : Nat → Option Ty) : Expr → Ty → Prop
  -- Registers are read whole, and the instruction address is never read.
  | .get offset ty, τ => ty = τ ∧ Layout.Register env.arch env.host ⟨offset, ty⟩
  | .tmp t, τ => scope t = some τ
  | .const c, τ => c.ty = τ
  | .apply op args, τ => op.signature.ret = τ ∧ HaveTys env scope args op.signature.args
  | .load order ty addr, τ => order = env.host ∧ ty = τ ∧ HasTy env scope addr env.gprTy
  | .ite cond yes no, τ =>
      HasTy env scope cond .i1 ∧ HasTy env scope yes τ ∧ HasTy env scope no τ
  | .call _ ret args, τ => ret = τ ∧ ∃ types, HaveTys env scope args types

/-- Expressions of the types listed, one each. -/
def HaveTys (env : Env) (scope : Nat → Option Ty) : List Expr → List Ty → Prop
  | [], [] => True
  | e :: es, ty :: types => HasTy env scope e ty ∧ HaveTys env scope es types
  | _, _ => False

end

variable {env : Env} {scope scope' : Nat → Option Ty}

theorem HaveTys.length_eq {es : List Expr} {types : List Ty} (h : HaveTys env scope es types) :
    es.length = types.length := by
  induction es generalizing types with
  | nil => cases types <;> simp_all [HaveTys]
  | cons e es ih =>
      cases types with
      | nil => simp [HaveTys] at h
      | cons ty types => simp [ih h.2]

mutual

theorem HasTy.mono (hscope : ∀ t ty, scope t = some ty → scope' t = some ty) :
    ∀ {e : Expr} {τ : Ty}, HasTy env scope e τ → HasTy env scope' e τ
  | .get _ _, _, h | .const _, _, h => h
  | .tmp t, _, h => hscope t _ h
  | .apply _ _, _, h => ⟨h.1, HaveTys.mono hscope h.2⟩
  | .load _ _ _, _, h => ⟨h.1, h.2.1, HasTy.mono hscope h.2.2⟩
  | .ite _ _ _, _, h => ⟨HasTy.mono hscope h.1, HasTy.mono hscope h.2.1, HasTy.mono hscope h.2.2⟩
  | .call _ _ _, _, h => ⟨h.1, h.2.choose, HaveTys.mono hscope h.2.choose_spec⟩

theorem HaveTys.mono (hscope : ∀ t ty, scope t = some ty → scope' t = some ty) :
    ∀ {es : List Expr} {types : List Ty}, HaveTys env scope es types → HaveTys env scope' es types
  | [], [], _ => trivial
  | _ :: _, _ :: _, h => ⟨HasTy.mono hscope h.1, HaveTys.mono hscope h.2⟩

end

theorem gprTy_cases (env : Env) : env.gprTy = .i32 ∨ env.gprTy = .i64 := by
  cases h : env.arch <;> simp [Env.gprTy, h, Arch.word, Word.width, Width.ty]

variable {types : Nat → Except Fault Ty}

mutual

/-- Typed expressions pass the check, at their type. -/
theorem HasTy.check_eq (htypes : ∀ t ty, scope t = some ty → types t = .ok ty) :
    ∀ {e : Expr} {τ : Ty}, HasTy env scope e τ → e.check types = .ok τ
  | .get _ _, _, h => by simp only [check, h.1]
  | .tmp t, _, h => htypes t _ h
  | .const _, _, h => by rw [check, h]
  | .apply op args, _, h => by
      have hargs := HaveTys.checkOperands_eq htypes op 0 h.2
      simp [check, Signature.arity, h.2.length_eq, hargs, ← h.1]
  | .load _ _ addr, _, h => by
      have haddr := HasTy.check_eq htypes h.2.2
      -- The check takes addresses of 32 and of 64 bits.
      rcases gprTy_cases env with hty | hty <;> simp [check, haddr, hty, h.2.1]
  | .ite cond yes no, _, h => by
      have hyes := HasTy.check_eq htypes h.2.1
      have hno := HasTy.check_eq htypes h.2.2
      simp [check, HasTy.check_eq htypes h.1, hyes, hno]
  | .call _ _ args, _, h => by
      have hargs := HaveTys.checkEach_eq htypes h.2.choose_spec
      simp [check, hargs, h.1]

theorem HaveTys.checkOperands_eq (htypes : ∀ t ty, scope t = some ty → types t = .ok ty)
    (op : Op) (i : Nat) : ∀ {es : List Expr} {tys : List Ty},
      HaveTys env scope es tys → checkOperands types op i tys es = .ok ()
  | [], [], _ => rfl
  | e :: es, ty :: tys, h => by
      simpa [checkOperands, HasTy.check_eq htypes h.1] using
        HaveTys.checkOperands_eq htypes op (i + 1) h.2

theorem HaveTys.checkEach_eq (htypes : ∀ t ty, scope t = some ty → types t = .ok ty) :
    ∀ {es : List Expr} {tys : List Ty}, HaveTys env scope es tys → checkEach types es = .ok ()
  | [], [], _ => rfl
  | e :: es, ty :: tys, h => by
      simpa [checkEach, HasTy.check_eq htypes h.1] using HaveTys.checkEach_eq htypes h.2

end

theorem HasTy.typeOf_eq (htypes : ∀ t ty, scope t = some ty → types t = .ok ty) :
    ∀ {e : Expr} {τ : Ty}, HasTy env scope e τ → e.typeOf types = .ok τ
  | .get _ _, _, h | .apply _ _, _, h | .call _ _ _, _, h => by simp only [typeOf, h.1]
  | .tmp t, _, h => htypes t _ h
  | .const _, _, h => by rw [typeOf, h]
  | .load _ _ _, _, h => by simp only [typeOf, h.2.1]
  | .ite _ _ _, _, h => by simpa only [typeOf] using HasTy.typeOf_eq htypes h.2.1

mutual

/-- Typed expressions read temporaries in scope only. -/
theorem HasTy.mem_temps :
    ∀ {e : Expr} {τ : Ty}, HasTy env scope e τ → ∀ t ∈ e.temps, ∃ ty, scope t = some ty
  | .get _ _, _, _, _, ht | .const _, _, _, _, ht => by simp [temps] at ht
  | .tmp t, τ, h, t', ht => by
      obtain rfl : t' = t := by simpa [temps] using ht
      exact ⟨τ, h⟩
  | .apply _ _, _, h, _, ht => HaveTys.mem_temps h.2 _ ht
  | .load _ _ _, _, h, _, ht => HasTy.mem_temps h.2.2 _ ht
  | .ite _ _ _, _, h, t, ht => by
      simp only [temps, List.mem_append] at ht
      rcases ht with (ht | ht) | ht
      · exact HasTy.mem_temps h.1 _ ht
      · exact HasTy.mem_temps h.2.1 _ ht
      · exact HasTy.mem_temps h.2.2 _ ht
  | .call _ _ _, _, h, _, ht => HaveTys.mem_temps h.2.choose_spec _ ht

theorem HaveTys.mem_temps :
    ∀ {es : List Expr} {tys : List Ty}, HaveTys env scope es tys →
      ∀ t ∈ tempsOf es, ∃ ty, scope t = some ty
  | [], [], _, _, ht => by simp [tempsOf] at ht
  | _ :: _, _ :: _, h, t, ht => by
      simp only [tempsOf, List.mem_append] at ht
      rcases ht with ht | ht
      · exact HasTy.mem_temps h.1 _ ht
      · exact HaveTys.mem_temps h.2 _ ht

end

variable {types' : Nat → Except Fault Ty}

mutual

/-- The type of an expression depends on the types of the temporaries that it reads. -/
theorem check_congr : ∀ (e : Expr), (∀ t ∈ e.temps, types t = types' t) →
    e.check types = e.check types'
  | .get _ _, _ | .const _, _ => rfl
  | .tmp t, h => h t List.mem_cons_self
  | .apply op args, h => by simp only [check, checkOperands_congr op 0 op.signature.args args h]
  | .load _ _ addr, h => by simp only [check, check_congr addr h]
  | .ite cond yes no, h => by
      simp only [temps, List.mem_append] at h
      have hcond := check_congr cond fun t ht => h t (.inl (.inl ht))
      have hyes := check_congr yes fun t ht => h t (.inl (.inr ht))
      have hno := check_congr no fun t ht => h t (.inr ht)
      simp only [check, hcond, hyes, hno]
  | .call _ _ args, h => by simp only [check, checkEach_congr args h]

theorem checkOperands_congr (op : Op) (i : Nat) : ∀ (wants : List Ty) (args : List Expr),
    (∀ t ∈ tempsOf args, types t = types' t) →
      checkOperands types op i wants args = checkOperands types' op i wants args
  | [], [], _ | [], _ :: _, _ | _ :: _, [], _ => rfl
  | want :: wants, arg :: args, h => by
      simp only [tempsOf, List.mem_append] at h
      have harg := check_congr arg fun t ht => h t (.inl ht)
      have hargs := checkOperands_congr op (i + 1) wants args fun t ht => h t (.inr ht)
      simp only [checkOperands, harg, hargs]

theorem checkEach_congr : ∀ (args : List Expr), (∀ t ∈ tempsOf args, types t = types' t) →
    checkEach types args = checkEach types' args
  | [], _ => rfl
  | arg :: args, h => by
      simp only [tempsOf, List.mem_append] at h
      have harg := check_congr arg fun t ht => h t (.inl ht)
      have hargs := checkEach_congr args fun t ht => h t (.inr ht)
      simp only [checkEach, harg, hargs]

end

end Expr

end PowerLift
