import PowerLift.Proofs.Placement

/-!
# Staged code

What a translator has staged is a list of statements, each of which fits those before it: it reads
temporaries that are bound by then, binds one that is not, and is well typed. A stage is sound when
its statements are so built and its record of bound temporaries is right.
-/

namespace PowerLift

namespace Stmt

/-- The temporary that a statement binds. -/
def target? : Stmt → Option Nat
  | .bind t _ | .loadLinked _ t _ | .storeConditional _ t _ _ => some t
  | .call c => c.result
  | .mark _ _ _ | .put _ _ | .store _ _ _ | .exit _ _ _ _ | .fence | .hint _ _ _ => none

/-- A statement that binds a temporary writes no register. -/
theorem ne_put_of_target {stmt : Stmt} {t : Nat} (h : stmt.target? = some t) (offset : Nat)
    (e : Expr) : stmt ≠ .put offset e := by
  rintro rfl
  simp [target?] at h

theorem offFields_of_target {arch : Arch} {stmt : Stmt} {t : Nat} (h : stmt.target? = some t) :
    stmt.OffFields arch := offFields_of_ne_put (ne_put_of_target h)

theorem keeps_of_target {arch : Arch} {w : Insn} {stmt : Stmt} {t : Nat}
    (h : stmt.target? = some t) : stmt.Keeps arch w := keeps_of_ne_put (ne_put_of_target h)

/-- Whether a statement leaves guest state and memory alone. -/
def isQuiet : Stmt → Bool
  | .mark _ _ _ | .bind _ _ | .exit _ _ _ _ => true
  | .put _ _ | .store _ _ _ | .loadLinked _ _ _ | .storeConditional _ _ _ _ | .call _ | .fence
  | .hint _ _ _ => false

end Stmt

/-- The temporaries that statements bind, in order. -/
def boundBy (stmts : List Stmt) : List Nat := stmts.filterMap Stmt.target?

@[simp] theorem boundBy_nil : boundBy [] = [] := rfl

@[simp] theorem boundBy_append (ss ss' : List Stmt) :
    boundBy (ss ++ ss') = boundBy ss ++ boundBy ss' := List.filterMap_append

theorem boundBy_single (s : Stmt) : boundBy [s] = s.target?.toList := by
  cases h : s.target? <;> simp [boundBy, h]

/-- The temporaries that may be read behind statements, with their types. -/
def scopeOf (types : Array Ty) (stmts : List Stmt) (t : Nat) : Option Ty :=
  if t ∈ boundBy stmts then types[t]? else none

theorem scopeOf_eq_some {types : Array Ty} {stmts : List Stmt} {t : Nat} {ty : Ty} :
    scopeOf types stmts t = some ty ↔ t ∈ boundBy stmts ∧ types[t]? = some ty := by
  unfold scopeOf
  split <;> simp_all

/-- Statements each of which fits those before it. -/
inductive Trail (fits : List Stmt → Stmt → Prop) : List Stmt → Prop where
  | nil : Trail fits []
  | snoc {ss : List Stmt} {s : Stmt} (hss : Trail fits ss) (hs : fits ss s) : Trail fits (ss ++ [s])

namespace Trail

variable {fits fits' : List Stmt → Stmt → Prop}

theorem mono (hfits : ∀ ss s, fits ss s → fits' ss s) {ss : List Stmt} (h : Trail fits ss) :
    Trail fits' ss := by
  induction h with
  | nil => exact .nil
  | snoc _ hs ih => exact .snoc ih (hfits _ _ hs)

theorem map {f : Stmt → Stmt} {ss : List Stmt} (h : Trail fits ss)
    (hf : ∀ ss s, fits ss s → fits' (ss.map f) (f s)) : Trail fits' (ss.map f) := by
  induction h with
  | nil => exact .nil
  | @snoc ss s _ hs ih =>
      rw [List.map_append]
      exact .snoc ih (hf ss s hs)

theorem append {old new : List Stmt} (hold : Trail fits' old) (hnew : Trail fits new)
    (h : ∀ ss s, fits ss s → fits' (old ++ ss) s) : Trail fits' (old ++ new) := by
  induction hnew with
  | nil => simpa using hold
  | @snoc ss s _ hs ih =>
      rw [← List.append_assoc]
      exact .snoc ih (h ss s hs)

theorem fits_take {ss : List Stmt} (h : Trail fits ss) {i : Nat} {stmt : Stmt} (hi : ss[i]? = some stmt) :
    fits (ss.take i) stmt := by
  induction h with
  | nil => simp at hi
  | @snoc ss s _ hs ih =>
      rcases Nat.lt_or_ge i ss.length with hlt | hge
      · rw [List.getElem?_append_left hlt] at hi
        rw [List.take_append_of_le_length (Nat.le_of_lt hlt)]
        exact ih hi
      · rw [List.getElem?_append_right hge] at hi
        obtain ⟨hzero, rfl⟩ : i - ss.length = 0 ∧ s = stmt := by
          simpa [List.getElem?_singleton] using hi
        obtain rfl : i = ss.length := by omega
        rwa [List.take_left]

end Trail

/-- The statements that translators emit, over temporaries of the types given. -/
inductive Fits (env : Env) (types : Array Ty) (ss : List Stmt) : Stmt → Prop where
  | mark (len : Nat) (hss : ss = []) : Fits env types ss (.mark env.cia len 0)
  | bind (t : Nat) (e : Expr) (τ : Ty) (he : e.HasTy env (scopeOf types ss) τ)
      (hty : types[t]? = some τ) (ht : t ∉ boundBy ss) : Fits env types ss (.bind t e)
  | put (p : Layout.Place) (e : Expr) (hp : Layout.Accepts env.arch env.host ss e p)
      (he : e.HasTy env (scopeOf types ss) p.ty) : Fits env types ss (.put p.offset e)
  | store (a e : Expr) (τ : Ty) (ha : a.HasTy env (scopeOf types ss) env.gprTy)
      (he : e.HasTy env (scopeOf types ss) τ) (hτ : τ ≠ .i1) :
      Fits env types ss (.store env.host a e)
  | exit (guard : Expr) (kind : JumpKind) (target : BitVec 64)
      (hguard : guard.HasTy env (scopeOf types ss) .i1)
      -- A fault is taken before the instruction has done anything, and leads back to it.
      (hfault : kind = .sigBus ∨ kind = .sigTrap →
        target = env.cia ∧ ∀ s ∈ ss, s.isQuiet = true)
      (haligned : env.cia % 4 = 0 → target % 4 = 0) :
      Fits env types ss (.exit guard kind (env.address (env.cutAddress target))
        (Layout.specialOffset env.arch .cia))
  | loadLinked (t : Nat) (a : Expr) (τ : Ty) (ha : a.HasTy env (scopeOf types ss) env.gprTy)
      (hty : types[t]? = some τ) (hτ : τ.isInt = true) (ht : t ∉ boundBy ss) :
      Fits env types ss (.loadLinked env.host t a)
  | storeConditional (t : Nat) (a e : Expr) (τ : Ty)
      (ha : a.HasTy env (scopeOf types ss) env.gprTy)
      (he : e.HasTy env (scopeOf types ss) τ) (hτ : τ ≠ .i1) (hty : types[t]? = some .i1)
      (ht : t ∉ boundBy ss) : Fits env types ss (.storeConditional env.host t a e)
  | fence : Fits env types ss .fence
  | timeBase (t : Nat) (hty : types[t]? = some .i64) (ht : t ∉ boundBy ss) :
      Fits env types ss (.call ⟨.readTimeBase, .u1 true, [], some t, none, []⟩)
  | hint (a : Expr) (len : Nat) (next : Expr) (ha : a.HasTy env (scopeOf types ss) env.gprTy)
      (hnext : next.HasTy env (scopeOf types ss) env.gprTy) : Fits env types ss (.hint a len next)

/-- Later temporaries do not disturb what fits. -/
theorem Fits.mono {env : Env} {types types' : Array Ty} {ss : List Stmt} {s : Stmt}
    (htypes : ∀ (t : Nat) (τ : Ty), types[t]? = some τ → types'[t]? = some τ)
    (h : Fits env types ss s) : Fits env types' ss s := by
  have hscope : ∀ t ty, scopeOf types ss t = some ty → scopeOf types' ss t = some ty := by
    intro t ty ht
    obtain ⟨hmem, hty⟩ := scopeOf_eq_some.mp ht
    exact scopeOf_eq_some.mpr ⟨hmem, htypes t ty hty⟩
  cases h with
  | mark len hss => exact .mark len hss
  | bind t e τ he hty ht => exact .bind t e τ (he.mono hscope) (htypes t τ hty) ht
  | put p e hp he => exact .put p e hp (he.mono hscope)
  | store a e τ ha he hτ => exact .store a e τ (ha.mono hscope) (he.mono hscope) hτ
  | exit guard kind target hguard hfault haligned =>
      exact .exit guard kind target (hguard.mono hscope) hfault haligned
  | loadLinked t a τ ha hty hτ ht =>
      exact .loadLinked t a τ (ha.mono hscope) (htypes t τ hty) hτ ht
  | storeConditional t a e τ ha he hτ hty ht =>
      exact .storeConditional t a e τ (ha.mono hscope) (he.mono hscope) hτ (htypes t .i1 hty) ht
  | fence => exact .fence
  | timeBase t hty ht => exact .timeBase t (htypes t .i64 hty) ht
  | hint a len next ha hnext => exact .hint a len next (ha.mono hscope) (hnext.mono hscope)

namespace Stage

/-- The temporaries that may be read, with their types. -/
def scope (s : Stage) : Nat → Option Ty := scopeOf s.types s.stmts.toList

/-- A stage without code that writes guest state or memory. -/
def Quiet (s : Stage) : Prop := ∀ stmt ∈ s.stmts, stmt.isQuiet = true

/-- A sound stage, in which the temporaries of `pending` are still to be bound. -/
structure Sound (P : Placement) (s : Stage) (pending : List Nat) : Prop where
  bound_size : s.bound.size = s.types.size
  code : Trail (Fits P.env s.types) s.stmts.toList
  head : s.stmts.toList.head? = some (.mark P.env.cia P.span 0)
  fields : ¬P.word.IsBitLogic → Fieldwise P.env.arch s.stmts.toList
  sticky : ∀ stmt ∈ s.stmts.toList, stmt.Keeps P.env.arch P.word
  bound_iff : ∀ t, s.bound[t]? = some true ↔ t ∈ boundBy s.stmts.toList
  pending_iff : ∀ t, s.bound[t]? = some false ↔ t ∈ pending
  pending_nodup : pending.Nodup

/-- What a later stage keeps of an earlier one. -/
structure Grows (s s' : Stage) : Prop where
  types : ∀ (t : Nat) (ty : Ty), s.types[t]? = some ty → s'.types[t]? = some ty
  code : s.stmts.toList <+: s'.stmts.toList

namespace Grows

theorem refl (s : Stage) : Grows s s := ⟨fun _ _ h => h, List.prefix_rfl⟩

theorem trans {r s s' : Stage} (h : Grows r s) (h' : Grows s s') : Grows r s' :=
  ⟨fun t ty ht => h'.types t ty (h.types t ty ht), h.code.trans h'.code⟩

theorem bound {s s' : Stage} (h : Grows s s') :
    ∀ t ∈ boundBy s.stmts.toList, t ∈ boundBy s'.stmts.toList := by
  obtain ⟨ss, hss⟩ := h.code
  intro t ht
  rw [← hss, boundBy_append]
  exact List.mem_append_left _ ht

theorem scope {s s' : Stage} (h : Grows s s') (t : Nat) (ty : Ty) (ht : s.scope t = some ty) :
    s'.scope t = some ty := by
  obtain ⟨hmem, hty⟩ := scopeOf_eq_some.mp ht
  exact scopeOf_eq_some.mpr ⟨h.bound t hmem, h.types t ty hty⟩

end Grows

/-- The stage `s'` directly follows `s` in a run. -/
class Next (s : outParam Stage) (s' : Stage) : Prop where
  grows : Grows s s'

/-- The stage `s'` follows `s` in a run. -/
class Before (s s' : Stage) : Prop where
  grows : Grows s s'

-- Tried first, or the search would go on to the stages before `s`.
instance (priority := high) (s : Stage) : Before s s := ⟨.refl s⟩

instance {r s s' : Stage} [hnext : Next s s'] [hbefore : Before r s] : Before r s' :=
  ⟨hbefore.grows.trans hnext.grows⟩

end Stage

end PowerLift
