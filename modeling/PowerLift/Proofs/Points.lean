import PowerLift.Proofs.Access
import PowerLift.Proofs.OpenTemporary

/-!
# Runs from point to point

A lifting and the run of its code are followed together, from one point to the next. A point is
what was staged so far and a machine in which that code has run. What is known at a point of the
value of an expression stays known at later points, as temporaries are bound once: the guest state
may have to satisfy what the expression reads of it.
-/

namespace PowerLift

open Lift (exec)
open PowerLift.Expr (un bin)

variable {M : Type} {I : Interp M} {env : Env}

theorem Stage.check_ite {s : Stage} {e a b : Expr} {τ : Ty} (he : s.check e = .ok .i1)
    (ha : s.check a = .ok τ) (hb : s.check b = .ok τ) : s.check (.ite e a b) = .ok τ := by
  rw [check_eq_ok] at he ha hb ⊢
  constructor
  · intro t ht
    simp only [Expr.temps, List.mem_append] at ht
    rcases ht with (ht | ht) | ht
    · exact he.1 t ht
    · exact ha.1 t ht
    · exact hb.1 t ht
  · simp [Expr.check, he.2, ha.2, hb.2]

/-- What was staged so far, and a machine in which that code has run. -/
structure Point (M : Type) where
  progress : Progress
  machine : Machine M
  level : progress.stage.Level

namespace Point

variable {c c' c'' : Point M}

def stage (c : Point M) : Stage := c.progress.stage

def state (c : Point M) : GuestState := c.machine.state

/-- A machine in which the temporaries that may be read have the values that they have at `c`. -/
def Shared (c : Point M) (m : Machine M) : Prop :=
  ∀ t τ, c.stage.check (.tmp t) = .ok τ → m.temps t = c.machine.temps t

/-- The code staged between two points takes the machine of the first to that of the second, and
leaves memory and the temporaries that may be read. -/
structure Leads (I : Interp M) (c c' : Point M) : Prop where
  next_eq : c'.progress.next = c.progress.next
  follows : c.stage.Follows c'.stage
  shared : c.Shared c'.machine
  memory : c'.machine.memory = c.machine.memory
  code : ∃ ss, c'.stage.stmts.toList = c.stage.stmts.toList ++ ss ∧
    ∀ types, runAll I types ss c.machine = .behind c'.machine

namespace Leads

theorem refl (c : Point M) : Leads I c c where
  next_eq := rfl
  follows := .refl c.level
  shared _ _ _ := rfl
  memory := rfl
  code := ⟨[], (List.append_nil _).symm, fun _ => rfl⟩

theorem trans (h : Leads I c c') (h' : Leads I c' c'') : Leads I c c'' where
  next_eq := h'.next_eq.trans h.next_eq
  follows := h.follows.trans h'.follows
  shared t τ ht := (h'.shared t τ (h.follows.check _ _ ht)).trans (h.shared t τ ht)
  memory := h'.memory.trans h.memory
  code := by
    obtain ⟨ss, hss, hrun⟩ := h.code
    obtain ⟨ss', hss', hrun'⟩ := h'.code
    refine ⟨ss ++ ss', by rw [hss', hss, List.append_assoc], fun types => ?_⟩
    rw [runAll_append, hrun types]
    exact hrun' types

end Leads

/-- The point `c'` directly follows `c` in a run. -/
class Next (I : Interp M) (c : outParam (Point M)) (c' : Point M) : Prop where
  leads : Leads I c c'

/-- The point `c'` follows `c` in a run. -/
class Before (I : Interp M) (c c' : Point M) : Prop where
  leads : Leads I c c'

-- Tried first, or the search would go on to the points before `c`.
instance (priority := high) (c : Point M) : Before I c c := ⟨.refl c⟩

instance [hnext : Next I c' c''] [hbefore : Before I c c'] : Before I c c'' :=
  ⟨hbefore.leads.trans hnext.leads⟩

/-! ## Known values -/

/-- At `c`, the expression `e` is well typed, and its value is `v` as long as the guest state is one
of `S`. -/
structure Knows (I : Interp M) (c : Point M) (S : GuestState → Prop) (e : Expr) (v : Value) :
    Prop where
  check : c.stage.check e = .ok v.ty
  eval : ∀ m, c.Shared m → S m.state → e.eval I m = v

namespace Knows

variable {S : GuestState → Prop} {a b e : Expr} {u v : Value} {op : Op}

theorem up [h : Before I c c'] (he : Knows I c S e v) : Knows I c' S e v where
  check := h.leads.follows.check _ _ he.check
  eval m hm hS := he.eval m (fun t τ ht =>
    (hm t τ (h.leads.follows.check _ _ ht)).trans (h.leads.shared t τ ht)) hS

theorem const (k : Const) : Knows I c S (.const k) k.value where
  check := by
    rw [k.ty_value]
    rfl
  eval _ _ _ := rfl

theorem tmp {t : Nat} {τ : Ty} (ht : c.stage.check (.tmp t) = .ok τ)
    (hv : (c.machine.temps t) = v) (hτ : v.ty = τ) : Knows I c S (.tmp t) v where
  check := by
    rw [ht, hτ]
  eval m hm _ := (hm t τ ht).trans hv

/-- An operator with one operand. -/
theorem un {z : BitVec op.signature.ret.bits} (ha : Knows I c S a u)
    (hop : op.signature = .unary op.signature.ret u.ty) (hz : I.op op [u] = z) :
    Knows I c S (un op a) ⟨op.signature.ret, z⟩ where
  check := Stage.check_un hop ha.check
  eval m hm hS := by
    simp only [Expr.un, Expr.eval, Expr.evalAll, ha.eval m hm hS, hz]

/-- An operator with two operands. -/
theorem bin {z : BitVec op.signature.ret.bits} (ha : Knows I c S a u) (hb : Knows I c S b v)
    (hop : op.signature = .binary op.signature.ret u.ty v.ty) (hz : I.op op [u, v] = z) :
    Knows I c S (bin op a b) ⟨op.signature.ret, z⟩ where
  check := Stage.check_bin hop ha.check hb.check
  eval m hm hS := by
    simp only [Expr.bin, Expr.eval, Expr.evalAll, ha.eval m hm hS, hb.eval m hm hS, hz]

/-- A choice, of whose arms one has to be known. -/
theorem ite {p : Bool} (he : Knows I c S e ⟨.i1, .ofBool p⟩)
    (ha : c.stage.check a = .ok v.ty) (hb : c.stage.check b = .ok v.ty)
    (hyes : p = true → Knows I c S a v) (hno : p = false → Knows I c S b v) :
    Knows I c S (.ite e a b) v where
  check := Stage.check_ite he.check ha hb
  eval m hm hS := by
    have htrue : (e.eval I m).isTrue = p := by
      rw [he.eval m hm hS]
      cases p <;> rfl
    rw [Expr.eval, htrue]
    cases p with
    | true => exact (hyes rfl).eval m hm hS
    | false => exact (hno rfl).eval m hm hS

theorem congr (h : Knows I c S e u) (huv : u = v) : Knows I c S e v := huv ▸ h

end Knows

/-- A step that writes no guest state and binds no temporary that was made before it. -/
structure Quiet (c c' : Point M) : Prop where
  state_eq : c'.state = c.state
  isOpen : ∀ t τ, c.stage.Open t τ → c'.stage.Open t τ

end Point

/-! ## Rules -/

/-- From `c`, the lifting `x` comes to a result and a later point for which `Q` holds. -/
def Reaches {α : Type} (env : Env) (I : Interp M) (c : Point M) (x : Lift α)
    (Q : α → Point M → Prop) : Prop :=
  ∃ a c', exec env c.progress x = (.ok a, c'.progress) ∧ c.Leads I c' ∧ Q a c'

namespace Reaches

open Point

variable {α β : Type} {c : Point M} {x : Lift α} {f : α → Lift β} {a : α} {S : GuestState → Prop}
  {Q : β → Point M → Prop} {R : α → Point M → Prop} {e : Expr} {v : Value}

theorem pure {Q : α → Point M → Prop} (h : Q a c) : Reaches env I c (pure a : Lift α) Q :=
  ⟨a, c, rfl, .refl c, h⟩

theorem mono {Q Q' : α → Point M → Prop} (h : Reaches env I c x Q)
    (hQ : ∀ a c', Q a c' → Q' a c') : Reaches env I c x Q' := by
  obtain ⟨a, c', hexec, hleads, hc'⟩ := h
  exact ⟨a, c', hexec, hleads, hQ a c' hc'⟩

/-- One lifting behind another. -/
theorem seq (hx : Reaches env I c x R)
    (hf : ∀ a c' [Next I c c'], R a c' → Reaches env I c' (f a) Q) :
    Reaches env I c (x >>= f) Q := by
  obtain ⟨a, c₁, hexec, hleads, ha⟩ := hx
  have : Next I c c₁ := ⟨hleads⟩
  obtain ⟨b, c₂, hexec', hleads', hb⟩ := hf a c₁ ha
  refine ⟨b, c₂, ?_, hleads.trans hleads', hb⟩
  rw [Lift.exec_bind, hexec]
  exact hexec'

/-- A lifting that only looks. -/
theorem give (hx : exec env c.progress x = (.ok a, c.progress)) (hf : Reaches env I c (f a) Q) :
    Reaches env I c (x >>= f) Q := by
  unfold Reaches at hf ⊢
  rw [Lift.exec_bind, hx]
  exact hf

theorem ret (hf : Reaches env I c (f a) Q) : Reaches env I c (Pure.pure a >>= f) Q := .give rfl hf

/-- The last step of a lifting. -/
theorem last {Q : α → Point M → Prop} (h : Reaches env I c (x >>= Pure.pure) Q) :
    Reaches env I c x Q := by
  rwa [bind_pure] at h

theorem listed {line : String} {f : Unit → Lift β}
    (hf : ∀ c' [Next I c c'], Quiet c c' → Reaches env I c' (f ()) Q) :
    Reaches env I c (Lift.listed line >>= f) Q := by
  let noted : Progress := { c.progress with listing := c.progress.listing.push line }
  have hleads : c.Leads I ⟨noted, c.machine, c.level⟩ :=
    ⟨rfl, .refl c.level, fun _ _ _ => rfl, rfl, [], (List.append_nil _).symm, fun _ => rfl⟩
  exact .seq (R := fun _ c' => Quiet c c') ⟨(), _, rfl, hleads, rfl, fun _ _ h => h⟩
    fun _ c' _ hc' => hf c' hc'

/-- A fresh temporary holds a value. -/
theorem bind {f : Expr → Lift β} (he : c.Knows I S e v) (hS : S c.state)
    (hf : ∀ t c' [Next I c c'], Quiet c c' → (∀ {S'}, c'.Knows I S' t v) →
      Reaches env I c' (f t) Q) :
    Reaches env I c (Lift.bind e >>= f) Q := by
  have hdoes : Lift.Does env I c.progress (Lift.bind e) _ _ _ := Lift.bind_does c.level he.check
  have hvalue : e.eval I c.machine = v := he.eval c.machine (fun _ _ _ => rfl) hS
  let c' : Point M := ⟨_, c.machine.bind c.stage.fresh v, hdoes.follows.level⟩
  have hlt : ∀ t τ, c.stage.check (.tmp t) = .ok τ → t ≠ c.stage.fresh :=
    fun t τ ht => Nat.ne_of_lt (Stage.lt_fresh_of_check ht)
  have hleads : c.Leads I c' := by
    refine ⟨rfl, hdoes.follows, fun t τ ht => if_neg (hlt t τ ht), rfl, ?_⟩
    obtain ⟨ss, hss, hrun⟩ := hdoes.code
    refine ⟨ss, hss, fun types => ?_⟩
    rw [hrun, hvalue]
    rfl
  have htmp : ∀ {S'}, c'.Knows I S' (.tmp c.stage.fresh) v :=
    .tmp (Stage.check_fresh c.level e v.ty) (if_pos rfl) rfl
  refine .seq (R := fun t c' => Quiet c c' ∧ ∀ {S'}, c'.Knows I S' t v)
    ⟨_, c', hdoes.exec_eq, hleads, ⟨rfl, fun t τ ht => ht.withTemp e v.ty⟩, htmp⟩ ?_
  intro t c' _ ⟨hquiet, ht⟩
  exact hf t c' hquiet ht

/-- A temporary that is bound later. -/
theorem newTemp {τ : Ty} {f : Nat → Lift β}
    (hf : ∀ t c' [Next I c c'], Quiet c c' → c'.stage.Open t τ → Reaches env I c' (f t) Q) :
    Reaches env I c (Lift.newTemp τ >>= f) Q := by
  have hdoes : Lift.Does env I c.progress (Lift.newTemp τ) _ _ _ := newTemp_does c.level τ
  let c' : Point M := ⟨_, c.machine, hdoes.follows.level⟩
  have hleads : c.Leads I c' := by
    refine ⟨rfl, hdoes.follows, fun t τ ht => rfl, rfl, ?_⟩
    obtain ⟨ss, hss, hrun⟩ := hdoes.code
    exact ⟨ss, hss, fun types => hrun types c.machine⟩
  refine .seq (R := fun t c' => Quiet c c' ∧ c'.stage.Open t τ)
    ⟨_, c', hdoes.exec_eq, hleads, ⟨rfl, fun t τ' ht => ht.newTemp τ⟩,
      newTemp_open c.level τ⟩ ?_
  intro t c' _ ⟨hquiet, ht⟩
  exact hf t c' hquiet ht

/-- A temporary that was made before is bound. -/
theorem assign {t : Nat} {f : Unit → Lift β} (ht : c.stage.Open t v.ty) (he : c.Knows I S e v)
    (hS : S c.state)
    (hf : ∀ c' [Next I c c'], c'.state = c.state → (∀ {S'}, c'.Knows I S' (.tmp t) v) →
      Reaches env I c' (f ()) Q) :
    Reaches env I c (Lift.assign t e >>= f) Q := by
  have hdoes : Lift.Does env I c.progress (Lift.assign t e) _ _ _ :=
    assign_does c.level ht he.check
  have hvalue : e.eval I c.machine = v := he.eval c.machine (fun _ _ _ => rfl) hS
  let c' : Point M := ⟨_, c.machine.bind t v, hdoes.follows.level⟩
  have hleads : c.Leads I c' := by
    refine ⟨hdoes.next_eq, hdoes.follows, fun u τ hu => if_neg ?_, rfl, ?_⟩
    · rintro rfl
      exact ht.not_check hu
    · obtain ⟨ss, hss, hrun⟩ := hdoes.code
      refine ⟨ss, hss, fun types => ?_⟩
      rw [hrun, hvalue]
  have htmp : ∀ {S'}, c'.Knows I S' (.tmp t) v := .tmp (ht.check_marked _) (if_pos rfl) rfl
  refine .seq (R := fun _ c' => c'.state = c.state ∧ ∀ {S'}, c'.Knows I S' (.tmp t) v)
    ⟨(), c', hdoes.exec_eq, hleads, rfl, htmp⟩ ?_
  intro _ c' _ ⟨hstate, ht⟩
  exact hf c' hstate ht

/-- A slot of the guest state is written. -/
theorem put {slot : Slot} {q : Layout.Place} {f : Unit → Lift β}
    (hq : Layout.locate env.layout slot = .ok q) (he : c.Knows I S e v) (hS : S c.state)
    (hv : v.ty = q.ty)
    (hf : ∀ c' [Next I c c'], c'.state = c.state.write I.order q.offset v →
      Reaches env I c' (f ()) Q) :
    Reaches env I c (Lift.putSlot slot e >>= f) Q := by
  have hdoes : Lift.Does env I c.progress (Lift.putSlot slot e) _ _ _ :=
    Lift.putSlot_does c.level hq (hv ▸ he.check)
  have hvalue : e.eval I c.machine = v := he.eval c.machine (fun _ _ _ => rfl) hS
  let c' : Point M := ⟨_, { c.machine with state := c.state.write I.order q.offset v },
    hdoes.follows.level⟩
  have hleads : c.Leads I c' := by
    refine ⟨rfl, hdoes.follows, fun _ _ _ => rfl, rfl, ?_⟩
    obtain ⟨ss, hss, hrun⟩ := hdoes.code
    refine ⟨ss, hss, fun types => ?_⟩
    rw [hrun, hvalue]
    rfl
  exact .seq (R := fun _ c' => c'.state = c.state.write I.order q.offset v)
    ⟨(), c', hdoes.exec_eq, hleads, rfl⟩ fun _ c' _ hstate => hf c' hstate

/-- A step of a loop that carries a value is taken for each number in turn. -/
theorem foldlM {n : Nat} {g : β → Nat → Lift β} {b : β} {P : Nat → β → Point M → Prop}
    (hg : ∀ i < n, ∀ b c' [Before I c c'], P i b c' → Reaches env I c' (g b i) (P (i + 1)))
    (hb : P 0 b c) : Reaches env I c ((List.range n).foldlM g b) (P n) := by
  induction n with
  | zero => exact .pure hb
  | succ n ih =>
      rw [List.range_succ, List.foldlM_append]
      refine .seq (ih fun i hi => hg i (Nat.lt_succ_of_lt hi)) fun b c' _ hb => ?_
      simp only [List.foldlM_cons, List.foldlM_nil, bind_pure]
      exact hg n (Nat.lt_succ_self n) b c' hb

end Reaches

/-- What is reached is achieved. -/
theorem Lift.Achieves.of_reaches {c : Point M} {x : Lift Unit} {Q : Machine M → Prop}
    (h : Reaches env I c x fun _ c' => Q c'.machine) :
    Lift.Achieves env I c.progress x (· = c.machine) fun m m' => m'.memory = m.memory ∧ Q m' := by
  obtain ⟨a, c', hexec, hleads, hQ⟩ := h
  obtain ⟨ss, hss, hrun⟩ := hleads.code
  refine .of_leads (F := fun _ => c'.machine)
    ⟨hexec, hleads.next_eq, hleads.follows, ss, hss, ?_⟩ ?_
  · rintro types m rfl
    exact hrun types
  · rintro m rfl
    exact ⟨hleads.memory, hQ⟩

end PowerLift
