import PowerLift.Proofs.IntegerSteps
import PowerLift.Proofs.PreciseFaults
import PowerLift.Proofs.Routes

/-!
# Outcomes of instructions

Some instructions leave their block in the middle, write memory, or end at another address than the
next. Their lifting and the run of its code are followed together from point to point, up to what
the run amounts to. Whether the word is refused is told exactly.
-/

namespace PowerLift

open Layout (specialOffset)
open Lift (Does exec)

variable {M : Type} {I : Interp M} {env : Env} {w : Insn}

/-! ## Guards -/

namespace Lift

/-- Behind `p`, a guard refuses its word exactly where `bad` holds, and does nothing else. -/
def Refuses (env : Env) (p : Progress) (x : Lift Unit) (bad : Prop) : Prop :=
  (bad ∧ ∃ r, exec env p x = (.error (.refuse r), p)) ∨ (¬bad ∧ exec env p x = (.ok (), p))

variable {p : Progress}

theorem reservedZero_refuses (w : Insn) (field : Nat) (what : String) :
    Refuses env p (reservedZero w field what) (field ≠ 0) := by
  unfold reservedZero
  by_cases hfield : field ≠ 0
  · rw [if_pos hfield]
    exact .inl ⟨hfield, _, rfl⟩
  · rw [if_neg hfield]
    exact .inr ⟨hfield, rfl⟩

theorem reservedClear_refuses (w : Insn) (bit : Bool) (what : String) :
    Refuses env p (reservedClear w bit what) (bit = true) := by
  cases bit with
  | true => exact .inl ⟨rfl, _, rfl⟩
  | false => exact .inr ⟨Bool.false_ne_true, rfl⟩

theorem invalidIf_refuses (w : Insn) (bad : Bool) (what : String) :
    Refuses env p (invalidIf w bad what) (bad = true) := by
  cases bad with
  | true => exact .inl ⟨rfl, _, rfl⟩
  | false => exact .inr ⟨Bool.false_ne_true, rfl⟩

theorem needMode64_refuses (w : Insn) (what : String) :
    Refuses env p (needMode64 w what) (env.arch = .ppc32) := by
  have hread : exec env p (needMode64 w what) =
      exec env p (if !env.arch.is64 then unrecognized w what else pure ()) := rfl
  rw [Refuses, hread]
  cases env.arch with
  | ppc32 => exact .inl ⟨rfl, _, rfl⟩
  | ppc64 => exact .inr ⟨Arch.noConfusion, rfl⟩

theorem missing_refuses (w : Insn) (ext : Extension) : Refuses env p (missing w ext) True :=
  .inl ⟨trivial, _, rfl⟩

/-- A guard that is asked for only where `c` holds. -/
theorem Refuses.when {c bad : Prop} [Decidable c] {x : Lift Unit} (hx : c → Refuses env p x bad) :
    Refuses env p (if c then x else pure ()) (c ∧ bad) := by
  by_cases hc : c
  · rw [if_pos hc]
    obtain ⟨hbad, hexec⟩ | ⟨hbad, hexec⟩ := hx hc
    · exact .inl ⟨⟨hc, hbad⟩, hexec⟩
    · exact .inr ⟨fun h => hbad h.2, hexec⟩
  · rw [if_neg hc]
    exact .inr ⟨fun h => hc h.1, rfl⟩

end Lift

/-! ## Points in a run -/

namespace Point

variable {c c' c'' : Point M}

def memory (c : Point M) : M := c.machine.memory

/-- What may be read at `c` may be read at `c'`, with the value that it had. -/
structure Keeps (c c' : Point M) : Prop where
  next_eq : c'.progress.next = c.progress.next
  follows : c.stage.Follows c'.stage
  shared : c.Shared c'.machine

namespace Keeps

theorem refl (c : Point M) : Keeps c c := ⟨rfl, .refl c.level, fun _ _ _ => rfl⟩

theorem trans (h : Keeps c c') (h' : Keeps c' c'') : Keeps c c'' where
  next_eq := h'.next_eq.trans h.next_eq
  follows := h.follows.trans h'.follows
  shared t τ ht := (h'.shared t τ (h.follows.check _ _ ht)).trans (h.shared t τ ht)

end Keeps

/-- The point `c'` directly follows `c`. Memory and guest state may have changed. -/
class Step (c : outParam (Point M)) (c' : Point M) : Prop where
  keeps : Keeps c c'

/-- The point `c'` follows `c`. Memory and guest state may have changed. -/
class Since (c c' : Point M) : Prop where
  keeps : Keeps c c'

-- Tried first, or the search would go on to the points before `c`.
instance (priority := high) (c : Point M) : Since c c := ⟨.refl c⟩

instance [hstep : Step c' c''] [hsince : Since c c'] : Since c c'' :=
  ⟨hsince.keeps.trans hstep.keeps⟩

theorem Since.trans (c' : Point M) [h : Since c c'] [h' : Since c' c''] : Since c c'' :=
  ⟨h.keeps.trans h'.keeps⟩

theorem Since.next_eq [h : Since c c'] (hnext : c.progress.next = .continue) :
    c'.progress.next = .continue := h.keeps.next_eq.trans hnext

section

variable {S : GuestState → Prop} {e a b : Expr} {u v : Value} {op : Op}

theorem Knows.since [h : Since c c'] (he : c.Knows I S e v) : c'.Knows I S e v where
  check := h.keeps.follows.check _ _ he.check
  eval m hm hS := he.eval m (fun t τ ht =>
    (hm t τ (h.keeps.follows.check _ _ ht)).trans (h.keeps.shared t τ ht)) hS

/-- At `c`, the expression `e` is well typed and has the value `v`. -/
structure Has (I : Interp M) (c : Point M) (e : Expr) (v : Value) : Prop where
  check : c.stage.check e = .ok v.ty
  eval : e.eval I c.machine = v

theorem Knows.has (he : c.Knows I S e v) (hS : S c.state) : c.Has I e v :=
  ⟨he.check, he.eval c.machine (fun _ _ _ => rfl) hS⟩

/-- What is known in every state. -/
theorem Knows.always (he : c.Knows I (fun _ => True) e v) : c.Has I e v := he.has trivial

namespace Has

theorem un {z : BitVec op.signature.ret.bits} (ha : c.Has I a u)
    (hop : op.signature = .unary op.signature.ret u.ty) (hz : I.op op [u] = z) :
    c.Has I (.un op a) ⟨op.signature.ret, z⟩ where
  check := Stage.check_un hop ha.check
  eval := by simp only [Expr.un, Expr.eval, Expr.evalAll, ha.eval, hz]

theorem bin {z : BitVec op.signature.ret.bits} (ha : c.Has I a u) (hb : c.Has I b v)
    (hop : op.signature = .binary op.signature.ret u.ty v.ty) (hz : I.op op [u, v] = z) :
    c.Has I (.bin op a b) ⟨op.signature.ret, z⟩ where
  check := Stage.check_bin hop ha.check hb.check
  eval := by simp only [Expr.bin, Expr.eval, Expr.evalAll, ha.eval, hb.eval, hz]

theorem congr (he : c.Has I e u) (huv : u = v) : c.Has I e v := huv ▸ he

theorem check_word {arch : Arch} {x : BitVec arch.word.ty.bits}
    (he : c.Has I e ⟨arch.word.ty, x⟩) : c.stage.check e = .ok arch.wordTy :=
  he.check.trans (congrArg Except.ok (Arch.wordTy_eq arch).symm)

/-- What is read from memory in bytes. -/
theorem load {view : M → ByteMemory} (hview : I.Bytewise view) {arch : Arch}
    {x : BitVec arch.word.ty.bits} (ha : c.Has I a ⟨arch.word.ty, x⟩) (order : ByteOrder) {ty : Ty}
    (hty : ty ≠ .i1) :
    c.Has I (.load order ty a) ⟨ty, (view c.memory).read order (x.setWidth 64) ty⟩ where
  check := Stage.check_load ha.check_word order ty
  eval := by
    rw [Expr.eval, ha.eval]
    exact congrArg (Value.mk ty) (hview.load c.machine.memory order ty _ hty)

theorem typeOf (he : c.Has I e v) :
    exec env c.progress (Lift.typeOf e) = (.ok v.ty, c.progress) :=
  exec_typeOf he.check

end Has

end

end Point

/-! ## How instructions are left -/

/-- The state with another instruction address. -/
def GuestState.withAddress (arch : Arch) (order : ByteOrder) (σ : GuestState) (a : BitVec 64) :
    GuestState :=
  σ.write order (specialOffset arch .cia) ⟨arch.word.ty, a.setWidth _⟩

/-- An exit for an address that is taken. -/
def Env.exitTo (env : Env) (I : Interp M) (kind : JumpKind) (a : BitVec 64) (m : Machine M) :
    Left M :=
  ⟨env.cutAddress a, kind, m.memory, m.state.withAddress env.arch I.order a⟩

theorem Env.exitTo_congr (env : Env) {c c' : Point M} (hmemory : c'.memory = c.memory)
    (hstate : c'.state = c.state) (kind : JumpKind) (a : BitVec 64) :
    env.exitTo I kind a c'.machine = env.exitTo I kind a c.machine := by
  simp only [exitTo, show c'.machine.memory = c.machine.memory from hmemory,
    show c'.machine.state = c.machine.state from hstate]

/-- How an instruction is left whose code has run: by the exit that was taken, or else towards what
is to be decoded next. -/
def Env.leave (env : Env) (I : Interp M) (next : Continuation) : Flow M → Left M
  | .left out => out
  | .behind m =>
      match next with
      | .continue => ⟨env.nia, .boring, m.memory, m.state⟩
      | .resteer target => ⟨target, .boring, m.memory, m.state⟩
      | .stop kind =>
          let pc := m.state.read I.order (specialOffset env.layout .cia) env.arch.wordTy
          ⟨pc.setWidth 64, kind, m.memory, m.state⟩

theorem Env.address_value (env : Env) (a : BitVec 64) :
    (env.address a).value = ⟨env.arch.word.ty, a.setWidth _⟩ := by
  cases env with
  | mk arch =>
      cases arch with
      | ppc32 => rfl
      | ppc64 => exact congrArg (Value.mk .i64) (BitVec.setWidth_eq a).symm

theorem Env.setWidth_cut (env : Env) (a : BitVec 64) :
    (a.setWidth env.arch.word.ty.bits).setWidth 64 = env.cutAddress a := by
  rw [← env.address_value_address a, env.address_value]
  rfl

/-- Where the instruction address was written last, it tells how the instruction is left. -/
theorem Env.leave_stop (hlayout : env.layout = env.arch) (kind : JumpKind) (a : BitVec 64)
    (m : Machine M) :
    env.leave I (.stop kind)
      (.behind { m with state := m.state.withAddress env.arch I.order a }) =
        env.exitTo I kind a m := by
  have hty : env.arch.word.ty = env.arch.wordTy := (Arch.wordTy_eq env.arch).symm
  have hread : ((m.state.withAddress env.arch I.order a).read I.order
      (specialOffset env.arch .cia) env.arch.wordTy).setWidth 64 = env.cutAddress a := by
    rw [GuestState.withAddress, GuestState.read_write_address hty env.arch.wordTy_ne_i1]
    exact env.setWidth_cut a
  simp only [leave, exitTo, hlayout, hread]

/-! ## Steps between points -/

/-- The lifting `x` gives `a` and goes from `c` to the point `c'` behind its code. -/
structure Point.Goes {α : Type} (env : Env) (I : Interp M) (c : Point M) (x : Lift α) (a : α)
    (c' : Point M) : Prop where
  exec_eq : exec env c.progress x = (.ok a, c'.progress)
  code : ∃ ss, c'.stage.stmts.toList = c.stage.stmts.toList ++ ss ∧
    ∀ types, runAll I types ss c.machine = .behind c'.machine

namespace Point.Goes

variable {α : Type} {c : Point M} {x : Lift α} {a : α} {e : Expr} {v : Value}

/-- A step that is known by what it does to machines. -/
theorem does {p : Progress} {F : Machine M → Machine M} (hx : Does env I c.progress x a p F)
    (hshared : c.Shared (F c.machine)) :
    ∃ c', ∃ _ : Step c c', Goes env I c x a c' ∧ c'.machine = F c.machine ∧ c'.progress = p := by
  obtain ⟨ss, hss, hrun⟩ := hx.code
  exact ⟨⟨p, F c.machine, hx.follows.level⟩, ⟨hx.next_eq, hx.follows, hshared⟩,
    ⟨hx.exec_eq, ss, hss, fun types => hrun types _⟩, rfl, rfl⟩

theorem listed (c : Point M) (line : String) : ∃ c', ∃ _ : Step c c',
    Goes env I c (Lift.listed line) () c' ∧ c'.machine = c.machine := by
  obtain ⟨c', hstep, hgoes, hmachine, -⟩ :=
    does (c := c) (Lift.listed_does c.level line) fun _ _ _ => rfl
  exact ⟨c', hstep, hgoes, hmachine⟩

/-- A fresh temporary holds a value. -/
theorem bind (he : c.Has I e v) : ∃ t c', ∃ _ : Step c c', Goes env I c (Lift.bind e) t c' ∧
    c'.state = c.state ∧ c'.memory = c.memory ∧ ∀ {S}, c'.Knows I S t v := by
  have hdoes : Does env I c.progress (Lift.bind e) _ _ _ := Lift.bind_does c.level he.check
  obtain ⟨c', hstep, hgoes, hmachine, hprogress⟩ := does hdoes fun t τ ht =>
    if_neg (Nat.ne_of_lt (Stage.lt_fresh_of_check ht))
  rw [he.eval] at hmachine
  have hcheck : c'.stage.check (.tmp c.stage.fresh) = .ok v.ty := by
    rw [stage, hprogress]
    exact Stage.check_fresh c.level e v.ty
  refine ⟨_, c', hstep, hgoes, ?_, ?_, .tmp hcheck ?_ rfl⟩
  · rw [state, hmachine]
    rfl
  · rw [memory, hmachine]
    rfl
  · rw [hmachine]
    exact if_pos rfl

/-- A place of the guest state is written. -/
theorem putAt {x : Lift Unit} {q : Layout.Place}
    (hx : exec env c.progress x = exec env c.progress (Lift.putPlace (.ok q) e)) (he : c.Has I e v)
    (hv : v.ty = q.ty) : ∃ c', ∃ _ : Step c c', Goes env I c x () c' ∧
      c'.state = c.state.write I.order q.offset v ∧ c'.memory = c.memory := by
  have hdoes : Does env I c.progress x _ _ _ := Lift.putPlace_does c.level hx (hv ▸ he.check)
  obtain ⟨c', hstep, hgoes, hmachine, -⟩ := does hdoes fun _ _ _ => rfl
  rw [he.eval] at hmachine
  refine ⟨c', hstep, hgoes, ?_, ?_⟩
  · rw [state, hmachine]
    rfl
  · rw [memory, hmachine]
    rfl

/-- Memory is written. -/
theorem store {addr : Expr} {x : BitVec env.arch.word.ty.bits}
    (ha : c.Has I addr ⟨env.arch.word.ty, x⟩) (he : c.Has I e v) (hv : v.ty ≠ .i1) :
    ∃ c', ∃ _ : Step c c', Goes env I c (Lift.store addr e) () c' ∧ c'.state = c.state ∧
      c'.memory = I.store c.memory env.host ⟨env.arch.word.ty, x⟩ v := by
  have hdoes : Does env I c.progress (Lift.store addr e) _ _ _ :=
    store_does c.level ha.check_word he.check hv
  obtain ⟨c', hstep, hgoes, hmachine, -⟩ := does hdoes fun _ _ _ => rfl
  rw [ha.eval, he.eval] at hmachine
  refine ⟨c', hstep, hgoes, ?_, ?_⟩
  · rw [state, hmachine]
    rfl
  · rw [memory, hmachine]
    rfl

end Point.Goes

/-! ## Rules -/

/-- From `c`, the lifting `x` refuses its word where `refused` holds. Elsewhere it ends, and `Q`
holds of what is to be decoded next and of what running the code amounts to. -/
inductive Comes (env : Env) (I : Interp M) (c : Point M) (x : Lift Unit) (refused : Prop)
    (Q : Continuation → Flow M → Prop) : Prop where
  | refuses (h : refused) {r : Refusal} {p : Progress}
      (hexec : exec env c.progress x = (.error (.refuse r), p))
  | ends (h : ¬refused) {p : Progress} (ss : List Stmt) (flow : Flow M)
      (hexec : exec env c.progress x = (.ok (), p)) (hnext : p.next ≠ .stop .noDecode)
      (hcode : p.stage.stmts.toList = c.stage.stmts.toList ++ ss)
      (hrun : ∀ types, runAll I types ss c.machine = flow) (hQ : Q p.next flow)

namespace Comes

open Point

variable {α : Type} {c c' : Point M} {x : Lift α} {f : α → Lift Unit} {a : α} {e : Expr} {v : Value}
  {φ φ' bad : Prop} {Q Q' : Continuation → Flow M → Prop}

theorem mono {x : Lift Unit} (h : Comes env I c x φ Q) (hφ : φ ↔ φ')
    (hQ : ∀ next flow, Q next flow → Q' next flow) : Comes env I c x φ' Q' := by
  cases h with
  | refuses h hexec => exact .refuses (hφ.mp h) hexec
  | ends h ss flow hexec hnext hcode hrun hc =>
      exact .ends (mt hφ.mpr h) ss flow hexec hnext hcode hrun (hQ _ _ hc)

theorem congr {x : Lift Unit} (h : Comes env I c x φ Q) (hφ : φ ↔ φ') : Comes env I c x φ' Q :=
  h.mono hφ fun _ _ h => h

/-- A lifting that only looks. -/
theorem give (hx : exec env c.progress x = (.ok a, c.progress)) (hf : Comes env I c (f a) φ Q) :
    Comes env I c (x >>= f) φ Q := by
  have hexec : exec env c.progress (x >>= f) = exec env c.progress (f a) := by
    rw [Lift.exec_bind, hx]
  cases hf with
  | refuses h hrefused => exact .refuses h (hexec.trans hrefused)
  | ends h ss flow hended hnext hcode hrun hQ =>
      exact .ends h ss flow (hexec.trans hended) hnext hcode hrun hQ

theorem guard {x : Lift Unit} {f : Unit → Lift Unit} (hx : Lift.Refuses env c.progress x bad)
    (hf : ¬bad → Comes env I c (f ()) φ Q) : Comes env I c (x >>= f) (bad ∨ φ) Q := by
  obtain ⟨hbad, r, hrefused⟩ | ⟨hgood, hpassed⟩ := hx
  · refine .refuses (.inl hbad) (r := r) (p := c.progress) ?_
    rw [Lift.exec_bind, hrefused]
  · exact (give hpassed (hf hgood)).congr ⟨.inr, fun h => h.resolve_left hgood⟩

/-- A guard that is asked for only where `p` holds. -/
theorem guardWhen {p : Prop} [Decidable p] {x : Lift Unit} {f : Unit → Lift Unit}
    (hx : p → Lift.Refuses env c.progress x bad) (hf : ¬(p ∧ bad) → Comes env I c (f ()) φ Q) :
    Comes env I c (if p then x >>= f else f ()) ((p ∧ bad) ∨ φ) Q := by
  by_cases hp : p
  · rw [if_pos hp]
    exact (guard (hx hp) fun hbad => hf fun h => hbad h.2).congr (by simp [hp])
  · rw [if_neg hp]
    exact (hf fun h => hp h.1).congr (by simp [hp])

/-- What is reached without a refusal. -/
theorem of_reaches {x : Lift Unit} (hnext : c.progress.next = .continue)
    (h : Reaches env I c x fun _ c' => c'.memory = c.memory → Q .continue (.behind c'.machine)) :
    Comes env I c x False Q := by
  obtain ⟨_, c', hexec, hleads, hQ⟩ := h
  obtain ⟨ss, hss, hrun⟩ := hleads.code
  have hnext' : c'.progress.next = .continue := hleads.next_eq.trans hnext
  refine .ends id ss _ hexec ?_ hss hrun ?_
  · rw [hnext']
    exact Continuation.noConfusion
  · rw [hnext']
    exact hQ hleads.memory

/-- A step between two points comes first. -/
theorem goes (hx : Goes env I c x a c') (hf : Comes env I c' (f a) φ Q) :
    Comes env I c (x >>= f) φ Q := by
  obtain ⟨ss, hcode, hrun⟩ := hx.code
  have hexec : exec env c.progress (x >>= f) = exec env c'.progress (f a) := by
    rw [Lift.exec_bind, hx.exec_eq]
  cases hf with
  | refuses h hrefused => exact .refuses h (hexec.trans hrefused)
  | ends h ss' flow hended hnext hcode' hrun' hQ =>
      refine .ends h (ss ++ ss') flow (hexec.trans hended) hnext ?_ (fun types => ?_) hQ
      · rw [hcode', hcode, List.append_assoc]
      · rw [runAll_append, hrun types]
        exact hrun' types

theorem listed {line : String} {f : Unit → Lift Unit}
    (hf : ∀ c' [Step c c'], c'.machine = c.machine → Comes env I c' (f ()) φ Q) :
    Comes env I c (Lift.listed line >>= f) φ Q := by
  obtain ⟨c', _, hgoes, hmachine⟩ := Goes.listed c line
  exact .goes hgoes (hf c' hmachine)

/-- A line of disassembly changes neither state nor memory. -/
theorem noted {line : String} {f : Unit → Lift Unit}
    (hf : ∀ c' [Step c c'], c'.state = c.state → c'.memory = c.memory →
      Comes env I c' (f ()) φ Q) :
    Comes env I c (Lift.listed line >>= f) φ Q :=
  .listed fun c' _ hmachine =>
    hf c' (congrArg Machine.state hmachine) (congrArg Machine.memory hmachine)

theorem bind {f : Expr → Lift Unit} (he : c.Has I e v)
    (hf : ∀ t c' [Step c c'], c'.state = c.state → c'.memory = c.memory →
      (∀ {S}, c'.Knows I S t v) → Comes env I c' (f t) φ Q) :
    Comes env I c (Lift.bind e >>= f) φ Q := by
  obtain ⟨t, c', _, hgoes, hstate, hmemory, ht⟩ := Goes.bind he
  exact .goes hgoes (hf t c' hstate hmemory ht)

theorem putAt {x : Lift Unit} {q : Layout.Place} {f : Unit → Lift Unit}
    (hx : exec env c.progress x = exec env c.progress (Lift.putPlace (.ok q) e)) (he : c.Has I e v)
    (hv : v.ty = q.ty)
    (hf : ∀ c' [Step c c'], c'.state = c.state.write I.order q.offset v → c'.memory = c.memory →
      Comes env I c' (f ()) φ Q) : Comes env I c (x >>= f) φ Q := by
  obtain ⟨c', _, hgoes, hstate, hmemory⟩ := Goes.putAt hx he hv
  exact .goes hgoes (hf c' hstate hmemory)

/-- A slot of the guest state is written. -/
theorem put {slot : Slot} {q : Layout.Place} {f : Unit → Lift Unit}
    (hq : Layout.locate env.layout slot = .ok q) (he : c.Has I e v) (hv : v.ty = q.ty)
    (hf : ∀ c' [Step c c'], c'.state = c.state.write I.order q.offset v → c'.memory = c.memory →
      Comes env I c' (f ()) φ Q) :
    Comes env I c (Lift.putSlot slot e >>= f) φ Q :=
  .putAt (Lift.exec_putSlot_eq hq) he hv hf

theorem putGpr (hlayout : env.layout = env.arch) {i : Nat} (hi : i < 32)
    {x : BitVec env.arch.word.ty.bits} (he : c.Has I e ⟨env.arch.word.ty, x⟩)
    {f : Unit → Lift Unit}
    (hf : ∀ c' [Step c c'], c'.state = c.state.withOperand env.arch I.order i x →
      c'.memory = c.memory → Comes env I c' (f ()) φ Q) :
    Comes env I c (Lift.putGpr i e >>= f) φ Q := by
  have hty : env.arch.word.ty = env.layout.wordTy := by
    rw [hlayout, Arch.wordTy_eq]
    rfl
  refine .put (Layout.gpr_eq env.layout hi) he hty fun c' _ hstate hmemory => hf c' ?_ hmemory
  rw [hstate, hlayout]
  rfl

theorem store {addr : Expr} {x : BitVec env.arch.word.ty.bits} {f : Unit → Lift Unit}
    (ha : c.Has I addr ⟨env.arch.word.ty, x⟩) (he : c.Has I e v) (hv : v.ty ≠ .i1)
    (hf : ∀ c' [Step c c'], c'.state = c.state →
      c'.memory = I.store c.memory env.host ⟨env.arch.word.ty, x⟩ v → Comes env I c' (f ()) φ Q) :
    Comes env I c (Lift.store addr e >>= f) φ Q := by
  obtain ⟨c', _, hgoes, hstate, hmemory⟩ := Goes.store ha he hv
  exact .goes hgoes (hf c' hstate hmemory)

/-- An exit. Where it is not taken, the rest decides; what the rest stages is there anyway. -/
theorem exit (hlayout : env.layout = env.arch) {guard : Expr} {b : Bool}
    (hb : c.Has I guard ⟨.i1, .ofBool b⟩) {kind : JumpKind} {target : BitVec 64}
    {f : Unit → Lift Unit}
    (hf : ∀ c' [Step c c'], c'.machine = c.machine → Comes env I c' (f ()) φ fun next flow =>
      Q next (if b then .left (env.exitTo I kind target c.machine) else flow)) :
    Comes env I c (Lift.exit guard kind target >>= f) φ Q := by
  let stmt : Stmt := .exit guard kind (env.address target) (specialOffset env.arch .cia)
  let c' : Point M := ⟨{ c.progress with stage := c.stage.push stmt }, c.machine, c.level⟩
  have haddress : (env.address target).isAddress = true := by
    unfold Env.address
    split <;> rfl
  have hexec : Lift.exec env c.progress (Lift.exit guard kind target) = (.ok (), c'.progress) := by
    have hexit : c.progress.stage.exit guard kind (env.address target)
        (specialOffset env.arch .cia) = .ok (c.stage.push stmt) := by
      have hguard : c.progress.stage.check guard = .ok .i1 := hb.check
      simp only [Stage.exit, hguard, haddress, ok_bind]
      rfl
    have hoffset : Layout.offset env.layout SpecialSlot.cia =
        .ok (specialOffset env.arch .cia) := by rw [hlayout]; rfl
    change Lift.exec env c.progress (Lift.ofExcept (Layout.offset env.layout SpecialSlot.cia) >>=
      fun ip => Lift.onStage (·.exit guard kind (env.address (env.cutAddress target)) ip)) = _
    rw [hoffset, env.address_cutAddress]
    change Lift.exec env c.progress (Lift.onStage fun s =>
      s.exit guard kind (env.address target) (specialOffset env.arch .cia)) = _
    exact Lift.exec_onStage hexit
  have : Step c c' := ⟨rfl, ⟨c.level, Nat.le_refl _, fun _ _ h => h⟩, fun _ _ _ => rfl⟩
  have hrest := hf c' rfl
  have hbind : Lift.exec env c.progress (Lift.exit guard kind target >>= f) =
      Lift.exec env c'.progress (f ()) := by rw [Lift.exec_bind, hexec]
  cases hrest with
  | refuses h hrefused => exact .refuses h (hbind.trans hrefused)
  | ends h ss flow hended hnext hcode hrun hQ =>
      refine .ends h (stmt :: ss) _ (hbind.trans hended) hnext ?_ (fun types => ?_) hQ
      · rw [hcode, stage, Stage.push_stmts, List.append_assoc]
        rfl
      · have htrue : (guard.eval I c.machine).isTrue = b := by
          rw [hb.eval]
          cases b <;> rfl
        rw [runAll, Stmt.run, htrue]
        cases b with
        | true =>
            simp only [if_true, Flow.andThen, env.address_value_address]
            rw [env.address_value]
            rfl
        | false => exact hrun types

/-- A step is repeated. Before each repetition `P` holds, and what is left to show is `W`. -/
theorem repeated {n : Nat} {g : Nat → Lift Unit} {f : Unit → Lift Unit} {P : Nat → Point M → Prop}
    {W : Nat → Continuation → Flow M → Prop}
    (hg : ∀ i < n, ∀ c' [Since c c'] (f' : Unit → Lift Unit), P i c' →
      (∀ c'' [Since c c''], P (i + 1) c'' → Comes env I c'' (f' ()) φ (W (i + 1))) →
      Comes env I c' (g i >>= f') φ (W i))
    (hf : ∀ c' [Since c c'], P n c' → Comes env I c' (f ()) φ (W n)) (hP : P 0 c) :
    Comes env I c ((List.range n).forM g >>= f) φ (W 0) := by
  -- The repetitions that are left are those from `i` on.
  have hrest : ∀ m i, i + m = n → ∀ c' [Since c c'], P i c' →
      Comes env I c' ((List.range' i m).forM g >>= f) φ (W i) := by
    intro m
    induction m with
    | zero =>
        intro i hi c' _ hc'
        obtain rfl : i = n := hi
        exact hf c' hc'
    | succ m ih =>
        intro i hi c' _ hc'
        have hunfold : (List.range' i (m + 1)).forM g >>= f =
            g i >>= fun _ => (List.range' (i + 1) m).forM g >>= f := by
          rw [List.range'_succ, ← bind_assoc]
          rfl
        rw [hunfold]
        exact hg i (by omega) c' _ hc' fun c'' _ hc'' => ih (i + 1) (by omega) c'' hc''
  rw [List.range_eq_range']
  exact hrest n 0 (Nat.zero_add n) c hP

/-- The end of code behind which the next instruction is decoded. -/
theorem done (hnext : c.progress.next = .continue) (hQ : Q .continue (.behind c.machine)) :
    Comes env I c (pure ()) False Q := by
  refine .ends id [] _ (p := c.progress) rfl ?_ (List.append_nil _).symm (fun _ => rfl) ?_
  · rw [hnext]
    exact Continuation.noConfusion
  · rwa [hnext]

/-- The last step of a lifting. -/
theorem last {x : Lift Unit} (h : Comes env I c (x >>= Pure.pure) φ Q) : Comes env I c x φ Q := by
  rwa [bind_pure] at h

/-- The end of code that says where control goes. -/
theorem jumpTo (hlayout : env.layout = env.arch) {a : BitVec 64} {kind : JumpKind}
    (hkind : kind ≠ .noDecode) (he : c.Has I e ⟨env.arch.word.ty, a.setWidth _⟩)
    (hQ : Q (.stop kind)
      (.behind { c.machine with state := c.state.withAddress env.arch I.order a })) :
    Comes env I c (Lift.jumpTo e kind) False Q := by
  have hcheck : c.progress.stage.check e = .ok env.layout.wordTy := by
    rw [hlayout]
    exact he.check_word
  refine .ends id [.put (specialOffset env.layout .cia) e] _ (Lift.exec_jumpTo hcheck) ?_
    (Stage.push_stmts _) (fun _ => rfl) ?_
  · exact fun h => hkind (Continuation.stop.inj h)
  · rw [he.eval, hlayout]
    exact hQ

/-- The end of code that ends the block at the next instruction. -/
theorem stopAtNext (hlayout : env.layout = env.arch)
    (hQ : Q (.stop .boring)
      (.behind { c.machine with state := c.state.withAddress env.arch I.order env.nia })) :
    Comes env I c (Lift.stopAtNext .boring) False Q := by
  have hnia : c.Has I (env.imm env.nia) ⟨env.arch.word.ty, env.nia.setWidth _⟩ :=
    (Point.knows_imm env.nia).always
  unfold Lift.stopAtNext
  exact .give rfl (.give rfl (.jumpTo hlayout JumpKind.noConfusion hnia hQ))

end Comes

/-! ## Whole instructions -/

/-- Wherever the word `w` stands, lifting it answers: it refuses the word exactly where `refused`
holds, and otherwise it takes four bytes. From whatever machine the accepted code runs, `P` relates
the address of the instruction, what is to be decoded next, the machine, and how the instruction is
left. -/
def Guest.Performs (g : Guest) (w : Insn) (I : Interp M) (refused : Prop)
    (P : BitVec 64 → Continuation → Machine M → Left M → Prop) : Prop :=
  ∀ code offset cia blockStart block (m : Machine M), g.check = .ok () →
    Insn.fetch? code offset g.info.order = some w →
    ∃ l ss, (g.lift code offset cia blockStart block).result = .ok l ∧
      (g.lift code offset cia blockStart block).block.stmts.toList = block.stmts.toList ++ ss ∧
      (l.isRefused = true ↔ refused) ∧
      (¬refused → l = ⟨4, l.next, none⟩ ∧ ∀ types,
        P cia l.next m ((g.env cia blockStart).leave I l.next (runAll I types ss m)))

/-- A route with a closed gate. -/
def Route.Closed (r : Route) (g : Guest) : Prop :=
  (r.closedGate? g.arch (.resolve g.arch g.info.caps)).isSome = true

theorem Route.closed_iff (r : Route) (g : Guest) :
    r.Closed g ↔ ∃ gate ∈ r.gates, gate.isOpen g.arch (.resolve g.arch g.info.caps) = false := by
  simp [Closed, closedGate?]

/-- A guest lacks what one of the gates asks for. -/
def Guest.Lacks (g : Guest) (gates : List Gate) : Prop :=
  ∃ gate ∈ gates, gate.isOpen g.arch (.resolve g.arch g.info.caps) = false

theorem Route.not_closed {pattern : Pattern} {family : Family} (g : Guest) :
    ¬Route.Closed ⟨pattern, [], family⟩ g := Bool.false_ne_true

theorem Gate.mode64_closed {arch : Arch} {f : Features} :
    mode64.isOpen arch f = false ↔ arch = .ppc32 := by
  cases arch <;> simp [isOpen, Arch.is64]

theorem Route.closed_mode64 {pattern : Pattern} {family : Family} (g : Guest) :
    Route.Closed ⟨pattern, [.mode64], family⟩ g ↔ g.arch = .ppc32 := by
  rw [closed_iff]
  simp [Gate.mode64_closed]

theorem Comes.instruction {c : Point M} {route : Route} (hroute : Route.find? w = some route)
    {φ : Prop} {Q : Continuation → Flow M → Prop}
    (hx : Comes env I c (route.family.lift w) φ Q) :
    Comes env I c (Lift.instruction w)
      ((route.closedGate? env.arch env.features).isSome = true ∨ φ) Q := by
  have hread : exec env c.progress (read : Lift Env) = (.ok env, c.progress) := rfl
  cases hgate : route.closedGate? env.arch env.features with
  | some gate =>
      have hexec : exec env c.progress (Lift.instruction w) =
          exec env c.progress (Lift.missing w gate.extension) := by
        simp only [Lift.instruction, hroute, Lift.exec_bind, hread, hgate]
      exact .refuses (.inl rfl) hexec
  | none =>
      have hexec : exec env c.progress (Lift.instruction w) =
          exec env c.progress (route.family.lift w) := by
        simp only [Lift.instruction, hroute, Lift.exec_bind, hread, hgate]
      cases hx with
      | refuses h hrefused => exact .refuses (.inr h) (hexec.trans hrefused)
      | ends h ss flow hended hnext hcode hrun hQ =>
          exact .ends (by simpa using h) ss flow (hexec.trans hended) hnext hcode hrun hQ

/-- A word performs what its lifting comes to, wherever it stands. -/
theorem Guest.performs {g : Guest} {route : Route} (hroute : Route.find? w = some route)
    (hopcode : w.opcode ≠ 21 ∧ w.opcode ≠ 30) (φ : Prop) {refused : Prop}
    (hrefused : route.Closed g ∨ φ ↔ refused)
    {P : BitVec 64 → Continuation → Machine M → Left M → Prop}
    (hlift : ∀ (env : Env) (c : Point M), env.layout = env.arch →
      (∃ cia blockStart, env = g.env cia blockStart) → c.progress.next = .continue →
      Comes env I c (route.family.lift w) φ fun next flow =>
        P env.cia next c.machine (env.leave I next flow)) :
    g.Performs w I refused P := by
  intro code offset cia blockStart block m hcheck hfetch
  have hscan := scan_absent hfetch hopcode
  let env := g.env cia blockStart
  let marked : Progress := { stage := (Stage.start block).mark cia 4 0 }
  have hattempt : g.attempt code offset cia blockStart block w =
      exec env marked (Lift.instruction w >>= fun _ => pure (4, none)) := by
    rw [attempt, hscan]
    rfl
  rw [Lift.exec_bind] at hattempt
  have hlayout : env.layout = env.arch := (supported_of_check hcheck).layout_eq
  have hcomes := (Comes.instruction hroute
    (hlift env ⟨marked, m, rfl⟩ hlayout ⟨cia, blockStart, rfl⟩ rfl)).congr hrefused
  cases hcomes with
  | refuses h hexec =>
      rw [hexec] at hattempt
      obtain ⟨hresult, hblock⟩ := lift_of_refusal hcheck hfetch hattempt
      refine ⟨_, [.put (specialOffset env.arch .cia) (env.imm cia)], hresult, ?_, ?_, ?_⟩
      · rw [hblock, Block.stopped, Array.toList_push]
        rfl
      · exact ⟨fun _ => h, fun _ => rfl⟩
      · exact fun hnot => absurd h hnot
  | @ends h p ss flow hexec hnext hcode hrun hP =>
      rw [hexec] at hattempt
      obtain ⟨hresult, hblock⟩ :=
        lift_of_success hcheck hfetch hattempt (attempt_outer hcheck hscan hattempt)
      refine ⟨_, .mark cia 4 0 :: ss, hresult, ?_, ?_, ?_⟩
      · rw [hblock, Block.extended, Array.toList_append, hcode]
        rfl
      · have haccepted : (⟨4, p.next, none⟩ : Lifted).isRefused = false := by
          simpa [Lifted.isRefused] using hnext
        rw [haccepted]
        exact ⟨fun h => absurd h Bool.false_ne_true, fun hrefused => absurd hrefused h⟩
      · refine fun _ => ⟨rfl, fun types => ?_⟩
        have hflow : runAll I types (.mark cia 4 0 :: ss) m = flow := hrun types
        rw [hflow]
        exact hP

theorem Guest.Performs.mono {g : Guest} {refused : Prop}
    {P P' : BitVec 64 → Continuation → Machine M → Left M → Prop} (h : g.Performs w I refused P)
    (hP : ∀ cia next m out, P cia next m out → P' cia next m out) : g.Performs w I refused P' := by
  intro code offset cia blockStart block m hcheck hfetch
  obtain ⟨l, ss, hresult, hstmts, hrefused, hleft⟩ :=
    h code offset cia blockStart block m hcheck hfetch
  exact ⟨l, ss, hresult, hstmts, hrefused, fun hnot =>
    ⟨(hleft hnot).1, fun types => hP _ _ _ _ ((hleft hnot).2 types)⟩⟩

/-- A word that stands alone performs so. -/
theorem Guest.Performs.exists_run {g : Guest} {refused : Prop}
    {P : BitVec 64 → Continuation → Machine M → Left M → Prop} (h : g.Performs w I refused P)
    (hcheck : g.check = .ok ()) (code : ByteArray)
    (hfetch : Insn.fetch? code 0 g.info.order = some w) (haccepted : ¬refused) (cia : BitVec 64)
    (m : Machine M) :
    ∃ next ss, (g.lift code 0 cia cia (.empty 0)).result = .ok ⟨4, next, none⟩ ∧
      (g.lift code 0 cia cia (.empty 0)).block.stmts.toList = ss ∧
      P cia next m ((g.env cia cia).leave I next (runAll I #[] ss m)) := by
  obtain ⟨l, ss, hresult, hstmts, -, hleft⟩ := h code 0 cia cia (.empty 0) m hcheck hfetch
  obtain ⟨hl, hP⟩ := hleft haccepted
  exact ⟨l.next, ss, hl ▸ hresult, hstmts, hP #[]⟩

/-- A word that a guest accepts where it stands, and how its code, run from a machine, is left. -/
def Guest.Leaves (g : Guest) (I : Interp M) (w : Insn) (m : Machine M) (out : Left M) : Prop :=
  ∃ code offset cia blockStart block l ss,
    Insn.fetch? code offset g.info.order = some w ∧
      (g.lift code offset cia blockStart block).result = .ok l ∧ l.isRefused = false ∧
      (g.lift code offset cia blockStart block).block.stmts.toList = block.stmts.toList ++ ss ∧
      ∃ types, out = (g.env cia blockStart).leave I l.next (runAll I types ss m)

theorem Guest.Performs.leaves {g : Guest} {refused : Prop} {m : Machine M} {out : Left M}
    {P : BitVec 64 → Continuation → Machine M → Left M → Prop} (h : g.Performs w I refused P)
    (hleaves : g.Leaves I w m out) : ¬refused ∧ ∃ cia next, P cia next m out := by
  obtain ⟨code, offset, cia, blockStart, block, l, ss, hfetch, hresult, haccepted, hstmts, types,
    rfl⟩ := hleaves
  obtain ⟨l', ss', hresult', hstmts', hrefused, hleft⟩ :=
    h code offset cia blockStart block m (check_of_lift hresult) hfetch
  obtain rfl : l = l' := Except.ok.inj (hresult.symm.trans hresult')
  obtain rfl : ss = ss' := List.append_cancel_left (hstmts.symm.trans hstmts')
  have hnot : ¬refused := fun h => Bool.false_ne_true (haccepted.symm.trans (hrefused.mpr h))
  exact ⟨hnot, cia, l.next, (hleft hnot).2 types⟩

/-- A word that is not refused is accepted where it stands alone. -/
theorem Guest.Performs.exists_leaves {g : Guest} {refused : Prop}
    {P : BitVec 64 → Continuation → Machine M → Left M → Prop} (h : g.Performs w I refused P)
    (hcheck : g.check = .ok ()) (code : ByteArray)
    (hfetch : Insn.fetch? code 0 g.info.order = some w) (haccepted : ¬refused) (m : Machine M) :
    ∃ out, g.Leaves I w m out := by
  obtain ⟨l, ss, hresult, hstmts, hrefused, -⟩ := h code 0 0 0 (.empty 0) m hcheck hfetch
  have hok : l.isRefused = false := Bool.eq_false_iff.mpr (mt hrefused.mp haccepted)
  exact ⟨_, code, 0, 0, 0, .empty 0, l, ss, hfetch, hresult, hok, hstmts, #[], rfl⟩

/-! ## Runs of instructions -/

/-- Words that a guest decodes and runs one after another, wherever each of them stands. None is
refused. Memory may change in between. -/
inductive Guest.Runs (g : Guest) (I : Interp M) : List Insn → GuestState → GuestState → Prop where
  | nil (σ : GuestState) : g.Runs I [] σ σ
  | cons {w : Insn} {ws : List Insn} {code : ByteArray} {offset : Nat} {cia blockStart : BitVec 64}
      {block : Block} {l : Lifted} {ss : List Stmt} (types : Array Ty) (temps : Nat → Value)
      (memory : M) {σ σ' : GuestState}
      (hfetch : Insn.fetch? code offset g.info.order = some w)
      (hresult : (g.lift code offset cia blockStart block).result = .ok l)
      (haccepted : l.isRefused = false)
      (hstmts : (g.lift code offset cia blockStart block).block.stmts.toList =
        block.stmts.toList ++ ss)
      (hrest : g.Runs I ws ((g.env cia blockStart).leave I l.next
        (runAll I types ss ⟨temps, memory, σ⟩)).state σ') : g.Runs I (w :: ws) σ σ'

/-- The first word of a run is accepted, and does what it performs. -/
theorem Guest.Runs.step {g : Guest} {w : Insn} {ws : List Insn} {σ σ' : GuestState}
    {refused : Prop} {P : BitVec 64 → Continuation → Machine M → Left M → Prop}
    (h : g.Runs I (w :: ws) σ σ') (hperforms : g.Performs w I refused P) :
    ¬refused ∧ ∃ cia next temps memory out, P cia next ⟨temps, memory, σ⟩ out ∧
      g.Runs I ws out.state σ' := by
  cases h with
  | @cons w ws code offset cia blockStart block l ss types temps memory σ σ' hfetch hresult
      haccepted hstmts hrest =>
      obtain ⟨l', ss', hresult', hstmts', hrefused, hleft⟩ :=
        hperforms code offset cia blockStart block ⟨temps, memory, σ⟩ (check_of_lift hresult) hfetch
      obtain rfl : l = l' := Except.ok.inj (hresult.symm.trans hresult')
      obtain rfl : ss = ss' := List.append_cancel_left (hstmts.symm.trans hstmts')
      have hnot : ¬refused := fun h => Bool.false_ne_true (haccepted.symm.trans (hrefused.mpr h))
      exact ⟨hnot, cia, l.next, temps, memory, _, (hleft hnot).2 types, hrest⟩

/-- A word that is accepted where it stands alone can be the first of a run. -/
theorem Guest.Performs.runs {g : Guest} {refused : Prop}
    {P : BitVec 64 → Continuation → Machine M → Left M → Prop} (h : g.Performs w I refused P)
    (hcheck : g.check = .ok ()) (code : ByteArray)
    (hfetch : Insn.fetch? code 0 g.info.order = some w) (haccepted : ¬refused) (memory : M)
    (σ : GuestState) :
    ∃ cia next temps out, P cia next ⟨temps, memory, σ⟩ out ∧
      ∀ {ws : List Insn} {σ' : GuestState}, g.Runs I ws out.state σ' →
        g.Runs I (w :: ws) σ σ' := by
  obtain ⟨l, ss, hresult, hstmts, hrefused, hleft⟩ :=
    h code 0 0 0 (.empty 0) ⟨fun _ => default, memory, σ⟩ hcheck hfetch
  have hok : l.isRefused = false := Bool.eq_false_iff.mpr (mt hrefused.mp haccepted)
  exact ⟨0, l.next, _, _, (hleft haccepted).2 #[],
    .cons #[] (fun _ => default) memory hfetch hresult hok hstmts⟩

theorem Guest.Runs.eq_of_nil {g : Guest} {σ σ' : GuestState} (h : g.Runs I [] σ σ') : σ' = σ := by
  cases h
  rfl

/-- Where each word takes what is seen of the state one step further, a run goes as many steps. -/
theorem Guest.Runs.foldl {g : Guest} {ws : List Insn} {σ σ' : GuestState} {α : Type}
    {view : GuestState → α} {step : α → Insn → α} (h : g.Runs I ws σ σ')
    (hstep : ∀ w ∈ ws, ∃ refused, g.Performs w I refused fun _ _ m out =>
      view out.state = step (view m.state) w) :
    view σ' = ws.foldl step (view σ) := by
  induction ws generalizing σ with
  | nil => rw [h.eq_of_nil, List.foldl_nil]
  | cons w ws ih =>
      obtain ⟨refused, hperforms⟩ := hstep w List.mem_cons_self
      obtain ⟨-, cia, next, temps, memory, out, hview, hrest⟩ := h.step hperforms
      rw [ih hrest fun w hw => hstep w (List.mem_cons_of_mem _ hw), hview, List.foldl_cons]

end PowerLift
