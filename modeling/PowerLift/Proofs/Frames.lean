import PowerLift.Proofs.CleanState
import PowerLift.Proofs.VectorSteps

/-!
# Slots that instructions leave alone

Code changes a slot of the guest state only where it writes the slot. What the code computes does
not matter for that, as long as it is well typed.
-/

namespace PowerLift

open Layout (specialOffset)
open Lift (exec)
open Point (Has Goes Step Since)

variable {M : Type} {I : Interp M} {env : Env} {w : Insn} {c c' : Point M}

/-! ## Typed expressions -/

namespace Point

/-- At `c`, the expression `e` is well typed, and so are its values from there on. -/
structure Typed (I : Interp M) (c : Point M) (e : Expr) (τ : Ty) : Prop where
  check : c.stage.check e = .ok τ
  ty_eval : ∀ m, c.Shared m → (e.eval I m).ty = τ

namespace Typed

variable {a b e : Expr} {ρ τ τ' : Ty} {o : Op}

theorem since [h : Since c c'] (he : c.Typed I e τ) : c'.Typed I e τ where
  check := h.keeps.follows.check _ _ he.check
  ty_eval m hm := he.ty_eval m fun t τ ht =>
    (hm t τ (h.keeps.follows.check _ _ ht)).trans (h.keeps.shared t τ ht)

theorem const (k : Const) : c.Typed I (.const k) k.ty := ⟨rfl, fun _ _ => k.ty_value⟩

theorem get (offset : Nat) (τ : Ty) : c.Typed I (.get offset τ) τ := ⟨rfl, fun _ _ => rfl⟩

theorem un (ha : c.Typed I a τ) (ho : o.signature = .unary ρ τ) : c.Typed I (.un o a) ρ :=
  ⟨Stage.check_un ho ha.check, fun _ _ => congrArg Signature.ret ho⟩

theorem bin (ha : c.Typed I a τ) (hb : c.Typed I b τ') (ho : o.signature = .binary ρ τ τ') :
    c.Typed I (.bin o a b) ρ :=
  ⟨Stage.check_bin ho ha.check hb.check, fun _ _ => congrArg Signature.ret ho⟩

theorem load (ha : c.Typed I a env.arch.wordTy) (order : ByteOrder) (τ : Ty) :
    c.Typed I (.load order τ a) τ := ⟨Stage.check_load ha.check order τ, fun _ _ => rfl⟩

theorem imm (x : BitVec 64) : c.Typed I (env.imm x) env.arch.wordTy where
  check := env.imm_check c.stage x
  ty_eval m _ := by rw [env.imm_eval]

/-- An operator of the width of a word. -/
theorem word {op : Width → Op} (hop : ∀ w, (op w).signature = .same w.ty)
    (ha : c.Typed I a env.arch.wordTy) (hb : c.Typed I b env.arch.wordTy) :
    c.Typed I (.bin (op env.arch.word.width) a b) env.arch.wordTy where
  check := word_check hop ha.check hb.check
  ty_eval m _ := by
    change (op env.arch.word.width).signature.ret = _
    rw [hop]
    cases env.arch <;> rfl

theorem narrowed (he : c.Typed I e env.arch.wordTy) :
    c.Typed I (narrowed env.arch .w8 e) .i8 where
  check := narrowed_check Width.noConfusion he.check
  ty_eval m _ := by cases env.arch <;> rfl

theorem indexed (ra rb : Nat) : c.Typed I (.indexed env.arch ra rb) env.arch.wordTy where
  check := Expr.indexed_check c.stage env.arch ra rb
  ty_eval m _ := by
    unfold Expr.indexed
    split
    · rfl
    · cases env.arch <;> rfl

theorem has (he : c.Typed I e τ) : ∃ v, v.ty = τ ∧ c.Has I e v := by
  have hty := he.ty_eval c.machine fun _ _ _ => rfl
  exact ⟨_, hty, hty.symm ▸ he.check, rfl⟩

end Typed

theorem Knows.typed {e : Expr} {v : Value} (he : c.Knows I (fun _ => True) e v) :
    c.Typed I e v.ty :=
  ⟨he.check, fun m hm => congrArg Value.ty (he.eval m hm trivial)⟩

end Point

/-! ## Liftings -/

/-- From `c`, the lifting refuses its word where `refused` holds; elsewhere it ends, and its code
leaves a slot as it is at `c`. -/
def Spares (env : Env) (I : Interp M) (s : SpecialSlot) (c : Point M) (x : Lift Unit)
    (refused : Prop) : Prop :=
  Comes env I c x refused fun _ flow =>
    flow.state.held env.arch I.order s = c.state.held env.arch I.order s

namespace Spares

variable {α : Type} {s : SpecialSlot} {x : Lift α} {f : α → Lift Unit} {a : α} {e : Expr} {τ : Ty}
  {φ φ' : Prop}

theorem congr {x : Lift Unit} (h : Spares env I s c x φ) (hφ : φ ↔ φ') : Spares env I s c x φ' :=
  Comes.congr h hφ

theorem goes (hx : Goes env I c x a c')
    (hkeep : c'.state.held env.arch I.order s = c.state.held env.arch I.order s)
    (hf : Spares env I s c' (f a) φ) : Spares env I s c (x >>= f) φ :=
  Comes.goes hx (hf.mono Iff.rfl fun _ _ hflow => hflow.trans hkeep)

theorem give (hx : exec env c.progress x = (.ok a, c.progress)) (hf : Spares env I s c (f a) φ) :
    Spares env I s c (x >>= f) φ :=
  Comes.give hx hf

theorem guard {x : Lift Unit} {f : Unit → Lift Unit} {bad : Prop}
    (hx : Lift.Refuses env c.progress x bad) (hf : Spares env I s c (f ()) φ) :
    Spares env I s c (x >>= f) (bad ∨ φ) :=
  Comes.guard hx fun _ => hf

theorem unrecognized (w : Insn) (what : String) {f : α → Lift Unit} :
    Spares env I s c (Lift.unrecognized w what >>= f) True :=
  .refuses trivial rfl

theorem done (hnext : c.progress.next = .continue) : Spares env I s c (pure ()) False :=
  Comes.done hnext rfl

/-- The last step of a lifting. -/
theorem last {x : Lift Unit} (h : Spares env I s c (x >>= Pure.pure) φ) : Spares env I s c x φ := by
  rwa [bind_pure] at h

theorem listed {line : String} {f : Unit → Lift Unit}
    (hf : ∀ c' [Step c c'], Spares env I s c' (f ()) φ) :
    Spares env I s c (Lift.listed line >>= f) φ := by
  obtain ⟨c', _, hgoes, hmachine⟩ := Goes.listed c line
  refine .goes hgoes ?_ (hf c')
  rw [Point.state, hmachine]
  rfl

theorem bind {f : Expr → Lift Unit} (he : c.Typed I e τ)
    (hf : ∀ t c' [Step c c'], c'.Typed I t τ → Spares env I s c' (f t) φ) :
    Spares env I s c (Lift.bind e >>= f) φ := by
  obtain ⟨v, rfl, hv⟩ := he.has
  obtain ⟨t, c', _, hgoes, hstate, -, ht⟩ := Goes.bind hv
  exact .goes hgoes (by rw [hstate]) (hf t c' ht.typed)

theorem putVr (hlayout : env.layout = env.arch) {i : Nat} (hi : i < 32) (he : c.Typed I e .v128)
    {f : Unit → Lift Unit} (hf : ∀ c' [Step c c'], Spares env I s c' (f ()) φ) :
    Spares env I s c (Lift.putVr i e >>= f) φ := by
  obtain ⟨⟨ty, x⟩, rfl, hx⟩ := he.has
  refine Comes.putVr hlayout hi hx fun c' _ hstate _ => (hf c').mono Iff.rfl fun _ _ hflow => ?_
  rw [hflow, hstate]
  exact GuestState.held_withVsr (by omega) s x

/-- A byte of a condition field is written. -/
theorem putField {slot : Slot} {o : Nat} (hplace : Layout.locate env.layout slot = .ok ⟨o, .i8⟩)
    (ho : Layout.crBase env.arch ≤ o) (he : c.Typed I e .i8)
    {f : Unit → Lift Unit} (hf : ∀ c' [Step c c'], Spares env I s c' (f ()) φ) :
    Spares env I s c (Lift.putSlot slot e >>= f) φ := by
  obtain ⟨v, hv, hx⟩ := he.has
  obtain ⟨c', _, hgoes, hstate, -⟩ := Goes.putAt (Lift.exec_putSlot_eq hplace) hx hv
  refine .goes hgoes ?_ (hf c')
  rw [hstate]
  exact GuestState.read_write_disjoint
    (.inr (Nat.le_trans (Layout.special_between env.arch s).le_high ho))

theorem store (ha : c.Typed I e env.arch.wordTy) {d : Expr} (hd : c.Typed I d τ) (hτ : τ ≠ .i1)
    {f : Unit → Lift Unit} (hf : ∀ c' [Step c c'], Spares env I s c' (f ()) φ) :
    Spares env I s c (Lift.store e d >>= f) φ := by
  rw [Arch.wordTy_eq] at ha
  obtain ⟨⟨ty, x⟩, rfl, hx⟩ := ha.has
  obtain ⟨v, rfl, hv⟩ := hd.has
  obtain ⟨c', _, hgoes, hstate, -⟩ := Goes.store hx hv hτ
  exact .goes hgoes (by rw [hstate]) (hf c')

end Spares

theorem Env.leave_state (env : Env) (next : Continuation) (flow : Flow M) :
    (env.leave I next flow).state = flow.state := by
  cases flow with
  | left out => rfl
  | behind m => cases next <;> rfl

/-- A word whose lifting spares a slot leaves it as it is, wherever the word stands. -/
theorem Guest.performs_sparing {g : Guest} {route : Route} (hroute : Route.find? w = some route)
    (hopcode : w.opcode ≠ 21 ∧ w.opcode ≠ 30) {s : SpecialSlot} {φ : Prop}
    (hlift : ∀ (env : Env) (c : Point M), env.layout = env.arch → c.progress.next = .continue →
      Spares env I s c (route.family.lift w) φ) :
    g.Performs w I (route.Closed g ∨ φ) fun _ _ m out =>
      out.state.held g.arch I.order s = m.state.held g.arch I.order s := by
  refine Guest.performs hroute hopcode φ Iff.rfl fun env c hlayout henv hnext => ?_
  obtain ⟨cia, blockStart, rfl⟩ := henv
  refine (hlift _ c hlayout hnext).mono Iff.rfl fun next flow hflow => ?_
  rw [Env.leave_state]
  exact hflow

end PowerLift
