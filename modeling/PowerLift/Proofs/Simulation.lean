import PowerLift.Proofs.Execution
import PowerLift.Proofs.Layout
import PowerLift.Proofs.Lifting

/-!
# Code alone and behind a block

The code of an instruction does the same alone and behind a block, up to the numbers of temporaries
and the instruction address: it never reads the instruction address, which shares no byte with the
registers that it does read.
-/

namespace PowerLift

/-! ## The place of the instruction address -/

namespace Layout

/-- A place that shares no byte with the instruction address. -/
def Apart (arch : Arch) (p : Place) : Prop :=
  p.offset + p.ty.bytes ≤ specialOffset arch .cia ∨
    specialOffset arch .cia + arch.wordTy.bytes ≤ p.offset

/-- No other register shares a byte with the instruction address. -/
theorem Register.apart {arch : Arch} {host : ByteOrder} {p : Place} (h : Register arch host p) :
    Apart arch p := by
  cases h with
  | slot s hs hp =>
      exact locate_disjoint hp (show locate arch (.special .cia) = .ok ⟨_, arch.wordTy⟩ from rfl) hs
  | half i hp =>
      obtain ⟨hty, hle⟩ := fpr_le hp
      have hcia := (special_between arch .cia).low_le
      have hbytes : p.ty.bytes = 8 := by rw [hty]; rfl
      exact .inl (by simp only at hcia; omega)

end Layout

namespace GuestState

/-- States that agree off the instruction address. -/
def Agree (arch : Arch) (σ σ' : GuestState) : Prop :=
  ∀ o, ¬(Layout.specialOffset arch .cia ≤ o ∧
    o < Layout.specialOffset arch .cia + arch.wordTy.bytes) → σ o = σ' o

namespace Agree

variable {arch : Arch} {σ σ' : GuestState}

theorem refl (arch : Arch) (σ : GuestState) : Agree arch σ σ := fun _ _ => rfl

theorem read (h : Agree arch σ σ') {p : Layout.Place} (hp : Layout.Apart arch p)
    (order : ByteOrder) : σ.read order p.offset p.ty = σ'.read order p.offset p.ty := by
  refine read_congr fun o hge hlt => h o ?_
  rcases hp with hp | hp <;> omega

/-- The same write on both sides. -/
theorem write (h : Agree arch σ σ') (order : ByteOrder) (offset : Nat) (v : Value) :
    Agree arch (σ.write order offset v) (σ'.write order offset v) := by
  intro o ho
  unfold GuestState.write
  split
  · rfl
  · exact h o ho

/-- A write of the instruction address on one side. -/
theorem writeCia (h : Agree arch σ σ') (order : ByteOrder) {v : Value} (hv : v.ty = arch.wordTy) :
    Agree arch (σ.write order (Layout.specialOffset arch .cia) v) σ' := by
  intro o ho
  rw [GuestState.write, if_neg (hv ▸ ho)]
  exact h o ho

/-- A write of the instruction address settles all differences. -/
theorem writeCia_eq (h : Agree arch σ σ') (order : ByteOrder) {v : Value}
    (hv : v.ty = arch.wordTy) :
    σ.write order (Layout.specialOffset arch .cia) v =
      σ'.write order (Layout.specialOffset arch .cia) v := by
  funext o
  unfold GuestState.write
  split
  · rfl
  next ho => exact h o (hv ▸ ho)

end Agree

end GuestState

/-! ## Machines side by side -/

variable {M : Type}

/-- Ends of runs that agree off the instruction address. -/
structure Left.Same (arch : Arch) (l l' : Left M) : Prop where
  pc : l'.pc = l.pc
  kind : l'.kind = l.kind
  memory : l'.memory = l.memory
  state : l.state.Agree arch l'.state

/-- Runs that are both behind their statements, or have both left. -/
inductive Flow.Related (arch : Arch) (R : Machine M → Machine M → Prop) :
    Flow M → Flow M → Prop where
  | behind {m m' : Machine M} (h : R m m') : Related arch R (.behind m) (.behind m')
  | left {l l' : Left M} (h : l.Same arch l') : Related arch R (.left l) (.left l')

namespace Flow

variable {arch : Arch} {R R' : Machine M → Machine M → Prop} {flow flow' : Flow M}

theorem Related.andThen {f f' : Machine M → Flow M} (h : Related arch R flow flow')
    (hf : ∀ m m', R m m' → Related arch R' (f m) (f' m')) :
    Related arch R' (flow.andThen f) (flow'.andThen f') := by
  cases h with
  | behind h => exact hf _ _ h
  | left h => exact .left h

theorem andThen_behind (flow : Flow M) : flow.andThen .behind = flow := by
  cases flow <;> rfl

theorem Related.mono (h : Related arch R flow flow') (hR : ∀ m m', R m m' → R' m m') :
    Related arch R' flow flow' := by
  cases h with
  | behind h => exact .behind (hR _ _ h)
  | left h => exact .left h

end Flow

/-- Temporaries that may be read behind `ss` have values of their types. -/
def Machine.Typed (types : Array Ty) (ss : List Stmt) (m : Machine M) : Prop :=
  ∀ t τ, scopeOf types ss t = some τ → (m.temps t).ty = τ

namespace Machine.Typed

variable {types : Array Ty} {ss : List Stmt} {m : Machine M} {stmt : Stmt}

theorem nil : m.Typed types [] := by simp [Typed, scopeOf]

/-- A statement that binds nothing. -/
theorem step (h : m.Typed types ss) (htarget : stmt.target? = none) (memory : M)
    (σ : GuestState) : Typed types (ss ++ [stmt]) { m with memory, state := σ } := by
  intro t τ ht
  simp only [scopeOf_eq_some, boundBy_append, boundBy_single, htarget, Option.toList_none,
    List.append_nil] at ht
  exact h t τ (scopeOf_eq_some.mpr ht)

/-- A statement that binds a temporary. -/
theorem bind (h : m.Typed types ss) {t : Nat} (htarget : stmt.target? = some t) {v : Value}
    (hty : types[t]? = some v.ty) : (m.bind t v).Typed types (ss ++ [stmt]) := by
  intro u τ hu
  simp only [scopeOf_eq_some, boundBy_append, boundBy_single, htarget, Option.toList_some,
    List.mem_append, List.mem_singleton] at hu
  by_cases heq : u = t
  · rw [heq, hty, Option.some.injEq] at hu
    simpa [Machine.bind, heq] using hu.2
  · have hscope := scopeOf_eq_some.mpr ⟨hu.1.resolve_right heq, hu.2⟩
    simpa [Machine.bind, heq] using h u τ hscope

end Machine.Typed

/-- The machines of an instruction that has run `ss`, alone and behind `k` temporaries. -/
structure Tracks (arch : Arch) (k : Nat) (types : Array Ty) (ss : List Stmt)
    (m m' : Machine M) : Prop where
  memory : m'.memory = m.memory
  state : m.state.Agree arch m'.state
  temps : ∀ t ∈ boundBy ss, m'.temps (k + t) = m.temps t
  typed : m.Typed types ss

namespace Expr

variable {I : Interp M} {env : Env} {scope : Nat → Option Ty} {m : Machine M}

/-- Typed expressions have values of their type. -/
theorem HasTy.eval_ty (htyped : ∀ t τ, scope t = some τ → (m.temps t).ty = τ) :
    ∀ {e : Expr} {τ : Ty}, HasTy env scope e τ → (e.eval I m).ty = τ
  | .get _ _, _, h | .apply _ _, _, h | .call _ _ _, _, h => h.1
  | .tmp t, _, h => htyped t _ h
  | .const c, _, h => c.ty_value.trans h
  | .load _ _ _, _, h => h.2.1
  | .ite cond yes no, _, h => by
      rw [eval]
      split
      · exact HasTy.eval_ty htyped h.2.1
      · exact HasTy.eval_ty htyped h.2.2

variable {k : Nat} {types : Array Ty} {ss : List Stmt} {m' : Machine M}

mutual

/-- A renumbered expression has the value of the original. -/
theorem eval_shift (h : Tracks env.arch k types ss m m') :
    ∀ {e : Expr} {τ : Ty}, HasTy env (scopeOf types ss) e τ → (e.shift k).eval I m' = e.eval I m
  | .get offset ty, _, he => by
      have hread := h.state.read he.2.apart I.order
      simp only [shift, eval, hread]
  | .tmp t, _, he => h.temps t (scopeOf_eq_some.mp he).1
  | .const _, _, _ => rfl
  | .apply op args, _, he => by simp only [shift, eval, evalAll_shiftAll h he.2]
  | .load _ _ addr, _, he => by simp only [shift, eval, eval_shift h he.2.2, h.memory]
  | .ite cond yes no, _, he => by
      simp only [shift, eval, eval_shift h he.1, eval_shift h he.2.1, eval_shift h he.2.2]
  | .call _ _ args, _, he => by simp only [shift, eval, evalAll_shiftAll h he.2.choose_spec]

theorem evalAll_shiftAll (h : Tracks env.arch k types ss m m') :
    ∀ {es : List Expr} {tys : List Ty}, HaveTys env (scopeOf types ss) es tys →
      evalAll I m' (shiftAll k es) = evalAll I m es
  | [], [], _ => rfl
  | _ :: _, _ :: _, hes => by
      simp only [shiftAll, evalAll, eval_shift h hes.1, evalAll_shiftAll h hes.2]

end

end Expr

namespace Tracks

variable {arch : Arch} {k : Nat} {types : Array Ty} {ss : List Stmt} {m m' : Machine M}

/-- Machines at the start of an instruction. -/
theorem start {σ : GuestState} (hstate : σ.Agree arch m'.state) :
    Tracks arch k types [] (.start m'.memory σ) m' :=
  ⟨rfl, hstate, by simp, .nil⟩

/-- A statement that binds nothing and does the same to memory. -/
theorem step (h : Tracks arch k types ss m m') {stmt : Stmt} (htarget : stmt.target? = none)
    (memory : M) {σ σ' : GuestState} (hstate : σ.Agree arch σ') :
    Tracks arch k types (ss ++ [stmt]) { m with memory, state := σ }
      { m' with memory, state := σ' } := by
  have hbound : boundBy (ss ++ [stmt]) = boundBy ss := by simp [boundBy_single, htarget]
  exact ⟨rfl, hstate, hbound ▸ h.temps, h.typed.step htarget memory σ⟩

/-- A statement that binds a temporary. -/
theorem bind (h : Tracks arch k types ss m m') {stmt : Stmt} {t : Nat}
    (htarget : stmt.target? = some t) {v : Value} (hty : types[t]? = some v.ty) (memory : M) :
    Tracks arch k types (ss ++ [stmt]) ({ m with memory }.bind t v)
      ({ m' with memory }.bind (k + t) v) := by
  have hbound : boundBy (ss ++ [stmt]) = boundBy ss ++ [t] := by simp [boundBy_single, htarget]
  refine ⟨rfl, h.state, fun u hu => ?_, Machine.Typed.bind h.typed htarget hty⟩
  rw [hbound, List.mem_append, List.mem_singleton] at hu
  by_cases heq : u = t
  · simp [Machine.bind, heq]
  · simpa [Machine.bind, heq] using h.temps u (hu.resolve_right heq)

end Tracks

section

variable {I : Interp M} {env : Env} {k : Nat} {types types' : Array Ty} {ss : List Stmt}
  {m m' : Machine M}

/-- A renumbered statement does what the original does. -/
theorem Fits.run_shift {stmt : Stmt} (hfits : Fits env types ss stmt)
    (htypes : ∀ (t : Nat) (τ : Ty), types[t]? = some τ → types'[k + t]? = some τ)
    (h : Tracks env.arch k types ss m m') :
    Flow.Related env.arch (Tracks env.arch k types (ss ++ [stmt])) (stmt.run I types m)
      ((stmt.shift k).run I types' m') := by
  obtain ⟨temps, memory, state⟩ := m
  obtain ⟨temps', memory', state'⟩ := m'
  obtain rfl : memory' = memory := h.memory
  -- Both sides of each statement below are evaluated to the same values.
  have heval : ∀ {e : Expr} {τ : Ty}, e.HasTy env (scopeOf types ss) τ →
      (e.shift k).eval I ⟨temps', memory', state'⟩ = e.eval I ⟨temps, memory', state⟩ :=
    fun he => Expr.eval_shift h he
  -- A load or a call takes the type of its result from the temporary.
  have hty_eq : ∀ {t : Nat} {τ : Ty}, types[t]? = some τ →
      types[t]?.getD default = τ ∧ types'[k + t]?.getD default = τ := by
    intro t τ ht
    rw [ht, htypes t τ ht]
    exact ⟨rfl, rfl⟩
  cases hfits with
  | mark len hss => exact .behind (h.step rfl memory' h.state)
  | bind t e τ he hty ht =>
      have hv : (e.eval I ⟨temps, memory', state⟩).ty = τ := he.eval_ty h.typed
      simp only [Stmt.shift, Stmt.run, heval he]
      exact .behind (h.bind rfl (hv ▸ hty) memory')
  | put p e hp he =>
      simp only [Stmt.shift, Stmt.run, heval he]
      exact .behind (h.step rfl memory' (h.state.write I.order p.offset _))
  | store a e τ ha he hτ =>
      simp only [Stmt.shift, Stmt.run, heval ha, heval he]
      exact .behind (h.step rfl _ h.state)
  | exit guard kind target hguard hfault =>
      simp only [Stmt.shift, Stmt.run, heval hguard]
      split
      · exact .left ⟨rfl, rfl, rfl, h.state.write I.order _ _⟩
      · exact .behind (h.step rfl memory' h.state)
  | loadLinked t a τ ha hty hτ ht =>
      obtain ⟨hleft, hright⟩ := hty_eq hty
      simp only [Stmt.shift, Stmt.run, heval ha]
      rw [hleft, hright]
      exact .behind (h.bind rfl hty _)
  | storeConditional t a e τ ha he hτ hty ht =>
      simp only [Stmt.shift, Stmt.run, heval ha, heval he]
      exact .behind (h.bind rfl hty _)
  | fence => exact .behind (h.step rfl _ h.state)
  | timeBase t hty ht =>
      obtain ⟨hleft, hright⟩ := hty_eq hty
      simp only [Stmt.shift, Stmt.run, EffectCall.shift, EffectCall.run, Option.map_some,
        Option.map_none, Expr.shiftAll, Expr.evalAll]
      rw [hleft, hright]
      exact .behind (h.bind rfl hty _)
  | hint a len next ha hnext =>
      simp only [Stmt.shift, Stmt.run, heval ha, heval hnext]
      exact .behind (h.step rfl _ h.state)

/-- The renumbered code of an instruction does what the original does. -/
theorem Trail.run_shift (hcode : Trail (Fits env types) ss)
    (htypes : ∀ (t : Nat) (τ : Ty), types[t]? = some τ → types'[k + t]? = some τ)
    (h : Tracks env.arch k types [] m m') :
    Flow.Related env.arch (Tracks env.arch k types ss) (runAll I types ss m)
      (runAll I types' (ss.map (Stmt.shift k)) m') := by
  -- Along the code: what was bound so far has the same values on both sides.
  induction hcode with
  | nil => exact .behind h
  | @snoc ss stmt _ hfits ih =>
      rw [List.map_append, runAll_append, runAll_append]
      refine ih.andThen fun _ _ h => ?_
      rw [List.map_cons, List.map_nil, runAll_single, runAll_single]
      exact hfits.run_shift htypes h

end

end PowerLift
